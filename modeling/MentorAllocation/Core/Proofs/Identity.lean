import MentorAllocation.Core.Normalize
import MentorAllocation.Text.Digits

namespace Core
open Text

/-- A text of ASCII characters and of Persian and Arabic-Indic digits. -/
def Plain (s : String) : Prop :=
  ∀ c ∈ s.toList, c.toNat < 128 ∨ (easternDigits.lookup c).isSome = true

instance (s : String) : Decidable (Plain s) :=
  inferInstanceAs (Decidable (∀ c ∈ s.toList,
    c.toNat < 128 ∨ (easternDigits.lookup c).isSome = true))

/-- What Unicode promises of such texts: NFKC leaves them. -/
def KeepsPlain (nfkc : String → String) : Prop := ∀ s : String, Plain s → nfkc s = s

/-- The text of a value as both functions read it. -/
def Value.readText (nfkc : String → String) : Value → String
  | .object str => nfkc (normalizeDigits nfkc str)
  | _ => ""

/-- Every decimal digit of the text is an ASCII one. -/
def AsciiDigits (text : String) : Prop :=
  ∀ c ∈ text.toList, isDecimal c = true → c.isDigit = true

structure MobileForm (number : String) : Prop where
  length : number.toList.length = 11
  ascii : ∀ c ∈ number.toList, c.isDigit = true
  start : "09".toList <+: number.toList

structure NationalIdForm (number : String) : Prop where
  length : number.toList.length = 10
  ascii : ∀ c ∈ number.toList, c.isDigit = true
  checksum : checksumHolds (number.toList.map fun c => c.toNat - '0'.toNat) = true

def dialPrefixes : List String := ["", "0", "98", "098", "0098"]

structure Subscriber (number : List Char) : Prop where
  length : number.length = 10
  ascii : ∀ c ∈ number, c.isDigit = true
  start : number.head? = some '9'

variable {nfkc : String → String}

theorem forall_onlyDigits {text : String} :
    (∀ c ∈ onlyDigits text, c.isDigit = true) ↔ AsciiDigits text := by
  simp only [onlyDigits, List.mem_filter, and_imp, AsciiDigits]

/-- The prefix that goes and the one that comes are ASCII digits. -/
theorem normalizeMobilePrefix_split (digits : List Char) : ∃ gone new rest,
    digits = gone ++ rest ∧ normalizeMobilePrefix digits = new ++ rest ∧
      (∀ c ∈ gone, c.isDigit = true) ∧ ∀ c ∈ new, c.isDigit = true := by
  have hstart : ∀ {start : List Char}, start.isPrefixOf digits = true →
      digits = start ++ digits.drop start.length := fun h =>
    (List.prefix_iff_eq_append.mp (List.isPrefixOf_iff_prefix.mp h)).symm
  unfold normalizeMobilePrefix
  split
  · next h =>
    exact ⟨"0098".toList, ['0'], digits.drop 4, hstart (Bool.and_eq_true_iff.mp h).1, rfl,
      by decide, by decide⟩
  split
  · next h =>
    exact ⟨"098".toList, ['0'], digits.drop 3, hstart (Bool.and_eq_true_iff.mp h).1, rfl,
      by decide, by decide⟩
  split
  · next h =>
    exact ⟨"98".toList, ['0'], digits.drop 2, hstart (Bool.and_eq_true_iff.mp h).1, rfl,
      by decide, by decide⟩
  split
  · exact ⟨[], ['0'], digits, rfl, rfl, by decide, by decide⟩
  · exact ⟨[], [], digits, rfl, rfl, by decide, by decide⟩

theorem ascii_normalizeMobilePrefix (digits : List Char) :
    (∀ c ∈ normalizeMobilePrefix digits, c.isDigit = true) ↔ ∀ c ∈ digits, c.isDigit = true := by
  obtain ⟨gone, new, rest, hdigits, hresult, hgone, hnew⟩ := normalizeMobilePrefix_split digits
  rw [hresult, hdigits, List.forall_mem_append, List.forall_mem_append]
  exact ⟨fun h => ⟨hgone, h.2⟩, fun h => ⟨hnew, h.2⟩⟩

theorem lookup_ascii {c : Char} (h : c.toNat < 128) : easternDigits.lookup c = none := by
  have hkeys : easternDigits.all (fun e => 128 ≤ e.1.toNat) = true := by decide
  cases hc : easternDigits.lookup c with
  | none => rfl
  | some d =>
    obtain ⟨before, after, he, -⟩ := List.lookup_eq_some_iff.mp hc
    have := List.all_eq_true.mp hkeys (c, d) (by rw [he]; simp)
    simp at this
    omega

/-- A text of ASCII digits is read as it stands. -/
theorem readText_ascii (hplain : KeepsPlain nfkc) {number : String}
    (h : ∀ c ∈ number.toList, c.isDigit = true) :
    nfkc (normalizeDigits nfkc number) = number ∧ onlyDigits number = number.toList := by
  have hlow : ∀ c ∈ number.toList, c.toNat < 128 := by
    intro c hc
    have := isDigit_bounds (h c hc)
    omega
  have hkept : nfkc number = number := hplain number fun c hc => .inl (hlow c hc)
  have hsame : Text.translate easternDigits number = number :=
    translate_of_none fun c hc => lookup_ascii (hlow c hc)
  refine ⟨by rw [normalizeDigits, hkept, hsame, hkept], ?_⟩
  exact List.filter_eq_self.mpr fun c hc => isDecimal_of_isDigit (h c hc)

/-- A number in its form is not rewritten. -/
theorem normalizeMobilePrefix_form {digits : List Char} (hstart : "09".toList <+: digits)
    (hlength : digits.length = 11) : normalizeMobilePrefix digits = digits := by
  obtain ⟨rest, rfl⟩ := hstart
  simp only [normalizeMobilePrefix, hlength]
  simp

theorem mobilePattern_iff {digits : List Char} : mobilePattern digits = true ↔
    "09".toList <+: digits ∧ digits.length = 11 ∧ ∀ c ∈ digits, isDecimal c = true := by
  rw [mobilePattern, Bool.and_eq_true, Bool.and_eq_true, List.isPrefixOf_iff_prefix, beq_iff_eq,
    List.all_eq_true, and_assoc]

/-- What it means that a value is accepted as a mobile number. -/
theorem normalizeMobile_eq_ok {value : Value} {result : String} :
    normalizeMobile nfkc value = .ok result ↔ (∃ str, value = .object str) ∧
      result.toList = normalizeMobilePrefix (onlyDigits (value.readText nfkc)) ∧
      mobilePattern result.toList = true := by
  cases value with
  | none => simp [normalizeMobile]
  | bool b => simp [normalizeMobile]
  | object str =>
    rw [normalizeMobile, Value.readText]
    generalize normalizeMobilePrefix (onlyDigits (nfkc (normalizeDigits nfkc str))) = digits
    constructor
    · intro h
      split at h
      · next hpattern =>
        obtain rfl := Except.ok.inj h
        rw [String.toList_ofList]
        exact ⟨⟨str, rfl⟩, rfl, hpattern⟩
      · cases h
    · rintro ⟨-, rfl, hpattern⟩
      rw [if_pos hpattern, String.ofList_toList]

/-- An accepted mobile number has its form, and is left as it is, exactly where the digits
that were read are ASCII. -/
theorem mobile_canonical_iff (hplain : KeepsPlain nfkc) {value : Value} {result : String}
    (h : normalizeMobile nfkc value = .ok result) :
    (MobileForm result ∧ normalizeMobile nfkc (.object result) = .ok result) ↔
      AsciiDigits (value.readText nfkc) := by
  obtain ⟨-, hresult, hpattern⟩ := normalizeMobile_eq_ok.mp h
  have hascii : (∀ c ∈ result.toList, c.isDigit = true) ↔ AsciiDigits (value.readText nfkc) := by
    rw [hresult, ascii_normalizeMobilePrefix, forall_onlyDigits]
  rw [← hascii]
  constructor
  · intro hform
    exact hform.1.ascii
  · intro hdigits
    obtain ⟨hstart, hlength, -⟩ := mobilePattern_iff.mp hpattern
    obtain ⟨hread, honly⟩ := readText_ascii hplain hdigits
    refine ⟨⟨hlength, hdigits, hstart⟩, normalizeMobile_eq_ok.mpr ⟨⟨result, rfl⟩, ?_, hpattern⟩⟩
    rw [Value.readText, hread, honly, normalizeMobilePrefix_form hstart hlength]

theorem nationalIdPattern_iff {digits : List Char} : nationalIdPattern digits = true ↔
    digits.length = 10 ∧ ∀ c ∈ digits, isDecimal c = true := by
  rw [nationalIdPattern, Bool.and_eq_true, beq_iff_eq, List.all_eq_true]

theorem filter_dropWhile {p q : Char → Bool} (h : ∀ c, p c = true → q c = false) (l : List Char) :
    (l.dropWhile q).filter p = l.filter p := by
  induction l with
  | nil => rfl
  | cons c l ih =>
    rw [List.dropWhile_cons]
    split
    · next hc =>
      have hp : ¬ p c = true := fun hp => by rw [h c hp] at hc; cases hc
      rw [ih, List.filter_cons_of_neg hp]
    · rfl

/-- Stripping takes no digit. -/
theorem onlyDigits_strip (text : String) : onlyDigits (strip text) = onlyDigits text := by
  have hspace : ∀ c, isDecimal c = true → isSpace c = false := fun c => isSpace_of_decimal
  rw [onlyDigits, strip, String.toList_ofList, List.filter_reverse, filter_dropWhile hspace,
    List.filter_reverse, List.reverse_reverse, filter_dropWhile hspace, onlyDigits]

/-- What it means that a value is accepted as a national id. -/
theorem normalizeNationalId_eq_ok {value : Value} {result : String} :
    normalizeNationalId nfkc value = .ok result ↔ (∃ str, value = .object str) ∧
      result.toList = onlyDigits (value.readText nfkc) ∧ nationalIdPattern result.toList = true ∧
      checksumHolds (result.toList.map fun ch => (decimal? ch).getD 0) = true := by
  cases value with
  | none => simp [normalizeNationalId]
  | bool b => simp [normalizeNationalId]
  | object str =>
    rw [normalizeNationalId, Value.readText]
    simp only [onlyDigits_strip]
    generalize onlyDigits (nfkc (normalizeDigits nfkc str)) = digits
    constructor
    · intro h
      split at h
      · cases h
      · next hpattern =>
        split at h
        · next hchecksum =>
          obtain rfl := Except.ok.inj h
          rw [String.toList_ofList]
          exact ⟨⟨str, rfl⟩, rfl, by simpa using hpattern, hchecksum⟩
        · cases h
    · rintro ⟨-, rfl, hpattern, hchecksum⟩
      rw [if_neg (by simp [hpattern]), if_pos hchecksum, String.ofList_toList]

/-- The values of ASCII digits. -/
theorem map_decimal {digits : List Char} (h : ∀ c ∈ digits, c.isDigit = true) :
    digits.map (fun ch => (decimal? ch).getD 0) = digits.map fun c => c.toNat - '0'.toNat :=
  List.map_congr_left fun c hc => by rw [decimal?_digit (h c hc)]; rfl

theorem nationalId_canonical_iff (hplain : KeepsPlain nfkc) {value : Value} {result : String}
    (h : normalizeNationalId nfkc value = .ok result) :
    (NationalIdForm result ∧ normalizeNationalId nfkc (.object result) = .ok result) ↔
      AsciiDigits (value.readText nfkc) := by
  obtain ⟨-, hresult, hpattern, hchecksum⟩ := normalizeNationalId_eq_ok.mp h
  have hascii : (∀ c ∈ result.toList, c.isDigit = true) ↔ AsciiDigits (value.readText nfkc) := by
    rw [hresult, forall_onlyDigits]
  rw [← hascii]
  constructor
  · intro hform
    exact hform.1.ascii
  · intro hdigits
    obtain ⟨hread, honly⟩ := readText_ascii hplain hdigits
    refine ⟨⟨(nationalIdPattern_iff.mp hpattern).1, hdigits, map_decimal hdigits ▸ hchecksum⟩,
      normalizeNationalId_eq_ok.mpr ⟨⟨result, rfl⟩, ?_, hpattern, hchecksum⟩⟩
    rw [Value.readText, hread, honly]

/-- Whatever stands before it, a subscriber number is written with a zero. -/
theorem normalizeMobilePrefix_dial {start : String} (hstart : start ∈ dialPrefixes)
    {number : List Char} (h : Subscriber number) :
    normalizeMobilePrefix (start.toList ++ number) = '0' :: number := by
  obtain ⟨rest, rfl⟩ := List.head?_eq_some_iff.mp h.start
  have hlength := h.length
  simp only [dialPrefixes, List.mem_cons, List.not_mem_nil, or_false] at hstart
  rcases hstart with rfl | rfl | rfl | rfl | rfl <;>
    simp [normalizeMobilePrefix, List.isPrefixOf, hlength]

/-- All spellings of a subscriber number are accepted and give the same. -/
theorem normalizeMobile_spelled {start : String} (hstart : start ∈ dialPrefixes)
    {number : List Char} (h : Subscriber number) {str : String}
    (hspelled : onlyDigits (nfkc (normalizeDigits nfkc str)) = start.toList ++ number) :
    normalizeMobile nfkc (.object str) = .ok (String.ofList ('0' :: number)) := by
  refine normalizeMobile_eq_ok.mpr ⟨⟨str, rfl⟩, ?_, ?_⟩
  · rw [Value.readText, hspelled, normalizeMobilePrefix_dial hstart h, String.toList_ofList]
  · rw [String.toList_ofList, mobilePattern_iff]
    obtain ⟨rest, rfl⟩ := List.head?_eq_some_iff.mp h.start
    refine ⟨⟨rest, rfl⟩, by rw [List.length_cons, h.length], ?_⟩
    refine List.forall_mem_cons.mpr ⟨by decide, fun c hc => isDecimal_of_isDigit (h.ascii c hc)⟩

/-- A plain text is read digit by digit. -/
theorem readText_plain (hplain : KeepsPlain nfkc) {str : String} (h : Plain str) :
    Value.readText nfkc (.object str) = Text.translate easternDigits str := by
  have hvalues : easternDigits.all (fun e => e.2.toNat < 128) = true := by decide
  have hascii : Plain (Text.translate easternDigits str) := by
    intro c hc
    rw [Text.translate, String.toList_ofList] at hc
    obtain ⟨d, hd, rfl⟩ := List.mem_map.mp hc
    cases hlookup : easternDigits.lookup d with
    | none => exact .inl ((h d hd).resolve_right (by simp [hlookup]))
    | some e =>
      obtain ⟨before, after, he, -⟩ := List.lookup_eq_some_iff.mp hlookup
      exact .inl (of_decide_eq_true (List.all_eq_true.mp hvalues (d, e) (by rw [he]; simp)))
  rw [Value.readText, normalizeDigits, hplain str h, hplain _ hascii]

/-- What is accepted comes out in its form, to stay as it is, exactly where the digits that
were read are ASCII; and every spelling of a subscriber number gives that number. -/
theorem identity_canonical (hplain : KeepsPlain nfkc) :
    (∀ value result, normalizeMobile nfkc value = .ok result →
      ((MobileForm result ∧ normalizeMobile nfkc (.object result) = .ok result) ↔
        AsciiDigits (value.readText nfkc))) ∧
    (∀ value result, normalizeNationalId nfkc value = .ok result →
      ((NationalIdForm result ∧ normalizeNationalId nfkc (.object result) = .ok result) ↔
        AsciiDigits (value.readText nfkc))) ∧
    (∀ start ∈ dialPrefixes, ∀ number, Subscriber number → ∀ str,
      onlyDigits (Value.readText nfkc (.object str)) = start.toList ++ number →
        normalizeMobile nfkc (.object str) = .ok (String.ofList ('0' :: number))) ∧
    ∀ str, Plain str → Value.readText nfkc (.object str) = Text.translate easternDigits str := by
  refine ⟨fun value result h => mobile_canonical_iff hplain h,
    fun value result h => nationalId_canonical_iff hplain h, ?_,
    fun str h => readText_plain hplain h⟩
  intro start hstart number hnumber str hspelled
  exact normalizeMobile_spelled hstart hnumber hspelled

theorem keepsPlain_nfkcDigits : KeepsPlain nfkcDigits := by
  have hkeys : easternDigits.all (fun e => nfkcDecimal e.1 == e.1) = true := by decide
  intro s h
  rw [nfkcDigits, ← String.toList_inj, String.toList_ofList]
  refine (List.map_congr_left fun c hc => ?_).trans (List.map_id _)
  rcases h c hc with hlow | hsome
  · rw [nfkcDecimal]
    simp only [Bool.and_eq_true, decide_eq_true_eq]
    rw [if_neg (by omega), if_neg (by omega), if_neg (by omega)]
    rfl
  · obtain ⟨d, hd⟩ := Option.isSome_iff_exists.mp hsome
    obtain ⟨before, after, he, -⟩ := List.lookup_eq_some_iff.mp hd
    exact beq_iff_eq.mp (List.all_eq_true.mp hkeys (c, d) (by rw [he]; simp))

/-- A number in Persian and in ASCII digits, with the code of the country and separators. -/
theorem identity_canonical_persian :
    normalizeMobile nfkcDigits (.object "+98 (۹۱۲) 345-6789") = .ok "09123456789" := by
  have hall := identity_canonical keepsPlain_nfkcDigits
  have hread := hall.2.2.2 "+98 (۹۱۲) 345-6789" (by decide)
  exact (hall.2.2.1 "98" (by decide) "9123456789".toList ⟨rfl, by decide, rfl⟩ _
    (by rw [hread]; decide)).trans (by decide)

/-- Devanagari digits are decimal digits too: they are accepted and stay. -/
theorem devanagari_kept :
    normalizeMobile nfkcDigits (.object "09१२३४५६७८९") = .ok "09१२३४५६७८९" ∧
    ¬ MobileForm "09१२३४५६७८९" ∧
    normalizeNationalId nfkcDigits (.object "००००००००००") = .ok "००००००००००" ∧
    ¬ NationalIdForm "००००००००००" := by
  refine ⟨by decide, fun h => absurd (h.ascii '१' (by decide)) (by decide), by decide,
    fun h => absurd (h.ascii '०' (by decide)) (by decide)⟩

end Core

import MentorAllocation.Text.Normalization

namespace Text

/-- `str(n)`; `none` is the `ValueError` for a number of more than 4300 digits. -/
def intStr (n : Int) : Option String :=
  if (Nat.toDigits 10 n.natAbs).length ≤ 4300 then some (intText n) else none

theorem strip_eq_self {s : String} (h : ∀ c ∈ s.toList, isSpace c = false) : strip s = s := by
  rw [← String.toList_inj, strip_toList]
  have hleft : s.toList.dropWhile isSpace = s.toList := by
    cases hs : s.toList with
    | nil => rfl
    | cons c rest =>
      rw [List.dropWhile_cons, if_neg]
      simp [h c (hs ▸ List.mem_cons_self)]
  rw [hleft, List.rdropWhile_eq_self_iff]
  intro hne
  simp [h _ (List.getLast_mem hne)]

theorem isDigit_bounds {c : Char} (h : c.isDigit = true) : 48 ≤ c.toNat ∧ c.toNat ≤ 57 := by
  rw [Char.isDigit_iff_toNat] at h
  exact h

theorem decimal?_digit {c : Char} (h : c.isDigit = true) : decimal? c = some (c.toNat - 48) := by
  obtain ⟨hlo, hhi⟩ := isDigit_bounds h
  have hfind : ∀ rest : List Nat,
      (48 :: rest).find? (fun z => z ≤ c.toNat && c.toNat ≤ z + 9) = some 48 :=
    fun rest => List.find?_cons_of_pos (by simp [hlo, hhi])
  exact congrArg (Option.map fun z => c.toNat - z) (hfind _)

theorem isSpace_digit {c : Char} (h : c.isDigit = true) : isSpace c = false := by
  obtain ⟨hlo, hhi⟩ := isDigit_bounds h
  simp only [isSpace, Bool.or_eq_false_iff, Bool.and_eq_false_imp, decide_eq_true_eq,
    decide_eq_false_iff_not, beq_eq_false_iff_ne]
  omega

/-- Digits are read as the number they write. -/
theorem digitsValue_digits {cs : List Char} (h : ∀ c ∈ cs, c.isDigit = true) (acc count : Nat)
    (hcount : 0 < count + cs.length) :
    digitsValue acc count cs = some (Nat.ofDigitChars 10 cs acc, count + cs.length) := by
  induction cs generalizing acc count with
  | nil =>
    have hc : (count == 0) = false := by simpa using Nat.ne_of_gt hcount
    simp [digitsValue, hc, Nat.ofDigitChars_nil]
  | cons c cs ih =>
    obtain ⟨hc, hcs⟩ := List.forall_mem_cons.mp h
    have hne : c ≠ '_' := by
      rintro rfl
      exact absurd hc (by decide)
    have hstep : digitsValue acc count (c :: cs) =
        digitsValue (10 * acc + (c.toNat - 48)) (count + 1) cs := by
      rw [digitsValue.eq_def]
      split
      · next h => cases h
      · next h => exact absurd (List.cons.inj h).1 hne
      · next h =>
        obtain ⟨rfl, rfl⟩ := List.cons.inj h
        rw [decimal?_digit hc]
    rw [hstep, ih hcs _ _ (by omega), Nat.ofDigitChars_cons, List.length_cons]
    congr 2
    omega

/-- Decimal digits of any script are read as some number. -/
theorem digitsValue_decimals {cs : List Char} (h : ∀ c ∈ cs, isDecimal c = true) (acc count : Nat)
    (hcount : 0 < count + cs.length) :
    ∃ n, digitsValue acc count cs = some (n, count + cs.length) := by
  induction cs generalizing acc count with
  | nil =>
    have hc : (count == 0) = false := by simpa using Nat.ne_of_gt hcount
    exact ⟨acc, by simp [digitsValue, hc]⟩
  | cons c cs ih =>
    obtain ⟨hc, hcs⟩ := List.forall_mem_cons.mp h
    obtain ⟨d, hd⟩ := Option.isSome_iff_exists.mp hc
    have hne : c ≠ '_' := by
      rintro rfl
      exact absurd hc (by decide)
    have hstep : digitsValue acc count (c :: cs) = digitsValue (10 * acc + d) (count + 1) cs := by
      rw [digitsValue.eq_def]
      split
      · next h => cases h
      · next h => exact absurd (List.cons.inj h).1 hne
      · next h =>
        obtain ⟨rfl, rfl⟩ := List.cons.inj h
        rw [hd]
    obtain ⟨n, hn⟩ := ih hcs (10 * acc + d) (count + 1) (by omega)
    exact ⟨n, by rw [hstep, hn, List.length_cons]; congr 2; omega⟩

theorem toDigits_digit {n : Nat} {c : Char} (h : c ∈ Nat.toDigits 10 n) : c.isDigit = true :=
  Nat.isDigit_of_mem_toDigits (by omega) (by omega) h

theorem digitsValue_toDigits (n : Nat) :
    digitsValue 0 0 (Nat.toDigits 10 n) = some (n, (Nat.toDigits 10 n).length) := by
  have hlen : 0 < (Nat.toDigits 10 n).length := Nat.length_toDigits_pos
  rw [digitsValue_digits (fun c hc => toDigits_digit hc) 0 0 (by omega),
    Nat.ofDigitChars_ten_toDigits, Nat.zero_add]

theorem intText_toList (n : Int) : (intText n).toList =
    if n < 0 then '-' :: Nat.toDigits 10 n.natAbs else Nat.toDigits 10 n.natAbs := by
  split
  · next hn =>
    rw [intText, zeroPad_negative_toList 0 hn, zeroPad_toList]
    simp
  · next hn =>
    obtain ⟨k, rfl⟩ := Int.eq_ofNat_of_zero_le (Int.not_lt.mp hn)
    rw [intText, zeroPad_toList]
    simp

theorem strip_intText (n : Int) : strip (intText n) = intText n := by
  refine strip_eq_self fun c hc => ?_
  rcases zeroPad_chars hc with rfl | hc
  · decide
  · exact isSpace_digit hc

/-- A number is read back from its text. -/
theorem parseInt_intStr {n : Int} {text : String} (h : intStr n = some text) :
    parseInt text = some n := by
  simp only [intStr] at h
  split at h
  · next hlen =>
    obtain rfl := Option.some.inj h
    simp only [parseInt, strip_intText, intText_toList]
    split_ifs with hn
    · simp only [digitsValue_toDigits, if_pos hlen, Option.map_some]
      congr 1
      omega
    · have hval : ((n.natAbs : Nat) : Int) = n := by omega
      cases hd : Nat.toDigits 10 n.natAbs with
      | nil => exact absurd hd Nat.toDigits_ne_nil
      | cons c rest =>
        have hc : c.isDigit = true := toDigits_digit (hd ▸ List.mem_cons_self)
        split
        · next heq => exact absurd ((List.cons.inj heq).1 ▸ hc) (by decide)
        · next heq => exact absurd ((List.cons.inj heq).1 ▸ hc) (by decide)
        · rw [← hd, digitsValue_toDigits]
          simp only [if_pos hlen, hval]
  · cases h

theorem intStr_injective {m n : Int} {text : String} (hm : intStr m = some text)
    (hn : intStr n = some text) : m = n :=
  Option.some.inj ((parseInt_intStr hm).symm.trans (parseInt_intStr hn))

theorem intStr_chars {n : Int} {text : String} (h : intStr n = some text) {c : Char}
    (hc : c ∈ text.toList) : c = '-' ∨ c.isDigit = true := by
  simp only [intStr] at h
  split at h
  · obtain rfl := Option.some.inj h
    exact zeroPad_chars hc
  · cases h

end Text

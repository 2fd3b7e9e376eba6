import MentorAllocation.Text.Normalization

namespace Text

/-- The characters a spreadsheet takes for the beginning of a formula. -/
def formulaChars : List Char := ['=', '+', '-', '@']

def BeginsFormula (s : String) : Prop := ∃ c ∈ formulaChars, s.toList.head? = some c

instance (s : String) : Decidable (BeginsFormula s) :=
  inferInstanceAs (Decidable (∃ c ∈ formulaChars, s.toList.head? = some c))

variable {table : List (Char × Char)} {p : Char → Bool} {s : String} {c d : Char}

/-- A translation that neither makes nor takes away a formula character. -/
def Inert (table : List (Char × Char)) : Prop :=
  ∀ e ∈ table, e.1 ∉ formulaChars ∧ e.2 ∉ formulaChars

instance : Decidable (Inert table) :=
  inferInstanceAs (Decidable (∀ e ∈ table, e.1 ∉ formulaChars ∧ e.2 ∉ formulaChars))

theorem lookup_mem {v : Char} (h : table.lookup c = some v) : (c, v) ∈ table := by
  obtain ⟨before, after, rfl, -⟩ := List.lookup_eq_some_iff.mp h
  simp

theorem Inert.getD_eq (h : Inert table) (hc : c ∈ formulaChars) :
    (table.lookup d).getD d = c ↔ d = c := by
  cases hd : table.lookup d with
  | none => rfl
  | some v =>
    obtain ⟨hkey, hvalue⟩ := h _ (lookup_mem hd)
    refine iff_of_false ?_ ?_
    · rintro rfl
      exact hvalue hc
    · rintro rfl
      exact hkey hc

/-- A class of characters that a table keeps. -/
theorem class_translate (h : ∀ e ∈ table, p e.2 = p e.1) (c : Char) :
    p ((table.lookup c).getD c) = p c := by
  cases hc : table.lookup c with
  | none => rfl
  | some v => exact h _ (lookup_mem hc)

/-- Such a class is looked for before or after the translation. -/
theorem find?_translate (h : ∀ e ∈ table, p e.2 = p e.1) : (Text.translate table s).toList.find? p =
    (s.toList.find? p).map fun c => (table.lookup c).getD c := by
  have hp : (p ∘ fun c => (table.lookup c).getD c) = p := funext (class_translate h)
  rw [Text.translate, String.toList_ofList, List.find?_map, hp]

theorem Inert.find?_translate (hi : Inert table) (h : ∀ e ∈ table, p e.2 = p e.1)
    (hc : c ∈ formulaChars) :
    (Text.translate table s).toList.find? p = some c ↔ s.toList.find? p = some c := by
  rw [Text.find?_translate h, Option.map_eq_some_iff]
  constructor
  · rintro ⟨d, hd, he⟩
    rwa [← (hi.getD_eq hc).mp he]
  · intro hfind
    exact ⟨c, hfind, (hi.getD_eq hc).mpr rfl⟩

theorem Inert.translate_begins (hi : Inert table) :
    BeginsFormula (Text.translate table s) ↔ BeginsFormula s := by
  refine exists_congr fun c => and_congr_right fun hc => ?_
  rw [Text.translate, String.toList_ofList, List.head?_map, Option.map_eq_some_iff]
  constructor
  · rintro ⟨d, hd, he⟩
    rwa [← (hi.getD_eq hc).mp he]
  · intro hhead
    exact ⟨c, hhead, (hi.getD_eq hc).mpr rfl⟩

theorem find?_keep (keep p : Char → Bool) (cs : List Char) :
    (cs.filter keep).find? p = cs.find? fun c => keep c && p c := by
  rw [List.find?_filter]
  congr 1
  funext c
  rw [Bool.decide_and, Bool.decide_eq_true, Bool.decide_eq_true]

/-- What is found first is also the first of a smaller class that it belongs to. -/
theorem find?_narrow {q : Char → Bool} {cs : List Char} (hq : ∀ x, q x = true → p x = true)
    (h : cs.find? p = some c) (hc : q c = true) : cs.find? q = some c := by
  obtain ⟨-, before, after, rfl, hbefore⟩ := List.find?_eq_some_iff_append.mp h
  refine List.find?_eq_some_iff_append.mpr ⟨hc, before, after, rfl, fun x hx => ?_⟩
  have hp := hbefore x hx
  cases hqx : q x with
  | false => rfl
  | true =>
    rw [hq x hqx] at hp
    cases hp

theorem find?_of_head {cs : List Char} (h : ∀ c, cs.head? = some c → p c = true) :
    cs.find? p = cs.head? := by
  cases cs with
  | nil => rfl
  | cons c cs => rw [List.find?_cons, h c rfl, List.head?_cons]

theorem find?_remove {cs : List Char} :
    (remove cs s).toList.find? p = s.toList.find? fun c => !cs.contains c && p c := by
  rw [remove, String.toList_ofList, find?_keep]

/-- A stripped text begins with the first character that is not white space. -/
theorem strip_head : (strip s).toList.head? = s.toList.find? fun c => !isSpace c := by
  rw [strip_toList, List.find?_eq_head?_dropWhile_not]
  simp only [Bool.not_not]
  cases hdrop : s.toList.dropWhile isSpace with
  | nil => rfl
  | cons c rest =>
    have hc : isSpace c = false := by
      have := List.head?_dropWhile_not isSpace s.toList
      rw [hdrop] at this
      simpa using this
    obtain ⟨cut, hcut⟩ := List.rdropWhile_prefix isSpace (c :: rest)
    cases hkept : (c :: rest).rdropWhile isSpace with
    | nil =>
      have := List.rdropWhile_eq_nil_iff.mp hkept c List.mem_cons_self
      rw [hc] at this
      cases this
    | cons d kept =>
      rw [hkept] at hcut
      rw [List.head?_cons, List.head?_cons, (List.cons.inj hcut).1]

theorem zeroPad_begins {width : Nat} {n : Int} : BeginsFormula (zeroPad width n) ↔ n < 0 := by
  by_cases hn : n < 0
  · refine iff_of_true ⟨'-', by decide, ?_⟩ hn
    rw [zeroPad_negative_toList width hn, List.head?_cons]
  · refine iff_of_false ?_ hn
    obtain ⟨k, rfl⟩ := Int.eq_ofNat_of_zero_le (Int.not_lt.mp hn)
    rintro ⟨c, hc, hhead⟩
    have hmem := List.mem_of_head? hhead
    rcases zeroPad_chars hmem with rfl | hdigit
    · exact zeroPad_no_sign width k hmem
    · have hnone : ∀ c ∈ formulaChars, c.isDigit = false := by decide
      rw [hnone c hc] at hdigit
      cases hdigit

/-- A negative number begins with its sign. -/
theorem parseInt_negative {n : Int} (h : parseInt s = some n) (hn : n < 0) :
    (strip s).toList.head? = some '-' := by
  have hunsigned : ∀ k : Nat, some (k : Int) ≠ some n := by
    intro k hk
    rw [← Option.some.inj hk] at hn
    exact absurd hn (Int.not_lt.mpr (Int.natCast_nonneg k))
  rw [parseInt] at h
  dsimp only at h
  split at h
  · split at h
    · split at h
      · exact absurd h (hunsigned _)
      · cases h
    · cases h
  · next hsign => rw [hsign, List.head?_cons]
  · split at h
    · split at h
      · exact absurd h (hunsigned _)
      · cases h
    · cases h

end Text

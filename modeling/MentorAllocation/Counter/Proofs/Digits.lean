import Mathlib.Data.List.Infix
import MentorAllocation.Counter.Validation
import MentorAllocation.Text.Digits

namespace Counter
open Text

/-- Decimal digits neither compose nor reorder under NFKC. -/
def DigitByDigit (nfkc : String → String) : Prop :=
  ∀ s, s.toList.all isDecimal = true → nfkc s = String.ofList (s.toList.map nfkcDecimal)

/-- A digit as it stands in a stored counter. -/
def folded (c : Char) : Char := mapped digitMap (mapped persianDigits (nfkcDecimal c))

def foldedText (s : String) : String := String.ofList (s.toList.map folded)

theorem asciiFacts_all :
    asciiDigits.all (fun c => isDecimal c && folded c == c) = true := by decide +kernel

theorem asciiFacts_of {c : Char} (h : c ∈ asciiDigits) : isDecimal c = true ∧ folded c = c := by
  have hc := List.all_eq_true.mp asciiFacts_all c h
  rw [Bool.and_eq_true, beq_iff_eq] at hc
  exact hc

theorem persian_cases (c : Char) :
    mapped persianDigits c = c ∨ mapped persianDigits c ∈ asciiDigits :=
  mapped_cases (by decide) c

theorem digitMap_cases (c : Char) : mapped digitMap c = c ∨ mapped digitMap c ∈ asciiDigits :=
  mapped_cases (by decide) c

section
variable {c d : Char}

/-- Both outcomes of folding a decimal digit are decimal digits. -/
theorem isDecimal_of_cases (h : isDecimal c = true) (hd : d = c ∨ d ∈ asciiDigits) :
    isDecimal d = true := by
  rcases hd with rfl | hd
  · exact h
  · exact (asciiFacts_of hd).1

theorem isDecimal_nfkcDecimal (h : isDecimal c = true) : isDecimal (nfkcDecimal c) = true :=
  isDecimal_of_cases h (nfkcDecimal_cases c)

theorem isDecimal_persian (h : isDecimal c = true) : isDecimal (mapped persianDigits c) = true :=
  isDecimal_of_cases h (persian_cases c)

theorem isDecimal_digitMap (h : isDecimal c = true) : isDecimal (mapped digitMap c) = true :=
  isDecimal_of_cases h (digitMap_cases c)

theorem isDecimal_folded (h : isDecimal c = true) : isDecimal (folded c) = true :=
  isDecimal_digitMap (isDecimal_persian (isDecimal_nfkcDecimal h))

/-- No decimal digit is removed by normalisation. -/
theorem not_zeroWidth_of_decimal (h : isDecimal c = true) :
    zeroWidthTable.contains c = false ∧ ['\u200c', '\u200d', '\ufeff'].contains c = false := by
  have hall : decimalChars.all (fun c => !zeroWidthTable.contains c &&
      !(['\u200c', '\u200d', '\ufeff'].contains c)) = true := by decide +kernel
  simpa only [Bool.and_eq_true, Bool.not_eq_true'] using decimal_all hall h

theorem folded_cases (c : Char) : folded c = c ∨ folded c ∈ asciiDigits := by
  rcases digitMap_cases (mapped persianDigits (nfkcDecimal c)) with h | h
  · rcases persian_cases (nfkcDecimal c) with h' | h'
    · rcases nfkcDecimal_cases c with h'' | h''
      · exact .inl (h.trans (h'.trans h''))
      · exact .inr (by rw [folded, h, h']; exact h'')
    · exact .inr (by rw [folded, h]; exact h')
  · exact .inr h

theorem folded_folded (c : Char) : folded (folded c) = folded c := by
  rcases folded_cases c with h | h
  · rw [h, h]
  · exact (asciiFacts_of h).2

/-- ASCII digits are decimal digits and stay what they are. -/
theorem ascii_digit (h : c.isDigit = true) : isDecimal c = true ∧ folded c = c := by
  have hr : 48 ≤ c.toNat ∧ c.toNat ≤ 57 := by
    simp only [Char.isDigit, Bool.and_eq_true, decide_eq_true_eq, ge_iff_le,
      UInt32.le_iff_toNat_le] at h
    exact h
  have hmem := mem_asciiDigits (n := c.toNat - 48) (by omega)
  rw [Nat.sub_add_cancel hr.1, Char.ofNat_toNat] at hmem
  exact asciiFacts_of hmem

end

section
variable {s : String}

theorem folded_map (s : String) : String.ofList (s.toList.map
    (mapped digitMap ∘ mapped persianDigits ∘ nfkcDecimal)) = foldedText s := by
  rw [foldedText]
  rfl

theorem normalize_digits {nfkc : String → String} (hn : DigitByDigit nfkc)
    (h : s.toList.all isDecimal = true) :
    normalize nfkc s = String.ofList (s.toList.map (mapped persianDigits ∘ nfkcDecimal)) := by
  have hdec : ∀ c ∈ (String.ofList (s.toList.map (mapped persianDigits ∘ nfkcDecimal))).toList,
      isDecimal c = true := by
    intro c hc
    obtain ⟨d, hd, rfl⟩ := List.mem_map.mp (String.toList_ofList ▸ hc)
    exact isDecimal_persian (isDecimal_nfkcDecimal (List.all_eq_true.mp h d hd))
  have htr : translate persianDigits (nfkc s) =
      String.ofList (s.toList.map (mapped persianDigits ∘ nfkcDecimal)) := by
    rw [hn s h, translate_ofList, List.map_map]
  have hremove := remove_of_none fun c hc => (not_zeroWidth_of_decimal (hdec c hc)).1
  have hstrip := strip_eq_self fun c hc => isSpace_of_decimal (hdec c hc)
  rw [normalize, htr, hremove, hstrip]

/-- A digit that is normalised stays as it is. -/
theorem persian_kept {c : Char} (h : nfkcDecimal c = c) :
    mapped persianDigits (nfkcDecimal (mapped persianDigits c)) = mapped persianDigits c := by
  rcases persian_cases c with hc | hc
  · rw [hc, h, hc]
  · have hall : asciiDigits.all (fun c => mapped persianDigits c == c) = true := by decide
    rw [nfkcDecimal_ascii hc, beq_iff_eq.mp (List.all_eq_true.mp hall _ hc)]

theorem isDecimal_of_persian {c : Char} (h : isDecimal (mapped persianDigits c) = true) :
    isDecimal c = true := by
  have hkeys : persianDigits.all (fun e => isDecimal e.1) = true := by decide
  cases hc : persianDigits.lookup c with
  | none => rwa [mapped, hc] at h
  | some d =>
    obtain ⟨before, after, he, -⟩ := List.lookup_eq_some_iff.mp hc
    exact List.all_eq_true.mp hkeys (c, d) (by rw [he]; simp)

/-- Texts of digits come out of a second normalisation unchanged. -/
theorem normalize_again {nfkc : String → String} (hf : NormalForm nfkc) (hn : DigitByDigit nfkc)
    (h : (normalize nfkc s).toList.all isDecimal = true) :
    normalize nfkc (normalize nfkc s) = normalize nfkc s := by
  have hkept : ∀ c ∈ (normalize nfkc s).toList, mapped persianDigits (nfkcDecimal c) = c := by
    intro c hc
    have hmem := (strip_part _).subset hc
    rw [remove, String.toList_ofList] at hmem
    rw [Text.translate, String.toList_ofList] at hmem
    obtain ⟨d, hd, rfl⟩ := List.mem_map.mp (List.mem_of_mem_filter hmem)
    have hdecimal : isDecimal d = true := isDecimal_of_persian (List.all_eq_true.mp h _ hc)
    have hpart : nfkc (String.ofList [d]) = String.ofList [d] := by
      refine hf.part (nfkc s) _ (hf.idem s) ?_
      rw [String.toList_ofList, List.singleton_infix_iff]
      exact hd
    have hfixed : nfkcDecimal d = d := by
      rw [hn _ (by simpa using hdecimal)] at hpart
      simpa using congrArg String.toList hpart
    exact persian_kept hfixed
  rw [normalize_digits hn h, ← String.toList_inj, String.toList_ofList]
  exact (List.map_congr_left hkept).trans (List.map_id _)

theorem digitByDigit_nfkcDigits : DigitByDigit nfkcDigits := fun _ _ => rfl

theorem foldedText_decimal (h : s.toList.all isDecimal = true) :
    (foldedText s).toList.all isDecimal = true := by
  rw [foldedText, String.toList_ofList, List.all_map]
  exact List.all_eq_true.mpr fun c hc => isDecimal_folded (List.all_eq_true.mp h c hc)

theorem foldedText_foldedText (s : String) : foldedText (foldedText s) = foldedText s := by
  rw [foldedText, foldedText, String.toList_ofList, List.map_map]
  exact congrArg String.ofList
    (List.map_congr_left fun c _ => Function.comp_apply.trans (folded_folded c))

theorem validateCounter_digits (h : s.toList.all isDecimal = true) :
    validateCounter s = if counterRegex (translate digitMap s) then some (translate digitMap s)
      else none := by
  have hdec : ∀ c ∈ (translate digitMap s).toList, isDecimal c = true := by
    intro c hc
    obtain ⟨d, hd, rfl⟩ := List.mem_map.mp (String.toList_ofList ▸ hc)
    exact isDecimal_digitMap (List.all_eq_true.mp h d hd)
  have hspace : (translate digitMap s).toList.filter (fun c => !isSpace c) =
      (translate digitMap s).toList :=
    List.filter_eq_self.mpr fun c hc => by rw [isSpace_of_decimal (hdec c hc)]; rfl
  have hremove := remove_of_none fun c hc => (not_zeroWidth_of_decimal (hdec c hc)).2
  rw [validateCounter, hremove, hspace, String.ofList_toList]

/-- A text of digits becomes its folded form or is no counter. -/
theorem ensureCounterFormat_digits {nfkc : String → String} (hn : DigitByDigit nfkc)
    (h : s.toList.all isDecimal = true) (hregex : counterRegex (foldedText s) = true) :
    ensureCounterFormat nfkc s = .ok (foldedText s) := by
  have hdec : (String.ofList (s.toList.map (mapped persianDigits ∘ nfkcDecimal))).toList.all
      isDecimal = true := by
    rw [String.toList_ofList, List.all_map]
    exact List.all_eq_true.mpr fun c hc =>
      isDecimal_persian (isDecimal_nfkcDecimal (List.all_eq_true.mp h c hc))
  have hvalid : validateCounter (normalize nfkc s) = some (foldedText s) := by
    rw [normalize_digits hn h, validateCounter_digits hdec, translate_ofList, List.map_map,
      folded_map, if_pos hregex]
  unfold ensureCounterFormat
  rw [hvalid]

end

end Counter

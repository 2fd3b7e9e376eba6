import MentorAllocation.Text.Numbers

namespace Text

def decimalChars : List Char :=
  decimalZeros.flatMap fun first => (List.range 10).map fun i => Char.ofNat (first + i)

theorem mem_decimalChars {c : Char} (h : isDecimal c = true) : c ∈ decimalChars := by
  obtain ⟨d, hd⟩ := Option.isSome_iff_exists.mp h
  obtain ⟨first, hz, rfl⟩ := Option.map_eq_some_iff.mp hd
  have hrange := List.find?_some hz
  simp only [Bool.and_eq_true, decide_eq_true_eq] at hrange
  refine List.mem_flatMap.mpr ⟨first, List.mem_of_find?_eq_some hz, List.mem_map.mpr
    ⟨c.toNat - first, by simp; omega, ?_⟩⟩
  rw [Nat.add_sub_cancel' hrange.1, Char.ofNat_toNat]

/-- What every decimal digit of the tables is, every decimal digit is. -/
theorem decimal_all {p : Char → Bool} (hall : decimalChars.all p = true) {c : Char}
    (h : isDecimal c = true) : p c = true :=
  List.all_eq_true.mp hall c (mem_decimalChars h)

theorem isSpace_of_decimal {c : Char} (h : isDecimal c = true) : isSpace c = false := by
  have hall : decimalChars.all (fun c => !isSpace c) = true := by decide +kernel
  simpa using decimal_all hall h

theorem isDecimal_of_isDigit {c : Char} (h : c.isDigit = true) : isDecimal c = true := by
  rw [isDecimal, decimal?_digit h]
  rfl

def asciiDigits : List Char := (List.range 10).map fun i => Char.ofNat (0x30 + i)

theorem mem_asciiDigits {n : Nat} (h : n < 10) : Char.ofNat (n + 0x30) ∈ asciiDigits :=
  List.mem_map.mpr ⟨n, List.mem_range.mpr h, by rw [Nat.add_comm]⟩

def mapped (table : List (Char × Char)) (c : Char) : Char := (table.lookup c).getD c

/-- A table onto ASCII digits changes a character into one of them or not at all. -/
theorem mapped_cases {table : List (Char × Char)}
    (h : table.all (fun e => asciiDigits.contains e.2) = true) (c : Char) :
    mapped table c = c ∨ mapped table c ∈ asciiDigits := by
  induction table with
  | nil => exact .inl rfl
  | cons e table ih =>
    rw [List.all_cons, Bool.and_eq_true] at h
    rw [mapped, List.lookup_cons]
    cases hc : c == e.1 with
    | true => exact .inr (List.contains_iff_mem.mp h.1)
    | false => exact ih h.2

theorem translate_ofList (table : List (Char × Char)) (l : List Char) :
    translate table (String.ofList l) = String.ofList (l.map (mapped table)) := by
  rw [Text.translate, String.toList_ofList]
  rfl

/-- What NFKC makes of a decimal digit: full-width and mathematical ones become ASCII,
the others stay. -/
def nfkcDecimal (c : Char) : Char :=
  let n := c.toNat
  if 0xff10 ≤ n && n ≤ 0xff19 then Char.ofNat (n - 0xff10 + 0x30)
  else if 0x1d7ce ≤ n && n ≤ 0x1d7ff then Char.ofNat ((n - 0x1d7ce) % 10 + 0x30)
  else if 0x1fbf0 ≤ n && n ≤ 0x1fbf9 then Char.ofNat (n - 0x1fbf0 + 0x30)
  else c

theorem nfkcDecimal_cases (c : Char) : nfkcDecimal c = c ∨ nfkcDecimal c ∈ asciiDigits := by
  simp only [nfkcDecimal]
  split
  · rename_i h
    simp only [Bool.and_eq_true, decide_eq_true_eq] at h
    exact .inr (mem_asciiDigits (by omega))
  split
  · exact .inr (mem_asciiDigits (by omega))
  split
  · rename_i h
    simp only [Bool.and_eq_true, decide_eq_true_eq] at h
    exact .inr (mem_asciiDigits (by omega))
  · exact .inl rfl

theorem nfkcDecimal_ascii {c : Char} (h : c ∈ asciiDigits) : nfkcDecimal c = c := by
  have hall : asciiDigits.all (fun c => nfkcDecimal c == c) = true := by decide
  exact beq_iff_eq.mp (List.all_eq_true.mp hall c h)

def nfkcDigits (s : String) : String := String.ofList (s.toList.map nfkcDecimal)

theorem normalForm_nfkcDigits : NormalForm nfkcDigits := by
  have hidem : ∀ c, nfkcDecimal (nfkcDecimal c) = nfkcDecimal c := by
    intro c
    rcases nfkcDecimal_cases c with hc | hc
    · rw [hc, hc]
    · exact nfkcDecimal_ascii hc
  refine ⟨fun s => ?_, fun s t hs hpart => ?_⟩
  · rw [nfkcDigits, nfkcDigits, String.toList_ofList, List.map_map]
    exact congrArg String.ofList (List.map_congr_left fun c _ => hidem c)
  · have hchars : s.toList.map nfkcDecimal = s.toList := by
      rw [← String.toList_inj, nfkcDigits, String.toList_ofList] at hs
      exact hs
    rw [nfkcDigits, ← String.toList_inj, String.toList_ofList]
    refine (List.map_congr_left fun c hc => ?_).trans (List.map_id _)
    exact List.map_inj_left.mp (hchars.trans (List.map_id _).symm) c (hpart.subset hc)

end Text

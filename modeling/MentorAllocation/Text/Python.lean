import Mathlib.Data.String.Basic

namespace Text

-- The characters of a list are gone through, not all the characters there are.
instance decidableForallMem {l : List Char} {p : Char → Prop} [DecidablePred p] :
    Decidable (∀ c ∈ l, p c) :=
  List.decidableBAll p l

instance decidableExistsMem {l : List Char} {p : Char → Prop} [DecidablePred p] :
    Decidable (∃ c ∈ l, p c) :=
  List.decidableBEx p l

/-- `str.isspace` on one character, which is also what `str.strip` removes and
what `\s` matches. -/
def isSpace (c : Char) : Bool :=
  let n := c.toNat
  (0x09 ≤ n && n ≤ 0x0d) || (0x1c ≤ n && n ≤ 0x20) || n == 0x85 || n == 0xa0 || n == 0x1680 ||
    (0x2000 ≤ n && n ≤ 0x200a) || n == 0x2028 || n == 0x2029 || n == 0x202f || n == 0x205f ||
    n == 0x3000

/-- The zeros of the decimal digit runs of Unicode 14 (general category Nd). -/
def decimalZeros : List Nat :=
  [0x30, 0x660, 0x6f0, 0x7c0, 0x966, 0x9e6, 0xa66, 0xae6, 0xb66, 0xbe6, 0xc66, 0xce6, 0xd66,
   0xde6, 0xe50, 0xed0, 0xf20, 0x1040, 0x1090, 0x17e0, 0x1810, 0x1946, 0x19d0, 0x1a80, 0x1a90,
   0x1b50, 0x1bb0, 0x1c40, 0x1c50, 0xa620, 0xa8d0, 0xa900, 0xa9d0, 0xa9f0, 0xaa50, 0xabf0,
   0xff10, 0x104a0, 0x10d30, 0x11066, 0x110f0, 0x11136, 0x111d0, 0x112f0, 0x11450, 0x114d0,
   0x11650, 0x116c0, 0x11730, 0x118e0, 0x11950, 0x11c50, 0x11d50, 0x11da0, 0x16a60, 0x16ac0,
   0x16b50, 0x1d7ce, 0x1d7d8, 0x1d7e2, 0x1d7ec, 0x1d7f6, 0x1e140, 0x1e2f0, 0x1e950, 0x1fbf0]

def decimal? (c : Char) : Option Nat :=
  (decimalZeros.find? (fun z => z ≤ c.toNat && c.toNat ≤ z + 9)).map (fun z => c.toNat - z)

/-- `str.isdecimal` on one character, the class `\d`. -/
def isDecimal (c : Char) : Bool := (decimal? c).isSome

/-- The runs of characters that are digits without being decimal. -/
def otherDigits : List (Nat × Nat) :=
  [(0xb2, 0xb3), (0xb9, 0xb9), (0x1369, 0x1371), (0x19da, 0x19da), (0x2070, 0x2070),
   (0x2074, 0x2079), (0x2080, 0x2089), (0x2460, 0x2468), (0x2474, 0x247c), (0x2488, 0x2490),
   (0x24ea, 0x24ea), (0x24f5, 0x24fd), (0x24ff, 0x24ff), (0x2776, 0x277e), (0x2780, 0x2788),
   (0x278a, 0x2792), (0x10a40, 0x10a43), (0x10e60, 0x10e68), (0x11052, 0x1105a),
   (0x1f100, 0x1f10a)]

/-- `str.isdigit` on one character. -/
def isDigit (c : Char) : Bool :=
  isDecimal c || otherDigits.any (fun r => r.1 ≤ c.toNat && c.toNat ≤ r.2)

/-- `str.strip()`. -/
def strip (s : String) : String :=
  String.ofList ((s.toList.dropWhile isSpace).reverse.dropWhile isSpace).reverse

/-- `str.translate` with a table of single characters. -/
def translate (table : List (Char × Char)) (s : String) : String :=
  String.ofList (s.toList.map (fun c => (table.lookup c).getD c))

/-- Persian and Arabic-Indic digits onto ASCII ones. -/
def easternDigits : List (Char × Char) :=
  [('۰', '0'), ('۱', '1'), ('۲', '2'), ('۳', '3'), ('۴', '4'),
   ('۵', '5'), ('۶', '6'), ('۷', '7'), ('۸', '8'), ('۹', '9'),
   ('٠', '0'), ('١', '1'), ('٢', '2'), ('٣', '3'), ('٤', '4'),
   ('٥', '5'), ('٦', '6'), ('٧', '7'), ('٨', '8'), ('٩', '9')]

def remove (cs : List Char) (s : String) : String :=
  String.ofList (s.toList.filter (fun c => !cs.contains c))

/-- `needle in text`. -/
def contains (text needle : String) : Bool :=
  text.toList.tails.any needle.toList.isPrefixOf

/-- `str.isdigit` on a text. -/
def isDigitText (s : String) : Bool := !s.isEmpty && s.toList.all isDigit

def digitsValue (acc count : Nat) : List Char → Option (Nat × Nat)
  | [] => if count == 0 then none else some (acc, count)
  | '_' :: c :: rest =>
    if count == 0 then none
    else match decimal? c with
      | none => none
      | some d => digitsValue (10 * acc + d) (count + 1) rest
  | c :: rest => match decimal? c with
    | none => none
    | some d => digitsValue (10 * acc + d) (count + 1) rest

/-- `int(text)`; `none` is a `ValueError`, which texts of more than 4300 digits get too. -/
def parseInt (s : String) : Option Int :=
  let unsigned (cs : List Char) : Option Int := match digitsValue 0 0 cs with
    | some (n, count) => if count ≤ 4300 then some (n : Int) else none
    | none => none
  match (strip s).toList with
  | '+' :: rest => unsigned rest
  | '-' :: rest => (unsigned rest).map (fun n => -n)
  | cs => unsigned cs

/-- `f"{n:0{width}d}"`: padded with zeros behind the sign. -/
def zeroPad (width : Nat) (n : Int) : String :=
  let digits := Nat.toDigits 10 n.natAbs
  if n < 0 then
    String.ofList ('-' :: (List.replicate (width - 1 - digits.length) '0' ++ digits))
  else String.ofList (List.replicate (width - digits.length) '0' ++ digits)

theorem zeroPad_toList (width n : Nat) : (zeroPad width n).toList =
    List.replicate (width - (Nat.toDigits 10 n).length) '0' ++ Nat.toDigits 10 n := by
  simp [zeroPad, show ¬ (n : Int) < 0 by omega]

/-- Padding does not change the number written. -/
theorem zeroPad_value (width n : Nat) : Nat.ofDigitChars 10 (zeroPad width n).toList 0 = n := by
  rw [zeroPad_toList, Nat.ofDigitChars_append, Nat.ofDigitChars_replicate_zero, Nat.mul_zero,
    Nat.ofDigitChars_ten_toDigits]

theorem zeroPad_negative_toList (width : Nat) {n : Int} (h : n < 0) : (zeroPad width n).toList =
    '-' :: (zeroPad (width - 1) n.natAbs).toList := by
  rw [zeroPad_toList]
  simp [zeroPad, h]

theorem zeroPad_no_sign (width n : Nat) : '-' ∉ (zeroPad width n).toList := by
  rw [zeroPad_toList]
  intro h
  rcases List.mem_append.mp h with h | h
  · exact absurd (List.eq_of_mem_replicate h) (by decide)
  · exact absurd (Nat.isDigit_of_mem_toDigits (by omega) (by omega) h) (by decide)

/-- Different numbers are written differently, whatever the width. -/
theorem zeroPad_injective (width : Nat) : Function.Injective (zeroPad width) := by
  intro m n h
  have hl := congrArg String.toList h
  by_cases hm : m < 0
  · by_cases hn : n < 0
    · rw [zeroPad_negative_toList width hm, zeroPad_negative_toList width hn, List.cons.injEq] at hl
      have habs := congrArg (Nat.ofDigitChars 10 · 0) hl.2
      simp only [zeroPad_value] at habs
      omega
    · obtain ⟨k, rfl⟩ := Int.eq_ofNat_of_zero_le (Int.not_lt.mp hn)
      rw [zeroPad_negative_toList width hm] at hl
      exact absurd (hl ▸ List.mem_cons_self) (zeroPad_no_sign width k)
  · obtain ⟨k, rfl⟩ := Int.eq_ofNat_of_zero_le (Int.not_lt.mp hm)
    by_cases hn : n < 0
    · rw [zeroPad_negative_toList width hn] at hl
      exact absurd (hl ▸ List.mem_cons_self) (zeroPad_no_sign width k)
    · obtain ⟨l, rfl⟩ := Int.eq_ofNat_of_zero_le (Int.not_lt.mp hn)
      have habs := congrArg (Nat.ofDigitChars 10 · 0) hl
      simp only [zeroPad_value] at habs
      omega

theorem zeroPad_chars {width : Nat} {n : Int} {c : Char} (h : c ∈ (zeroPad width n).toList) :
    c = '-' ∨ c.isDigit = true := by
  have hnat : ∀ w m : Nat, c ∈ (zeroPad w m).toList → c.isDigit = true := by
    intro w m h
    rw [zeroPad_toList] at h
    rcases List.mem_append.mp h with h | h
    · rw [List.eq_of_mem_replicate h]
      rfl
    · exact Nat.isDigit_of_mem_toDigits (by omega) (by omega) h
  by_cases hn : n < 0
  · rw [zeroPad_negative_toList width hn] at h
    rcases List.mem_cons.mp h with h | h
    · exact .inl h
    · exact .inr (hnat _ _ h)
  · obtain ⟨k, rfl⟩ := Int.eq_ofNat_of_zero_le (Int.not_lt.mp hn)
    exact .inr (hnat _ _ h)

/-- `str(n)` -/
def intText (n : Int) : String := zeroPad 0 n

/-- A number that fits its width is written in exactly that width. -/
theorem zeroPad_length {width n : Nat} (hw : 0 < width) (hn : n < 10 ^ width) :
    (zeroPad width n).toList.length = width := by
  have hl := (Nat.length_toDigits_le_iff (b := 10) (n := n) (by omega) hw).mpr hn
  rw [zeroPad_toList, List.length_append, List.length_replicate]
  omega

end Text

import MentorAllocation.Text.Numbers
import Mathlib.Tactic.Ring

namespace Text

def digitsNumber (cs : List Char) : Nat := Nat.ofDigitChars 10 cs 0

section
variable {x y : Char} {xs ys : List Char}

theorem digitsNumber_cons (x : Char) (xs : List Char) :
    digitsNumber (x :: xs) = (x.toNat - 48) * 10 ^ xs.length + digitsNumber xs := by
  rw [digitsNumber, Nat.ofDigitChars_cons, Nat.ofDigitChars_eq_ofDigitChars_zero, Nat.mul_comm,
    Nat.mul_zero, Nat.zero_add]
  rfl

theorem digitsNumber_lt (h : ∀ c ∈ xs, c.isDigit = true) : digitsNumber xs < 10 ^ xs.length := by
  induction xs with
  | nil => simp [digitsNumber]
  | cons x xs ih =>
    obtain ⟨hx, hxs⟩ := List.forall_mem_cons.mp h
    have hdigit := isDigit_bounds hx
    have htail := ih hxs
    have hle : (x.toNat - 48 + 1) * 10 ^ xs.length ≤ 10 * 10 ^ xs.length :=
      Nat.mul_le_mul_right _ (by omega)
    rw [digitsNumber_cons, List.length_cons, pow_succ, Nat.mul_comm _ 10]
    rw [Nat.add_mul, Nat.one_mul] at hle
    omega

/-- The smaller leading digit decides. -/
theorem leading_lt {d e m k a b : Nat} (hde : d < e) (hm : m < a) (hb : 0 < b) :
    (d * a + m) * (b * 10) < (e * b + k) * (a * 10) := by
  have hlead : d * a + m < e * a := by
    have := Nat.mul_le_mul_right a hde
    rw [Nat.succ_mul] at this
    omega
  calc (d * a + m) * (b * 10) < e * a * (b * 10) := Nat.mul_lt_mul_of_pos_right hlead (by omega)
    _ = e * b * (a * 10) := by ring
    _ ≤ (e * b + k) * (a * 10) := Nat.mul_le_mul_right _ (Nat.le_add_right _ _)

/-- Digits come in the order of the fractions they write behind a point, and a text comes
before the ones that go on with zeros. -/
theorem digits_lt_iff (hx : ∀ c ∈ xs, c.isDigit = true) (hy : ∀ c ∈ ys, c.isDigit = true) :
    xs < ys ↔ digitsNumber xs * 10 ^ ys.length < digitsNumber ys * 10 ^ xs.length ∨
      digitsNumber xs * 10 ^ ys.length = digitsNumber ys * 10 ^ xs.length ∧
        xs.length < ys.length := by
  induction xs generalizing ys with
  | nil =>
    cases ys with
    | nil => simp
    | cons y ys =>
      have hzero : digitsNumber [] = 0 := rfl
      simp only [List.nil_lt_cons, hzero, Nat.zero_mul, List.length_nil, pow_zero, Nat.mul_one,
        List.length_cons, Nat.zero_lt_succ, and_true, true_iff]
      omega
  | cons x xs ih =>
    cases ys with
    | nil => simp [digitsNumber]
    | cons y ys =>
      obtain ⟨hx₀, hxs⟩ := List.forall_mem_cons.mp hx
      obtain ⟨hy₀, hys⟩ := List.forall_mem_cons.mp hy
      have hxd := isDigit_bounds hx₀
      have hyd := isDigit_bounds hy₀
      rw [List.cons_lt_cons_iff, ih hxs hys, digitsNumber_cons, digitsNumber_cons, List.length_cons,
        List.length_cons, pow_succ, pow_succ]
      have hltx := digitsNumber_lt hxs
      have hlty := digitsNumber_lt hys
      have hposx : 0 < 10 ^ xs.length := Nat.pow_pos (by omega)
      have hposy : 0 < 10 ^ ys.length := Nat.pow_pos (by omega)
      generalize digitsNumber xs = m at *
      generalize digitsNumber ys = k at *
      rcases lt_trichotomy x.toNat y.toNat with hlt | heq | hgt
      · have hxy : x < y := hlt
        have := leading_lt (k := k) (show x.toNat - 48 < y.toNat - 48 by omega) hltx hposy
        simp only [hxy, this, true_or]
      · obtain rfl : x = y := Char.toNat_inj.mp heq
        have hleft : ((x.toNat - 48) * 10 ^ xs.length + m) * (10 ^ ys.length * 10) =
            (x.toNat - 48) * 10 ^ xs.length * 10 ^ ys.length * 10 + m * 10 ^ ys.length * 10 := by
          ring
        have hright : ((x.toNat - 48) * 10 ^ ys.length + k) * (10 ^ xs.length * 10) =
            (x.toNat - 48) * 10 ^ xs.length * 10 ^ ys.length * 10 + k * 10 ^ xs.length * 10 := by
          ring
        rw [hleft, hright]
        simp only [lt_irrefl, false_or, true_and]
        omega
      · have hxy : ¬ x < y := fun h => absurd hgt (Nat.lt_asymm h)
        have hne : x ≠ y := by
          rintro rfl
          exact absurd hgt (lt_irrefl _)
        have := leading_lt (k := m) (show y.toNat - 48 < x.toNat - 48 by omega) hlty hposx
        simp only [hxy, hne, false_and, or_false, false_iff]
        omega

end

def excess (width n : Nat) : Nat := (Nat.toDigits 10 n).length - width

section
variable {width m k : Nat}

theorem zeroPad_toList_length (width n : Nat) :
    (zeroPad width n).toList.length = width + excess width n := by
  rw [zeroPad_toList, List.length_append, List.length_replicate, excess]
  omega

theorem zeroPad_isDigit (width n : Nat) : ∀ c ∈ (zeroPad width n).toList, c.isDigit = true := by
  intro c hc
  rcases zeroPad_chars hc with rfl | hc'
  · exact absurd hc (zeroPad_no_sign width n)
  · exact hc'

theorem zeroPad_ne_nil (width : Nat) (n : Int) : (zeroPad width n).toList ≠ [] := by
  simp only [zeroPad]
  split
  · rw [String.toList_ofList]
    exact List.cons_ne_nil _ _
  · rw [String.toList_ofList]
    exact List.append_ne_nil_of_right_ne_nil _ Nat.toDigits_ne_nil

/-- What is read of a padded number is the number. -/
theorem parseInt_zeroPad {n k : Int} (h : parseInt (zeroPad width n) = some k) : k = n := by
  have hspace : strip (zeroPad width n) = zeroPad width n := by
    refine strip_eq_self fun c hc => ?_
    rcases zeroPad_chars hc with rfl | hc
    · rfl
    · exact isSpace_digit hc
  have hvalue : ∀ w m : Nat, digitsValue 0 0 (zeroPad w m).toList =
      some (m, (zeroPad w m).toList.length) := by
    intro w m
    rw [digitsValue_digits (zeroPad_isDigit w m) 0 0
      (by have := List.length_pos_iff.mpr (zeroPad_ne_nil w m); omega), zeroPad_value, Nat.zero_add]
  simp only [parseInt, hspace] at h
  by_cases hn : n < 0
  · simp only [zeroPad_negative_toList width hn, hvalue] at h
    split at h
    · rw [Option.map_some, Option.some.injEq] at h
      omega
    · cases h
  · obtain ⟨m, rfl⟩ := Int.eq_ofNat_of_zero_le (Int.not_lt.mp hn)
    cases hdigits : (zeroPad width m).toList with
    | nil => exact absurd hdigits (zeroPad_ne_nil width m)
    | cons c cs =>
      have hc := zeroPad_isDigit width m c (hdigits ▸ List.mem_cons_self)
      simp only [hdigits] at h
      split at h
      · next heq => exact absurd ((List.cons.inj heq).1 ▸ hc) (by decide)
      · next heq => exact absurd ((List.cons.inj heq).1 ▸ hc) (by decide)
      · rw [← hdigits, hvalue] at h
        dsimp only at h
        split at h
        · exact (Option.some.inj h).symm
        · cases h

theorem excess_eq_zero (hwidth : 0 < width) (h : m < 10 ^ width) : excess width m = 0 := by
  have hlength := zeroPad_length hwidth h
  rw [zeroPad_toList_length] at hlength
  omega

/-- Padded numbers come in the order of the fractions they write behind `width` digits. -/
theorem zeroPad_lt_iff (width m k : Nat) : zeroPad width m < zeroPad width k ↔
    m * 10 ^ excess width k < k * 10 ^ excess width m ∨
      m * 10 ^ excess width k = k * 10 ^ excess width m ∧ m < k := by
  have hpos : 0 < 10 ^ width := Nat.pow_pos (by omega)
  have hscale : ∀ n e, n * 10 ^ (width + e) = 10 ^ width * (n * 10 ^ e) := by
    intro n e
    rw [pow_add]
    ring
  rw [String.lt_iff_toList_lt, digits_lt_iff (zeroPad_isDigit width m) (zeroPad_isDigit width k),
    digitsNumber, digitsNumber, zeroPad_value, zeroPad_value, zeroPad_toList_length,
    zeroPad_toList_length, hscale, hscale, Nat.mul_lt_mul_left hpos, Nat.mul_right_inj hpos.ne',
    Nat.add_lt_add_iff_left]
  refine or_congr_right (and_congr_right fun heq => ?_)
  -- Of two numbers that write one fraction the longer is the greater.
  constructor
  · intro hlt
    have hpow : 10 ^ excess width m < 10 ^ excess width k := Nat.pow_lt_pow_right (by omega) hlt
    by_contra hle
    have hkm : k ≤ m := Nat.le_of_not_lt hle
    rcases Nat.eq_zero_or_pos m with rfl | hm
    · obtain rfl := Nat.le_zero.mp hkm
      exact absurd hlt (lt_irrefl _)
    · have := Nat.mul_le_mul_right (10 ^ excess width m) hkm
      have := Nat.mul_lt_mul_of_pos_left hpow hm
      omega
  · intro hlt
    by_contra hle
    have hpow : 10 ^ excess width k ≤ 10 ^ excess width m :=
      Nat.pow_le_pow_right (by omega) (Nat.le_of_not_lt hle)
    have hm : 0 < 10 ^ excess width m := Nat.pow_pos (by omega)
    have := Nat.mul_lt_mul_of_lt_of_le hlt hpow hm
    omega

/-- The texts of a number and a greater one come in this order. Behind a sign the greater
number is the one with the smaller digits. -/
def Ascends (width : Nat) (a b : Int) : Prop :=
  if 0 ≤ a then a.natAbs * 10 ^ excess width b.natAbs ≤ b.natAbs * 10 ^ excess width a.natAbs
  else 0 ≤ b ∨ a.natAbs * 10 ^ excess (width - 1) b.natAbs <
    b.natAbs * 10 ^ excess (width - 1) a.natAbs

def KeepsOrder (width : Nat) (a b : Int) : Prop :=
  (a < b → Ascends width a b) ∧ (b < a → Ascends width b a)

theorem zeroPad_lt_of_lt {a b : Int} (h : a < b) :
    zeroPad width a < zeroPad width b ↔ Ascends width a b := by
  rw [Ascends]
  split
  · next ha =>
    obtain ⟨m, rfl⟩ := Int.eq_ofNat_of_zero_le ha
    obtain ⟨k, rfl⟩ := Int.eq_ofNat_of_zero_le (ha.trans h.le)
    rw [zeroPad_lt_iff, Int.natAbs_natCast, Int.natAbs_natCast]
    omega
  · next ha =>
    have hneg : a < 0 := by omega
    rw [String.lt_iff_toList_lt, zeroPad_negative_toList width hneg]
    by_cases hb : 0 ≤ b
    · obtain ⟨k, rfl⟩ := Int.eq_ofNat_of_zero_le hb
      simp only [hb, true_or, iff_true]
      cases hdigits : (zeroPad width k).toList with
      | nil => exact absurd hdigits (zeroPad_ne_nil width k)
      | cons c cs =>
        have hc := isDigit_bounds (zeroPad_isDigit width k c (hdigits ▸ List.mem_cons_self))
        exact List.cons_lt_cons_iff.mpr (.inl (show (45 : Nat) < c.toNat by omega))
    · rw [zeroPad_negative_toList width (by omega), List.cons_lt_cons_iff]
      simp only [lt_irrefl, true_and, false_or, hb, ← String.lt_iff_toList_lt, zeroPad_lt_iff]
      omega

/-- Exactly when padded numbers come in the order of the numbers. -/
theorem keepsOrder_iff {a b : Int} :
    KeepsOrder width a b ↔ (zeroPad width a < zeroPad width b ↔ a < b) := by
  rcases lt_trichotomy a b with h | rfl | h
  · simp only [KeepsOrder, h, h.not_gt, true_implies, false_implies, and_true, iff_true,
      zeroPad_lt_of_lt h]
  · simp only [KeepsOrder, lt_irrefl, false_implies, and_true]
  · have hne : zeroPad width b ≠ zeroPad width a := fun he => h.ne (zeroPad_injective width he)
    simp only [KeepsOrder, h, h.not_gt, true_implies, false_implies, true_and, iff_false, not_lt]
    rw [← zeroPad_lt_of_lt h]
    exact hne.le_iff_lt.symm

theorem keepsOrder_of_fits {a b : Int} (hwidth : 0 < width) (ha : 0 ≤ a ∧ a < 10 ^ width)
    (hb : 0 ≤ b ∧ b < 10 ^ width) : KeepsOrder width a b := by
  obtain ⟨m, rfl⟩ := Int.eq_ofNat_of_zero_le ha.1
  obtain ⟨k, rfl⟩ := Int.eq_ofNat_of_zero_le hb.1
  have hm : excess width m = 0 := excess_eq_zero hwidth (by exact_mod_cast ha.2)
  have hk : excess width k = 0 := excess_eq_zero hwidth (by exact_mod_cast hb.2)
  constructor
  · intro h
    rw [Ascends, if_pos ha.1, Int.natAbs_natCast, Int.natAbs_natCast, hm, hk]
    omega
  · intro h
    rw [Ascends, if_pos hb.1, Int.natAbs_natCast, Int.natAbs_natCast, hm, hk]
    omega

end

end Text

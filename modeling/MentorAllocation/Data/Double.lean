import Mathlib.Data.Int.Log
import Mathlib.Data.Rat.Floor
import Mathlib.Tactic.Linarith

namespace Data

/-- The nearest integer, of two the even one. -/
def roundHalfEven (x : ℚ) : ℤ :=
  let below := ⌊x⌋
  if x - below < 1 / 2 then below
  else if 1 / 2 < x - below then below + 1
  else if below % 2 = 0 then below else below + 1

/-- The power of two that makes an integer of 53 bits of a positive number, or of fewer bits when
the number is too small for that. -/
def doubleScale (q : ℚ) : ℤ := min (52 - Int.log 2 q) 1074

/-- The double nearest to a number of at least 0 and too small to overflow. -/
def nearestDouble (q : ℚ) : ℚ :=
  if q = 0 then 0 else roundHalfEven (q * 2 ^ doubleScale q) / 2 ^ doubleScale q

/-- The double nearest to a number that is not too large for one. -/
def double (q : ℚ) : ℚ := if q < 0 then -nearestDouble (-q) else nearestDouble q

theorem doubleScale_eq {q : ℚ} {s : ℕ} (hlo : 2 ^ 52 ≤ q * 2 ^ s) (hhi : q * 2 ^ s < 2 ^ 53)
    (hs : s ≤ 1074) : doubleScale q = s := by
  have hpos : (0 : ℚ) < 2 ^ s := by positivity
  have hq : 0 < q := by
    by_contra hneg
    have : q * 2 ^ s ≤ 0 := mul_nonpos_of_nonpos_of_nonneg (not_lt.mp hneg) hpos.le
    linarith
  have hlow : (52 - s : ℤ) ≤ Int.log 2 q := by
    rw [← Int.zpow_le_iff_le_log (by norm_num) hq]
    rw [Nat.cast_ofNat, zpow_sub₀ (by norm_num), zpow_natCast, div_le_iff₀ hpos]
    exact_mod_cast hlo
  have hhigh : Int.log 2 q < (53 - s : ℤ) := by
    rw [← Int.lt_zpow_iff_log_lt (by norm_num) hq]
    rw [Nat.cast_ofNat, zpow_sub₀ (by norm_num), zpow_natCast, lt_div_iff₀ hpos]
    exact_mod_cast hhi
  unfold doubleScale
  omega

theorem roundHalfEven_eq {x : ℚ} {n : ℤ} (hlo : n - 1 / 2 < x) (hhi : x < n + 1 / 2) :
    roundHalfEven x = n := by
  unfold roundHalfEven
  by_cases h : (n : ℚ) ≤ x
  · have hfloor : ⌊x⌋ = n := Int.floor_eq_iff.mpr ⟨h, by linarith⟩
    simp only [hfloor]
    rw [if_pos (by linarith)]
  · have hfloor : ⌊x⌋ = n - 1 := by
      refine Int.floor_eq_iff.mpr ⟨?_, ?_⟩ <;> push_cast <;> linarith
    simp only [hfloor]
    push_cast
    rw [if_neg (by linarith), if_pos (by linarith)]
    ring

theorem nearestDouble_eq {q : ℚ} {s : ℕ} {n : ℤ} (hlo : 2 ^ 52 ≤ q * 2 ^ s)
    (hhi : q * 2 ^ s < 2 ^ 53) (hs : s ≤ 1074) (hlow : n - 1 / 2 < q * 2 ^ s)
    (hhigh : q * 2 ^ s < n + 1 / 2) : nearestDouble q = n / 2 ^ s := by
  have hne : ¬ q = 0 := by
    rintro rfl
    norm_num at hlo
  rw [nearestDouble, if_neg hne, doubleScale_eq hlo hhi hs, zpow_natCast,
    roundHalfEven_eq hlow hhigh]

theorem roundHalfEven_int (n : ℤ) : roundHalfEven n = n := by
  refine roundHalfEven_eq ?_ ?_ <;> linarith

theorem floor_le_roundHalfEven (x : ℚ) : ⌊x⌋ ≤ roundHalfEven x := by
  simp only [roundHalfEven]
  split_ifs <;> omega

theorem roundHalfEven_le_floor (x : ℚ) : roundHalfEven x ≤ ⌊x⌋ + 1 := by
  simp only [roundHalfEven]
  split_ifs <;> omega

theorem roundHalfEven_mono {x y : ℚ} (h : x ≤ y) : roundHalfEven x ≤ roundHalfEven y := by
  rcases lt_or_eq_of_le (Int.floor_mono h) with hlt | heq
  · calc roundHalfEven x ≤ ⌊x⌋ + 1 := roundHalfEven_le_floor x
      _ ≤ ⌊y⌋ := hlt
      _ ≤ roundHalfEven y := floor_le_roundHalfEven y
  · simp only [roundHalfEven, ← heq]
    split_ifs <;> first | omega | (exfalso; linarith)

theorem nearestDouble_nonneg {q : ℚ} (h : 0 ≤ q) : 0 ≤ nearestDouble q := by
  rw [nearestDouble]
  split
  · exact le_refl _
  · have hscale : (0 : ℚ) < 2 ^ doubleScale q := zpow_pos (by norm_num) _
    have hround : roundHalfEven 0 ≤ roundHalfEven (q * 2 ^ doubleScale q) :=
      roundHalfEven_mono (mul_nonneg h hscale.le)
    have hzero : roundHalfEven 0 = 0 := by exact_mod_cast roundHalfEven_int 0
    rw [hzero] at hround
    exact div_nonneg (by exact_mod_cast hround) hscale.le

/-- The scale falls as numbers grow. -/
theorem doubleScale_anti {p q : ℚ} (hp : 0 < p) (h : p ≤ q) : doubleScale q ≤ doubleScale p := by
  have hlog := Int.log_mono_right (b := 2) hp h
  unfold doubleScale
  omega

theorem roundHalfEven_power {e s : ℤ} (h : 0 ≤ e + s) :
    (roundHalfEven (2 ^ e * 2 ^ s) : ℚ) = 2 ^ e * 2 ^ s := by
  obtain ⟨n, hn⟩ := Int.eq_ofNat_of_zero_le h
  have hpower : (2 : ℚ) ^ e * 2 ^ s = ((2 ^ n : ℤ) : ℚ) := by
    rw [← zpow_add₀ (by norm_num), hn]
    push_cast
    exact zpow_natCast 2 n
  rw [hpower, roundHalfEven_int]

theorem round_le_power {p : ℚ} {e s : ℤ} (hp : p ≤ 2 ^ e) (h : 0 ≤ e + s) :
    (roundHalfEven (p * 2 ^ s) : ℚ) / 2 ^ s ≤ 2 ^ e := by
  have hpos : (0 : ℚ) < 2 ^ s := zpow_pos (by norm_num) _
  rw [div_le_iff₀ hpos, ← roundHalfEven_power h]
  exact_mod_cast roundHalfEven_mono (mul_le_mul_of_nonneg_right hp hpos.le)

theorem power_le_round {p : ℚ} {e s : ℤ} (hp : 2 ^ e ≤ p) (h : 0 ≤ e + s) :
    2 ^ e ≤ (roundHalfEven (p * 2 ^ s) : ℚ) / 2 ^ s := by
  have hpos : (0 : ℚ) < 2 ^ s := zpow_pos (by norm_num) _
  rw [le_div_iff₀ hpos, ← roundHalfEven_power h]
  exact_mod_cast roundHalfEven_mono (mul_le_mul_of_nonneg_right hp hpos.le)

theorem nearestDouble_mono {p q : ℚ} (hp : 0 ≤ p) (h : p ≤ q) :
    nearestDouble p ≤ nearestDouble q := by
  rcases hp.eq_or_lt with rfl | hp
  · rw [nearestDouble, if_pos rfl]
    exact nearestDouble_nonneg h
  have hq := hp.trans_le h
  rw [nearestDouble, nearestDouble, if_neg hp.ne', if_neg hq.ne']
  rcases (doubleScale_anti hp h).eq_or_lt with hscale | hscale
  · rw [hscale]
    have hpos : (0 : ℚ) < 2 ^ doubleScale p := zpow_pos (by norm_num) _
    refine (div_le_div_iff_of_pos_right hpos).mpr ?_
    exact_mod_cast roundHalfEven_mono (mul_le_mul_of_nonneg_right h hpos.le)
  · -- The power of two at or below `q` is a double at either scale and stands between the two.
    have hlogs : Int.log 2 p < Int.log 2 q ∧ doubleScale q = 52 - Int.log 2 q := by
      unfold doubleScale at hscale ⊢
      omega
    have hlow : p ≤ 2 ^ Int.log 2 q := by
      have := (Int.lt_zpow_iff_log_lt (b := 2) (by norm_num) hp).mpr hlogs.1
      exact_mod_cast this.le
    have hhigh : (2 : ℚ) ^ Int.log 2 q ≤ q := by
      exact_mod_cast Int.zpow_log_le_self (b := 2) (by norm_num) hq
    exact (round_le_power hlow (by omega)).trans (power_le_round hhigh (by omega))

theorem double_mono : Monotone double := by
  intro p q h
  rw [double, double]
  split_ifs with hp hq hq
  · exact neg_le_neg (nearestDouble_mono (by linarith) (by linarith))
  · have := nearestDouble_nonneg (show 0 ≤ -p by linarith)
    have := nearestDouble_nonneg (not_lt.mp hq)
    linarith
  · linarith
  · exact nearestDouble_mono (not_lt.mp hp) h

end Data

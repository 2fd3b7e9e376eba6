import Mathlib

namespace Data
variable {α : Type} {p : α → Bool} {l : List α}

/-- Where a test holds of everything before what passes it, a filter takes the front. -/
theorem takeWhile_eq_filter (h : l.Pairwise fun a b => p b = true → p a = true) :
    l.takeWhile p = l.filter p := by
  induction l with
  | nil => rfl
  | cons a l ih =>
    obtain ⟨ha, hl⟩ := List.pairwise_cons.mp h
    rw [List.takeWhile_cons, List.filter_cons]
    split
    · rw [ih hl]
    · next hfails => exact (List.filter_eq_nil_iff.mpr fun b hb hp => hfails (ha b hb hp)).symm

theorem dropWhile_eq_filter (h : l.Pairwise fun a b => p b = true → p a = true) :
    l.dropWhile p = l.filter fun a => !p a := by
  induction l with
  | nil => rfl
  | cons a l ih =>
    obtain ⟨ha, hl⟩ := List.pairwise_cons.mp h
    rw [List.dropWhile_cons, List.filter_cons]
    split
    · next hp => rw [ih hl, if_neg (by simp [hp])]
    · next hfails =>
      have hrest : l.filter (fun b => !p b) = l := List.filter_eq_self.mpr fun b hb => by
        simpa using fun hp => hfails (ha b hb hp)
      rw [hrest, if_pos (by simpa using hfails)]

/-- None is left that passes the test once the front is gone, and no sooner. -/
theorem drop_fails_iff (h : l.Pairwise fun a b => p b = true → p a = true) (k : Nat) :
    (∀ a ∈ l.drop k, p a = false) ↔ (l.takeWhile p).length ≤ k := by
  induction l generalizing k with
  | nil => simp
  | cons a l ih =>
    obtain ⟨ha, hl⟩ := List.pairwise_cons.mp h
    cases hp : p a with
    | true =>
      rw [List.takeWhile_cons_of_pos hp, List.length_cons]
      cases k with
      | zero => simp [hp]
      | succ k => rw [List.drop_succ_cons, ih hl, Nat.succ_le_succ_iff]
    | false =>
      have hnone : ∀ b ∈ a :: l, p b = false := by
        refine List.forall_mem_cons.mpr ⟨hp, fun b hb => ?_⟩
        by_contra hpass
        have := ha b hb (by simpa using hpass)
        rw [hp] at this
        cases this
      rw [List.takeWhile_cons_of_neg (by simp [hp])]
      exact iff_of_true (fun b hb => hnone b (List.mem_of_mem_drop hb)) (Nat.zero_le k)

/-- The longer of two fronts has the elements of both. -/
theorem mem_take_max {a : α} {i j : Nat} :
    a ∈ l.take (max i j) ↔ a ∈ l.take i ∨ a ∈ l.take j := by
  have hsub : ∀ {i j : Nat}, i ≤ j → a ∈ l.take i → a ∈ l.take j := fun hle =>
    fun hmem => List.take_subset_take_left l hle hmem
  rcases le_total i j with hle | hle
  · rw [max_eq_right hle, or_iff_right_of_imp (hsub hle)]
  · rw [max_eq_left hle, or_iff_left_of_imp (hsub hle)]

/-- The first `k` of a list in strictly falling order of a key are those that fewer than `k`
others come before. -/
theorem mem_take_iff_countP {κ : Type} [LinearOrder κ] {key : α → κ} {a : α} {k : Nat}
    (h : l.Pairwise fun a b => key b < key a) (ha : a ∈ l) :
    a ∈ l.take k ↔ l.countP (fun b => key a < key b) < k := by
  induction l generalizing k with
  | nil => cases ha
  | cons b l ih =>
    obtain ⟨hb, hl⟩ := List.pairwise_cons.mp h
    cases k with
    | zero => simp
    | succ k =>
      rw [List.take_succ_cons, List.mem_cons, List.countP_cons]
      rcases List.mem_cons.mp ha with rfl | hmem
      · have hnone : l.countP (fun c => key a < key c) = 0 := by
          refine List.countP_eq_zero.mpr fun c hc => ?_
          simpa using (hb c hc).le
        simp [hnone]
      · have hne : a ≠ b := fun he => absurd (hb a hmem) (he ▸ lt_irrefl _)
        rw [ih hl hmem, if_pos (decide_eq_true (hb a hmem))]
        simp [hne]

end Data

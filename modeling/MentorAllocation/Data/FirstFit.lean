import Mathlib

namespace Data
variable {α : Type} {size : α → Nat} {eligible K K' : α → Bool} {budget : Int} {used : Nat}
  {l : List α}

def chosenSize (size : α → Nat) (K : α → Bool) (l : List α) : Nat := ((l.filter K).map size).sum

theorem chosenSize_cons (a : α) (l : List α) :
    chosenSize size K (a :: l) = (if K a then size a else 0) + chosenSize size K l := by
  cases h : K a <;> simp [chosenSize, h]

theorem chosenSize_append (l m : List α) :
    chosenSize size K (l ++ m) = chosenSize size K l + chosenSize size K m := by
  simp [chosenSize]

theorem chosenSize_perm {m : List α} (h : l.Perm m) :
    chosenSize size K l = chosenSize size K m := ((h.filter K).map size).sum_nat

theorem chosenSize_congr (h : ∀ a ∈ l, K a = K' a) :
    chosenSize size K l = chosenSize size K' l := by
  rw [chosenSize, chosenSize, List.filter_congr h]

theorem chosenSize_none (h : ∀ a ∈ l, K a = false) : chosenSize size K l = 0 := by
  rw [chosenSize, List.filter_eq_nil_iff.mpr fun a ha => by simp [h a ha]]
  rfl

/-- `K` chooses, one after the other, the eligible items that the budget still has room for. -/
def FirstFit (size : α → Nat) (eligible K : α → Bool) (budget : Int) : Nat → List α → Prop
  | _, [] => True
  | used, a :: l => (K a = true ↔ eligible a = true ∧ ((used + size a : Nat) : Int) ≤ budget) ∧
      FirstFit size eligible K budget (used + if K a then size a else 0) l

theorem FirstFit.congr (h : FirstFit size eligible K budget used l)
    (hsame : ∀ a ∈ l, K a = K' a) : FirstFit size eligible K' budget used l := by
  induction l generalizing used with
  | nil => trivial
  | cons a l ih =>
    obtain ⟨ha, hl⟩ := List.forall_mem_cons.mp hsame
    rw [FirstFit, ha] at h
    exact ⟨h.1, ih h.2 hl⟩

/-- There always is such a choice. -/
theorem exists_firstFit [DecidableEq α] (size : α → Nat) (eligible : α → Bool) (budget : Int)
    (used : Nat) (hl : l.Nodup) : ∃ K, FirstFit size eligible K budget used l := by
  induction l generalizing used with
  | nil => exact ⟨eligible, trivial⟩
  | cons a l ih =>
    obtain ⟨ha, hl⟩ := List.nodup_cons.mp hl
    obtain ⟨chosen, hchosen⟩ : ∃ chosen : Bool, chosen = true ↔
        eligible a = true ∧ ((used + size a : Nat) : Int) ≤ budget :=
      ⟨eligible a && decide (((used + size a : Nat) : Int) ≤ budget), by simp⟩
    obtain ⟨K, hK⟩ := ih (used + if chosen then size a else 0) hl
    refine ⟨Function.update K a chosen, ?_⟩
    rw [FirstFit, Function.update_self]
    refine ⟨hchosen, hK.congr fun b hb => ?_⟩
    have hne : b ≠ a := by
      rintro rfl
      exact ha hb
    rw [Function.update_of_ne hne]

/-- The choice at one item is made beside what was chosen before it. -/
theorem firstFit_iff : FirstFit size eligible K budget used l ↔
    ∀ before a after, l = before ++ a :: after → (K a = true ↔ eligible a = true ∧
      ((used + chosenSize size K before + size a : Nat) : Int) ≤ budget) := by
  induction l generalizing used with
  | nil => simp [FirstFit]
  | cons a l ih =>
    rw [FirstFit, ih]
    constructor
    · rintro ⟨ha, hl⟩ before b after hsplit
      cases before with
      | nil =>
        obtain ⟨rfl, rfl⟩ := List.cons.inj hsplit
        exact ha
      | cons c before =>
        obtain ⟨rfl, htail⟩ := List.cons.inj hsplit
        rw [chosenSize_cons, ← Nat.add_assoc]
        exact hl before b after htail
    · intro h
      refine ⟨h [] a l rfl, fun before b after hsplit => ?_⟩
      have hb := h (a :: before) b after (by rw [hsplit]; rfl)
      rwa [chosenSize_cons, ← Nat.add_assoc] at hb

/-- The budget is kept to. -/
theorem FirstFit.within (h : FirstFit size eligible K budget used l) (hused : used ≤ budget) :
    ((used + chosenSize size K l : Nat) : Int) ≤ budget := by
  induction l generalizing used with
  | nil => simpa [chosenSize] using hused
  | cons a l ih =>
    rw [chosenSize_cons, ← Nat.add_assoc]
    apply ih h.2
    cases ha : K a with
    | false => simpa using hused
    | true => exact (h.1.mp ha).2

end Data

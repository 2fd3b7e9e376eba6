import Mathlib.Logic.Function.Basic
import Mathlib.Data.List.Basic

namespace Data

/-- Where the elements of some form stand in a list, from its head on. -/
theorem splits_cons {α β : Type} {mk : β → α} {P : List α → β → List α → Prop} {a : α}
    {l : List α} : (∀ before b rest, a :: l = before ++ mk b :: rest → P before b rest) ↔
      (∀ b, a = mk b → P [] b l) ∧
        ∀ before b rest, l = before ++ mk b :: rest → P (a :: before) b rest := by
  constructor
  · intro h
    exact ⟨fun b hb => h [] b l (by rw [hb]; rfl),
      fun before b rest hl => h (a :: before) b rest (by rw [hl]; rfl)⟩
  · rintro ⟨hhead, htail⟩ before b rest he
    cases before with
    | nil =>
      obtain ⟨rfl, rfl⟩ := List.cons.inj he
      exact hhead b rfl
    | cons x before =>
      obtain ⟨rfl, rfl⟩ := List.cons.inj he
      exact htail before b rest rfl

/-- What becomes of the last numbers that are given out under keys: the next number of a key
is taken, a number is seen to be in use, or nothing happens. -/
inductive Use (κ : Type) where
  | take (key : κ)
  | seen (key : κ) (n : Int)
  | pass
  deriving DecidableEq

namespace Use
variable {κ : Type} [DecidableEq κ] {last : κ → Int} {key : κ} {uses more : List (Use κ)} {N : Int}

def next (last : κ → Int) : Use κ → κ → Int
  | take key => Function.update last key (last key + 1)
  | seen key n => Function.update last key (max (last key) n)
  | pass => last

def after (last : κ → Int) (uses : List (Use κ)) : κ → Int := uses.foldl next last

/-- Every number that is taken is from one to `N`. -/
def Fit (N : Int) : (κ → Int) → List (Use κ) → Prop
  | _, [] => True
  | last, use :: uses =>
    (∀ key, use = take key → 1 ≤ last key + 1 ∧ last key + 1 ≤ N) ∧ Fit N (next last use) uses

theorem fit_append :
    Fit N last (uses ++ more) ↔ Fit N last uses ∧ Fit N (after last uses) more := by
  induction uses generalizing last with
  | nil => exact (and_iff_right trivial).symm
  | cons use uses ih =>
    rw [List.cons_append, Fit, ih, Fit, and_assoc]
    rfl

/-- The last number of a key grows with each take, from where it was or was last seen. -/
theorem after_le {M : Int} : after last uses key ≤ M ↔ last key + uses.count (take key) ≤ M ∧
    ∀ before n rest, uses = before ++ seen key n :: rest → n + rest.count (take key) ≤ M := by
  induction uses generalizing last with
  | nil => simp [after]
  | cons use uses ih =>
    rw [splits_cons (P := fun _ n rest => n + (rest.count (take key) : Int) ≤ M)]
    have hcons : after last (use :: uses) = after (next last use) uses := rfl
    rw [hcons, ih, List.count_cons]
    cases use with
    | take other =>
      by_cases hkey : other = key
      · subst hkey
        simp [next, Int.add_assoc, Int.add_comm 1]
      · simp [next, Function.update_of_ne (Ne.symm hkey), hkey]
    | seen other n =>
      by_cases hkey : other = key
      · subst hkey
        simp only [next, Function.update_self, seen.injEq, true_and, forall_eq', reduceCtorEq,
          beq_iff_eq, if_false, Nat.add_zero]
        rw [← and_assoc]
        refine and_congr_left fun _ => ?_
        omega
      · simp [next, Function.update_of_ne (Ne.symm hkey), hkey]
    | pass => simp [next]

/-- A key's last number is not negative when it was not so before or was seen since. -/
theorem le_after (hseen : ∀ n, seen key n ∈ uses → 0 ≤ n) : 0 ≤ after last uses key ↔
    0 ≤ last key + uses.count (take key) ∨ ∃ n, seen key n ∈ uses := by
  induction uses generalizing last with
  | nil => simp [after]
  | cons use uses ih =>
    have hcons : after last (use :: uses) = after (next last use) uses := rfl
    rw [hcons, ih fun n hn => hseen n (List.mem_cons_of_mem _ hn), List.count_cons]
    cases use with
    | take other =>
      by_cases hkey : other = key
      · subst hkey
        simp [next, Int.add_assoc, Int.add_comm 1]
      · simp [next, Function.update_of_ne (Ne.symm hkey), hkey]
    | seen other n =>
      by_cases hkey : other = key
      · subst hkey
        have hn := hseen n List.mem_cons_self
        refine iff_of_true (.inl ?_) (.inr ⟨n, List.mem_cons_self⟩)
        simp only [next, Function.update_self]
        omega
      · simp [next, Ne.symm hkey]
    | pass => simp [next]

/-- A run of uses fits when each take finds a number in the range. -/
theorem fit_iff : Fit N last uses ↔ ∀ before key rest, uses = before ++ take key :: rest →
    1 ≤ after last before key + 1 ∧ after last before key + 1 ≤ N := by
  induction uses generalizing last with
  | nil => simp [Fit]
  | cons use uses ih =>
    rw [Fit, ih, splits_cons (P := fun before key _ =>
      1 ≤ after last before key + 1 ∧ after last before key + 1 ≤ N)]
    rfl

end Use

end Data

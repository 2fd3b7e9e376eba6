import Mathlib

namespace Data
variable {α : Type} {size : α → Nat} {limit total : Int} {l front rest : List α} {a : α}

def totalSize (size : α → Nat) (l : List α) : Nat := (l.map size).sum

theorem totalSize_cons (a : α) (l : List α) :
    totalSize size (a :: l) = size a + totalSize size l := List.sum_cons

theorem totalSize_append (l m : List α) :
    totalSize size (l ++ m) = totalSize size l + totalSize size m := by
  rw [totalSize, List.map_append, List.sum_append, totalSize, totalSize]

theorem totalSize_perm {m : List α} (h : l.Perm m) : totalSize size l = totalSize size m :=
  (h.map size).sum_nat

/-- What a filter takes and leaves together. -/
theorem totalSize_filter (p : α → Bool) (l : List α) :
    totalSize size (l.filter p) + totalSize size (l.filter fun a => !p a) = totalSize size l := by
  rw [← totalSize_append]
  exact totalSize_perm (List.filter_append_perm p l)

/-- Elements taken out by a key that tells them apart leave the others. -/
theorem perm_of_removed {β : Type} [BEq β] [LawfulBEq β] {key : α → β} {all gone kept : List α}
    (h : all.Perm (gone ++ kept)) (hnodup : (all.map key).Nodup) :
    (all.filter fun a => decide (key a ∉ gone.map key)).Perm kept := by
  have hparts := (h.map key).nodup hnodup
  rw [List.map_append, List.nodup_append] at hparts
  refine (h.filter _).trans ?_
  rw [List.filter_append, List.filter_eq_nil_iff.mpr, List.filter_eq_self.mpr, List.nil_append]
  · intro a ha
    exact decide_eq_true fun hgone => hparts.2.2 _ hgone _ (List.mem_map_of_mem ha) rfl
  · intro a ha
    simpa using ⟨a, ha, rfl⟩

/-- The elements of a list that are given up, one after the other, while the total is over
the limit. -/
def shed (size : α → Nat) (limit : Int) : Int → List α → List α
  | _, [] => []
  | total, a :: l => if total ≤ limit then [] else a :: shed size limit (total - size a) l

theorem shed_of_le (h : total ≤ limit) (l : List α) : shed size limit total l = [] := by
  cases l with
  | nil => rfl
  | cons a l => rw [shed, if_pos h]

/-- What is given up stands first, and if anything is left, the limit is kept. -/
theorem shed_spec (size : α → Nat) (limit total : Int) (l : List α) :
    ∃ rest, l = shed size limit total l ++ rest ∧
      (rest ≠ [] → total - totalSize size (shed size limit total l) ≤ limit) := by
  induction l generalizing total with
  | nil => exact ⟨[], rfl, fun h => absurd rfl h⟩
  | cons a l ih =>
    rw [shed]
    split
    · next hle => exact ⟨a :: l, rfl, fun _ => by simpa [totalSize] using hle⟩
    · obtain ⟨rest, hl, hrest⟩ := ih (total - size a)
      refine ⟨rest, by rw [List.cons_append, ← hl], fun hne => ?_⟩
      have := hrest hne
      rw [totalSize_cons]
      push_cast
      omega

/-- Each element that is given up had to be: what was kept until then was over the limit. -/
theorem shed_needed (h : shed size limit total l = front ++ a :: rest) :
    limit < total - totalSize size front := by
  induction l generalizing total front with
  | nil => simp [shed] at h
  | cons b l ih =>
    rw [shed] at h
    split at h
    · simp at h
    · next hover =>
      cases front with
      | nil => simpa [totalSize] using hover
      | cons c front =>
        rw [List.cons_append, List.cons.injEq] at h
        obtain ⟨rfl, h⟩ := h
        have := ih h
        rw [totalSize_cons]
        push_cast
        omega

/-- Giving up a front is enough from the front that is given up on. -/
theorem shed_enough_iff (size : α → Nat) (limit total : Int) (l : List α) (k : Nat) :
    (total - totalSize size (l.take k) ≤ limit ∨ l.drop k = []) ↔
      (shed size limit total l).length ≤ k := by
  induction l generalizing total k with
  | nil => simp [shed]
  | cons a l ih =>
    rw [shed]
    split
    · next hle =>
      refine iff_of_true (.inl ?_) (Nat.zero_le k)
      omega
    · next hover =>
      cases k with
      | zero => simpa [totalSize] using hover
      | succ k =>
        rw [List.take_succ_cons, totalSize_cons, List.drop_succ_cons, List.length_cons,
          Nat.succ_le_succ_iff, ← ih (total - size a) k]
        push_cast
        rw [Int.sub_sub]

end Data

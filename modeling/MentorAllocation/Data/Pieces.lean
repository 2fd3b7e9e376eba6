import Mathlib.Data.List.Basic

namespace Data
variable {α : Type}

/-- A list falls into one piece more than it has separators. -/
theorem length_splitOn [BEq α] (a : α) (l : List α) :
    (l.splitOn a).length = l.count a + 1 := by
  induction l with
  | nil => rfl
  | cons b l ih =>
    rw [List.splitOn_cons_eq_if_modifyHead, List.count_cons]
    split
    · rw [List.length_cons, ih]
    · rw [List.length_modifyHead, ih]

/-- `last` is what follows the last separator of `l`. -/
structure LastPiece (a : α) (l last : List α) : Prop where
  closed : ∃ before, l = before ++ last ∧ (before = [] ∨ before.getLast? = some a)
  separator_free : a ∉ last

namespace LastPiece
variable {a : α} {l last more final : List α}

theorem whole (h : a ∉ l) : LastPiece a l l := ⟨⟨[], rfl, .inl rfl⟩, h⟩

theorem prepend (h : LastPiece a l last) (before : List α) :
    LastPiece a (before ++ a :: l) last := by
  obtain ⟨middle, rfl, hmiddle⟩ := h.closed
  refine ⟨⟨before ++ a :: middle, by simp, .inr ?_⟩, h.separator_free⟩
  rcases hmiddle with rfl | hmiddle
  · simp
  · rw [List.getLast?_append, List.getLast?_cons, hmiddle]
    rfl

/-- A list goes on from its last piece. -/
theorem append (h : LastPiece a l last) (hmore : LastPiece a (last ++ more) final) :
    LastPiece a (l ++ more) final := by
  obtain ⟨before, rfl, hbefore⟩ := h.closed
  obtain ⟨middle, hmiddle, hclosed⟩ := hmore.closed
  refine ⟨⟨before ++ middle, ?_, ?_⟩, hmore.separator_free⟩
  · rw [List.append_assoc, hmiddle, List.append_assoc]
  · rcases hclosed with rfl | hclosed
    · rwa [List.append_nil]
    · exact .inr (by rw [List.getLast?_append, hclosed, Option.some_or])

/-- The last piece is empty where the list is or ends in a separator. -/
theorem eq_nil_iff (h : LastPiece a l last) : last = [] ↔ l = [] ∨ l.getLast? = some a := by
  obtain ⟨before, rfl, hbefore⟩ := h.closed
  constructor
  · rintro rfl
    rwa [List.append_nil]
  · rintro (hnil | hlast)
    · exact (List.append_eq_nil_iff.mp hnil).2
    · rw [List.getLast?_append] at hlast
      cases hend : last.getLast? with
      | none => exact List.getLast?_eq_none_iff.mp hend
      | some b =>
        rw [hend, Option.some_or, Option.some_inj] at hlast
        exact absurd (List.mem_of_getLast? hend) (hlast ▸ h.separator_free)

/-- The last of the pieces at a separator. -/
theorem splitOn [BEq α] [LawfulBEq α] (a : α) (l : List α) :
    LastPiece a l ((l.splitOn a).getLastD []) := by
  induction hn : l.length using Nat.strongRecOn generalizing l with
  | ind n ih =>
    by_cases ha : a ∈ l
    · obtain ⟨before, after, rfl⟩ := List.append_of_mem ha
      have hafter := ih after.length (by rw [← hn, List.length_append, List.length_cons]; omega)
        after rfl
      rw [List.splitOn_append_cons_of_beq before after (BEq.rfl), List.getLastD_eq_getLast?,
        List.getLast?_append_of_ne_nil _ (List.splitOn_ne_nil a after),
        ← List.getLastD_eq_getLast?]
      exact hafter.prepend before
    · rw [List.splitOn_eq_singleton ha]
      exact whole ha

theorem getLast?_splitOn [BEq α] [LawfulBEq α] (h : LastPiece a l last) :
    (l.splitOn a).getLast? = some last := by
  have hlast := List.splitOn_eq_singleton h.separator_free
  obtain ⟨before, rfl, rfl | hbefore⟩ := h.closed
  · rw [List.nil_append, hlast, List.getLast?_singleton]
  · obtain ⟨init, rfl⟩ := List.getLast?_eq_some_iff.mp hbefore
    rw [← List.append_cons, List.splitOn_append_cons_self, hlast, List.getLast?_concat]

theorem unique [BEq α] [LawfulBEq α] {other : List α} (h : LastPiece a l last)
    (hother : LastPiece a l other) : last = other :=
  Option.some.inj (h.getLast?_splitOn.symm.trans hother.getLast?_splitOn)

theorem mem_splitOn [BEq α] [LawfulBEq α] (h : LastPiece a l last) : last ∈ l.splitOn a :=
  List.mem_of_getLast? h.getLast?_splitOn

end LastPiece

/-- A piece stands between separators or the ends. -/
theorem exists_of_mem_splitOn [BEq α] [LawfulBEq α] {a : α} {l piece : List α}
    (h : piece ∈ l.splitOn a) :
    ∃ before after, l = before ++ piece ++ after ∧ (before = [] ∨ before.getLast? = some a) ∧
      (after = [] ∨ after.head? = some a) := by
  induction hn : l.length using Nat.strongRecOn generalizing l with
  | ind n ih =>
    by_cases ha : a ∈ l
    · obtain ⟨first, rest, rfl, hfirst⟩ := List.eq_append_cons_of_mem ha
      rw [List.splitOn_append_cons_self_of_not_mem hfirst, List.mem_cons] at h
      rcases h with rfl | h
      · exact ⟨[], a :: rest, rfl, .inl rfl, .inr rfl⟩
      · obtain ⟨before, after, rfl, hbefore, hafter⟩ :=
          ih rest.length (by rw [← hn, List.length_append, List.length_cons]; omega) h rfl
        refine ⟨first ++ a :: before, after, by simp, .inr ?_, hafter⟩
        rcases hbefore with rfl | hbefore
        · simp
        · rw [List.getLast?_append, List.getLast?_cons, hbefore]
          rfl
    · rw [List.splitOn_eq_singleton ha, List.mem_singleton] at h
      exact ⟨[], [], by simp [h], .inl rfl, .inl rfl⟩

end Data

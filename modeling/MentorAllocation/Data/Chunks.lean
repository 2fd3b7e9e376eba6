import Mathlib.Data.List.Basic

namespace Data

/-- A list in parts of `size` elements, the last one shorter when they do not come out even. -/
def chunks {α : Type} (size : Nat) (l : List α) : List (List α) :=
  (List.range ((l.length + size - 1) / size)).map fun k => (l.drop (k * size)).take size

section
variable {α : Type} {size : Nat} {l chunk : List α}

theorem length_chunks (size : Nat) (l : List α) :
    (chunks size l).length = (l.length + size - 1) / size := by
  rw [chunks, List.length_map, List.length_range]

theorem lt_length_chunks (hsize : 1 ≤ size) {i : Nat} :
    i < (chunks size l).length ↔ i * size < l.length := by
  rw [length_chunks, ← Nat.succ_le_iff, Nat.le_div_iff_mul_le hsize, Nat.succ_mul]
  omega

theorem getElem?_chunks (hsize : 1 ≤ size) (l : List α) (i : Nat) :
    (chunks size l)[i]? =
      if i * size < l.length then some ((l.drop (i * size)).take size) else none := by
  have hlength := lt_length_chunks (l := l) hsize (i := i)
  rw [length_chunks] at hlength
  rw [chunks, List.getElem?_map]
  split
  · next hi => rw [List.getElem?_range (hlength.mpr hi), Option.map_some]
  · next hi =>
    rw [List.getElem?_eq_none (by rw [List.length_range]; omega), Option.map_none]

/-- There are no more than `k` parts exactly when the elements fit into `k` of them. -/
theorem length_chunks_le (hsize : 1 ≤ size) {k : Nat} :
    (chunks size l).length ≤ k ↔ l.length ≤ k * size := by
  rw [← Nat.not_lt, lt_length_chunks hsize, Nat.not_lt]

theorem chunks_eq (hsize : 1 ≤ size) (l : List α) :
    chunks size l = if l.isEmpty then [] else l.take size :: chunks size (l.drop size) := by
  refine List.ext_getElem? fun i => ?_
  rw [getElem?_chunks hsize]
  cases l with
  | nil => simp
  | cons a l =>
    have hne : ¬ (a :: l).isEmpty = true := by simp
    rw [if_neg hne]
    cases i with
    | zero => simp
    | succ i =>
      have hstep : (i + 1) * size = size + i * size := by
        rw [Nat.add_mul, Nat.one_mul, Nat.add_comm]
      rw [List.getElem?_cons_succ, getElem?_chunks hsize, List.length_drop, List.drop_drop, hstep]
      exact if_congr (by omega) rfl rfl

theorem chunks_flatten (hsize : 1 ≤ size) (l : List α) : (chunks size l).flatten = l := by
  induction hn : l.length using Nat.strongRecOn generalizing l with
  | ind n ih =>
    rw [chunks_eq hsize]
    cases l with
    | nil => rfl
    | cons a l =>
      have hshorter : ((a :: l).drop size).length < n := by
        rw [List.length_drop, ← hn]
        exact Nat.sub_lt (Nat.succ_pos _) hsize
      have hne : ¬ (a :: l).isEmpty = true := by simp
      rw [if_neg hne, List.flatten_cons, ih _ hshorter _ rfl, List.take_append_drop]

/-- Every part but the last is full. -/
theorem chunks_full (hsize : 1 ≤ size) (h : chunk ∈ (chunks size l).dropLast) :
    chunk.length = size := by
  obtain ⟨i, hi, rfl⟩ := List.mem_iff_getElem.mp h
  rw [List.length_dropLast] at hi
  have hnext : (i + 1) * size < l.length := (lt_length_chunks hsize).mp (by omega)
  rw [Nat.add_mul, Nat.one_mul] at hnext
  have hchunk := getElem?_chunks hsize l i
  rw [if_pos (by omega), List.getElem?_eq_getElem (by omega)] at hchunk
  rw [List.getElem_dropLast, Option.some.inj hchunk, List.length_take, List.length_drop]
  omega

end

end Data

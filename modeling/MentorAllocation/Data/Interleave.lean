import Mathlib.Data.List.Basic
import Mathlib.Data.List.GetD
import Mathlib.Data.List.Nodup
import Mathlib.Data.Prod.Lex
import Mathlib.Logic.Function.Basic

namespace Data
variable {α ι : Type}

theorem flatMap_sublist {f g : ι → List α} (h : ∀ i, (f i).Sublist (g i)) (l : List ι) :
    (l.flatMap f).Sublist (l.flatMap g) := by
  induction l with
  | nil => simp
  | cons i l ih => simpa [List.flatMap_cons] using (h i).append ih

theorem flatMap_update [DecidableEq ι] {l : List ι} (hl : l.Nodup) {i : ι} (hi : i ∈ l)
    (f : ι → List α) (a : α) :
    (l.flatMap (Function.update f i (f i ++ [a]))).Perm (l.flatMap f ++ [a]) := by
  have hrest : (l.erase i).flatMap (Function.update f i (f i ++ [a])) = (l.erase i).flatMap f := by
    refine List.flatMap_congr fun j hj => ?_
    have hne : j ≠ i := fun he => hl.not_mem_erase (he ▸ hj)
    exact Function.update_of_ne hne _ _
  have hnew := (List.perm_cons_erase hi).flatMap_right (Function.update f i (f i ++ [a]))
  have hold := (List.perm_cons_erase hi).flatMap_right f
  rw [List.flatMap_cons, Function.update_self, hrest] at hnew
  rw [List.flatMap_cons] at hold
  refine hnew.trans (List.Perm.trans ?_ (hold.symm.append_right [a]))
  rw [List.append_assoc, List.append_assoc]
  exact List.perm_append_comm.append_left _

def bucket (buckets : List (List α)) (i : Nat) : List α := buckets.getD i []

theorem flatMap_bucket (buckets : List (List α)) :
    (List.range buckets.length).flatMap (bucket buckets) = buckets.flatten := by
  rw [List.flatMap_def]
  congr 1
  refine List.ext_getElem (by simp) fun i h _ => ?_
  have hi : i < buckets.length := by simpa using h
  rw [List.getElem_map, List.getElem_range, bucket, List.getD_eq_getElem _ _ hi]

/-- Taking turns among buckets: how far each is emptied, what was taken from them, and whose turn
it is. -/
structure Interleaving (buckets : List (List α)) where
  positions : Nat → Nat
  taken : List α
  idx : Nat
  idx_lt : idx < buckets.length
  reached : taken.Perm ((List.range buckets.length).flatMap fun i =>
    (bucket buckets i).take (positions i))

namespace Interleaving
variable {buckets : List (List α)} (s : Interleaving buckets)

def start (h : 0 < buckets.length) : Interleaving buckets where
  positions _ := 0
  taken := []
  idx := 0
  idx_lt := h
  reached := by simp

def isOpen (i : Nat) : Bool := s.positions i < (bucket buckets i).length

theorem next_lt (s : Interleaving buckets) (i : Nat) : (i + 1) % buckets.length < buckets.length :=
  Nat.mod_lt _ (Nat.zero_lt_of_lt s.idx_lt)

/-- Whoever's turn it is gives one, if it has one left. -/
def turn : Interleaving buckets :=
  if h : s.positions s.idx < (bucket buckets s.idx).length then
    { positions := Function.update s.positions s.idx (s.positions s.idx + 1)
      taken := s.taken ++ [(bucket buckets s.idx)[s.positions s.idx]]
      idx := (s.idx + 1) % buckets.length
      idx_lt := s.next_lt s.idx
      reached := by
        have hupdate := flatMap_update List.nodup_range (List.mem_range.mpr s.idx_lt)
          (fun i => (bucket buckets i).take (s.positions i))
          (bucket buckets s.idx)[s.positions s.idx]
        refine (s.reached.append_right _).trans (hupdate.symm.trans (List.Perm.of_eq ?_))
        congr 1
        funext i
        by_cases hi : i = s.idx
        · subst hi
          simp
        · simp [Function.update_of_ne hi] }
  else { s with idx := (s.idx + 1) % buckets.length, idx_lt := s.next_lt s.idx }

def distance : Nat :=
  (List.range buckets.length).findIdx fun k => s.isOpen ((s.idx + k) % buckets.length)

theorem exists_open (h : s.taken.length < buckets.flatten.length) :
    ∃ i < buckets.length, s.isOpen i = true := by
  by_contra hnone
  have hall : (List.range buckets.length).flatMap (fun i =>
      (bucket buckets i).take (s.positions i)) = buckets.flatten := by
    rw [← flatMap_bucket]
    refine List.flatMap_congr fun i hi => ?_
    refine List.take_of_length_le (Nat.le_of_not_lt fun hlt => hnone ⟨i, List.mem_range.mp hi, ?_⟩)
    rw [isOpen, decide_eq_true hlt]
  rw [s.reached.length_eq, hall] at h
  exact lt_irrefl _ h

theorem findIdx_range_le {p : Nat → Bool} {n k : Nat} (h : p k = true) :
    (List.range n).findIdx p ≤ k := by
  refine Nat.le_of_not_lt fun hlt => ?_
  have hclosed := List.not_of_lt_findIdx hlt
  rw [List.getElem_range, h] at hclosed
  cases hclosed

theorem distance_lt (h : s.taken.length < buckets.flatten.length) :
    s.distance < buckets.length := by
  obtain ⟨i, hi, hopen⟩ := s.exists_open h
  have hidx := s.idx_lt
  have hback : (s.idx + (i + buckets.length - s.idx) % buckets.length) % buckets.length = i := by
    rw [Nat.add_mod_mod, show s.idx + (i + buckets.length - s.idx) = i + buckets.length by omega,
      Nat.add_mod_right, Nat.mod_eq_of_lt hi]
  have hlt : (i + buckets.length - s.idx) % buckets.length < buckets.length :=
    Nat.mod_lt _ (Nat.zero_lt_of_lt hi)
  exact (findIdx_range_le (by rw [hback, hopen])).trans_lt hlt

theorem isOpen_distance (h : s.taken.length < buckets.flatten.length) :
    s.isOpen ((s.idx + s.distance) % buckets.length) = true := by
  have hlt : (List.range buckets.length).findIdx
      (fun k => s.isOpen ((s.idx + k) % buckets.length)) < (List.range buckets.length).length := by
    rw [List.length_range]
    exact s.distance_lt h
  have hfound := List.findIdx_getElem (w := hlt)
  rwa [List.getElem_range] at hfound

theorem turn_open (h : s.isOpen s.idx = true) : s.turn.taken.length = s.taken.length + 1 := by
  rw [turn, dif_pos (of_decide_eq_true h), List.length_append, List.length_singleton]

theorem turn_closed (h : s.isOpen s.idx = false) : s.turn =
    { s with idx := (s.idx + 1) % buckets.length, idx_lt := s.next_lt s.idx } := by
  rw [turn, dif_neg (of_decide_eq_false h)]

/-- A turn that gives nothing brings the next one that does closer. -/
theorem distance_turn (h : s.taken.length < buckets.flatten.length)
    (hclosed : s.isOpen s.idx = false) : s.turn.distance < s.distance := by
  have hlt := s.distance_lt h
  have hopen := s.isOpen_distance h
  have hpos : s.distance ≠ 0 := by
    intro hzero
    rw [hzero, Nat.add_zero, Nat.mod_eq_of_lt s.idx_lt, hclosed] at hopen
    cases hopen
  rw [s.turn_closed hclosed]
  have hnext : ((s.idx + 1) % buckets.length + (s.distance - 1)) % buckets.length =
      (s.idx + s.distance) % buckets.length := by
    rw [Nat.mod_add_mod]
    congr 1
    omega
  refine (findIdx_range_le (k := s.distance - 1) ?_).trans_lt (by omega)
  exact (congrArg s.isOpen hnext).trans hopen

def run (s : Interleaving buckets) : List α :=
  if s.taken.length < buckets.flatten.length then run s.turn else s.taken
termination_by (buckets.flatten.length - s.taken.length, s.distance)
decreasing_by
  rename_i h
  cases hopen : s.isOpen s.idx with
  | true =>
    refine Prod.Lex.left _ _ ?_
    rw [s.turn_open hopen]
    omega
  | false =>
    rw [s.turn_closed hopen]
    refine Prod.Lex.right _ ?_
    rw [← s.turn_closed hopen]
    exact s.distance_turn h hopen

theorem run_perm (s : Interleaving buckets) : s.run.Perm buckets.flatten := by
  induction s using run.induct with
  | case1 s h ih =>
    rw [run, if_pos h]
    exact ih
  | case2 s h =>
    rw [run, if_neg h]
    have hpart : ((List.range buckets.length).flatMap fun i =>
        (bucket buckets i).take (s.positions i)).Sublist buckets.flatten := by
      rw [← flatMap_bucket]
      exact flatMap_sublist (fun i => List.take_sublist _ _) _
    have hall := hpart.eq_of_length_le (by rw [← s.reached.length_eq]; omega)
    rw [← hall]
    exact s.reached

end Interleaving

/-- The elements of the buckets, taken from each in turn. -/
def interleave (buckets : List (List α)) : List α :=
  if h : 0 < buckets.length then (Interleaving.start h).run else []

theorem interleave_perm (buckets : List (List α)) : (interleave buckets).Perm buckets.flatten := by
  unfold interleave
  split
  · exact Interleaving.run_perm _
  · rename_i h
    rw [List.length_eq_zero_iff.mp (Nat.eq_zero_of_not_pos h), List.flatten_nil]

end Data

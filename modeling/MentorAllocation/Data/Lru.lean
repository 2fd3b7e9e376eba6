import Mathlib.Data.List.Dedup
import Mathlib.Data.List.DropRight
import MentorAllocation.Data.Dict

namespace Data

section
variable {κ : Type}

/-- The end of a list that is short enough, or just as long as it may be. -/
theorem rtake_append_of_length (m s : List κ) (n : Nat) (h : s.length = n ∨ s.length ≤ n ∧ m = []) :
    (m ++ s).rtake n = s := by
  rcases h with h | ⟨h, rfl⟩
  · rw [List.rtake, List.length_append, h, Nat.add_sub_cancel, List.drop_left]
  · rw [List.nil_append, List.rtake, Nat.sub_eq_zero_of_le h, List.drop_zero]

/-- A list split where its last elements begin: there are as many as asked for, or it has no
others. -/
theorem exists_rtake_split (l : List κ) (n : Nat) : ∃ m, l = m ++ l.rtake n ∧
    ((l.rtake n).length = n ∨ (l.rtake n).length ≤ n ∧ m = []) := by
  refine ⟨l.take (l.length - n), (List.take_append_drop _ l).symm, ?_⟩
  rw [List.rtake, List.length_drop]
  by_cases h : n ≤ l.length
  · exact .inl (by omega)
  · refine .inr ⟨by omega, ?_⟩
    rw [Nat.sub_eq_zero_of_le (by omega), List.take_zero]

end

section
variable {κ : Type} [DecidableEq κ] {ks : List κ} {k : κ} {limit : Nat}

/-- The distinct keys of a list in the order in which each came last, cut down to the latest. -/
def recent (limit : Nat) (ks : List κ) : List κ := ks.dedup.rtake limit

theorem dedup_concat (ks : List κ) (k : κ) :
    (ks ++ [k]).dedup = ks.dedup.filter (· ≠ k) ++ [k] := by
  induction ks with
  | nil => rfl
  | cons x ks ih =>
    rw [List.cons_append]
    by_cases hx : x ∈ ks
    · rw [List.dedup_cons_of_mem (List.mem_append_left _ hx), List.dedup_cons_of_mem hx, ih]
    · by_cases hk : x = k
      · rw [List.dedup_cons_of_mem (by simp [hk]), List.dedup_cons_of_notMem hx, ih,
          List.filter_cons_of_neg (by simpa using hk)]
      · rw [List.dedup_cons_of_notMem (by simp [hx, hk]), List.dedup_cons_of_notMem hx, ih,
          List.filter_cons_of_pos (by simpa using hk), List.cons_append]

/-- The key used last goes to the end of the recent ones, where it was already. -/
theorem recent_concat_of_mem (h : k ∈ recent limit ks) :
    recent limit (ks ++ [k]) = (recent limit ks).filter (· ≠ k) ++ [k] := by
  obtain ⟨m, hm, hlength⟩ := exists_rtake_split ks.dedup limit
  have hnodup := ks.nodup_dedup
  rw [hm] at hnodup
  have hmk : k ∉ m := fun hk => (List.disjoint_of_nodup_append hnodup) hk h
  have hmfilter : m.filter (· ≠ k) = m :=
    List.filter_eq_self.mpr fun x hx => by simpa using fun he : x = k => hmk (he ▸ hx)
  have hone : ((recent limit ks).filter (· ≠ k)).length + 1 = (recent limit ks).length := by
    have herase := (List.nodup_append.mp hnodup).2.1.erase_eq_filter k
    have hlen := List.length_erase_of_mem h
    have hpos := List.length_pos_of_mem h
    rw [show (recent limit ks).filter (· ≠ k) = (recent limit ks).erase k from by
      rw [recent, herase]
      exact List.filter_congr fun x _ => decide_not.trans rfl]
    omega
  rw [recent, dedup_concat, hm, List.filter_append, hmfilter, List.append_assoc]
  refine rtake_append_of_length _ _ _ ?_
  rw [List.length_append, List.length_singleton]
  change ((recent limit ks).filter (· ≠ k)).length + 1 = limit ∨
    ((recent limit ks).filter (· ≠ k)).length + 1 ≤ limit ∧ m = []
  rw [hone]
  exact hlength

/-- A new key at the end of the recent ones pushes out the first of them once they are too many. -/
theorem recent_concat_of_notMem (hlimit : 0 < limit) (h : k ∉ recent limit ks) :
    recent limit (ks ++ [k]) = if limit < (recent limit ks ++ [k]).length
      then (recent limit ks ++ [k]).tail else recent limit ks ++ [k] := by
  obtain ⟨m, hm, hlength⟩ := exists_rtake_split ks.dedup limit
  have hfilter : (recent limit ks).filter (· ≠ k) = recent limit ks :=
    List.filter_eq_self.mpr fun x hx => by simpa using fun he : x = k => h (he ▸ hx)
  have hsplit : recent limit (ks ++ [k]) =
      (m.filter (· ≠ k) ++ (recent limit ks ++ [k])).rtake limit := by
    rw [recent, dedup_concat, hm, List.filter_append, List.append_assoc]
    exact congrArg (fun l => (m.filter (· ≠ k) ++ (l ++ [k])).rtake limit) hfilter
  rw [hsplit]
  have hconcat : (recent limit ks ++ [k]).length = (recent limit ks).length + 1 := by simp
  change (recent limit ks).length = limit ∨ (recent limit ks).length ≤ limit ∧ m = [] at hlength
  by_cases hfull : (recent limit ks).length = limit
  · obtain ⟨x, rest, hx⟩ := List.exists_cons_of_length_pos (hfull ▸ hlimit)
    rw [if_pos (by omega), hx, List.cons_append, List.tail_cons, List.append_cons]
    rw [hx, List.length_cons] at hfull
    exact rtake_append_of_length _ _ _ (.inl (by simpa using hfull))
  · obtain ⟨hshort, rfl⟩ := hlength.resolve_left hfull
    rw [if_neg (by omega), List.filter_nil]
    exact rtake_append_of_length _ _ _ (.inr ⟨by omega, rfl⟩)

end

namespace Dict
variable {κ α : Type} [DecidableEq κ] {d : Dict κ α} {k q : κ} {a b : α} {ks : List κ}
  {limit : Nat}

/-- A dictionary is what its pairs make. -/
theorem ofList_entries (d : Dict κ α) : ofList d.entries = d := by
  have h := entries_ofList d.nodup
  generalize ofList d.entries = made at h
  cases made
  cases d
  cases h
  rfl

def moveToEnd (d : Dict κ α) (k : κ) : Dict κ α where
  entries := d.entries.filter (·.1 ≠ k) ++ d.entries.filter (·.1 = k)
  nodup := by
    have hperm := (List.filter_append_perm (fun e : κ × α => decide (e.1 ≠ k)) d.entries).map
      Prod.fst
    simp only [ne_eq, decide_not, Bool.not_not] at hperm ⊢
    exact hperm.nodup_iff.mpr d.nodup

def popFirst (d : Dict κ α) : Dict κ α :=
  ⟨d.entries.tail, ((List.tail_sublist _).map Prod.fst).nodup d.nodup⟩

/-- A key set, and the first one dropped where there are now too many. -/
def store (limit : Nat) (d : Dict κ α) (k : κ) (a : α) : Dict κ α :=
  let d := d.set k a
  if limit < d.entries.length then d.popFirst else d

@[simp] theorem get?_moveToEnd : (d.moveToEnd k).get? q = d.get? q := by
  apply Option.ext
  intro b
  rw [← mem_entries, ← mem_entries, moveToEnd, List.mem_append, List.mem_filter, List.mem_filter]
  by_cases hq : q = k <;> simp [hq]

theorem get?_store (h : (d.store limit k a).get? q = some b) :
    q = k ∧ b = a ∨ d.get? q = some b := by
  have hset : (d.set k a).get? q = some b := by
    rw [store] at h
    split at h
    · rw [← mem_entries] at h ⊢
      exact List.mem_of_mem_tail h
    · exact h
  rw [get?_set] at hset
  split at hset
  · next hq => exact .inl ⟨hq, (Option.some.inj hset).symm⟩
  · exact .inr hset

theorem keys_moveToEnd (h : d.keys = recent limit ks) (hk : k ∈ d.keys) :
    (d.moveToEnd k).keys = recent limit (ks ++ [k]) := by
  have hothers : (d.entries.filter (·.1 ≠ k)).map Prod.fst = d.keys.filter (· ≠ k) := by
    rw [keys, List.filter_map]
    rfl
  have hself : (d.entries.filter (·.1 = k)).map Prod.fst = d.keys.filter (· = k) := by
    rw [keys, List.filter_map]
    rfl
  have hone : d.keys.filter (· = k) = [k] := by
    rw [List.filter_eq, keys, List.count_eq_one_of_mem d.nodup hk]
    rfl
  rw [recent_concat_of_mem (h ▸ hk), ← h, keys, moveToEnd, List.map_append, hothers, hself, hone]

theorem keys_store (hlimit : 0 < limit) (h : d.keys = recent limit ks) (hk : k ∉ d.keys) :
    (d.store limit k a).keys = recent limit (ks ++ [k]) := by
  have hset : (d.set k a).keys = d.keys ++ [k] := by
    rw [keys, entries_set hk, List.map_append]
    rfl
  have hlength : (d.set k a).entries.length = (d.keys ++ [k]).length := by
    rw [← hset, keys, List.length_map]
  rw [recent_concat_of_notMem hlimit (h ▸ hk), ← h, store, hlength]
  split
  · rw [← hset]
    exact List.map_tail
  · exact hset

end Dict

end Data

import Mathlib.Data.List.Perm.Basic
import Mathlib.Data.List.Rotate
import Mathlib.Data.Nat.ModEq
import MentorAllocation.Domain.Fairness

namespace Domain
open Data Sorting

namespace FairnessConfig
variable {ρ τ : Type} (C : FairnessConfig ρ) (items : List (Mentor × τ)) (key : String)

theorem foldl_addToBucket (buckets : Dict Int (List (Mentor × τ × Nat))) :
    ((items.foldl (C.addToBucket key) buckets).values.flatten.map
      fun entry => (entry.1, entry.2.1)).Perm
      (buckets.values.flatten.map (fun entry => (entry.1, entry.2.1)) ++ items) := by
  induction items generalizing buckets with
  | nil => simp
  | cons item items ih =>
    refine (ih (C.addToBucket key buckets item)).trans ?_
    have hadd := (Dict.flatten_values_set buckets (C.bucketKey item.1) (item.1, item.2,
      C.stableCounterHash (key ++ ":" ++ toString (C.bucketKey item.1) ++ ":" ++
        toString item.1.mentorId))).map fun entry : Mentor × τ × Nat => (entry.1, entry.2.1)
    rw [List.map_append] at hadd
    refine (hadd.append_right items).trans (List.Perm.of_eq ?_)
    rw [List.append_assoc, List.map_singleton, List.singleton_append]

theorem orderedBuckets_perm : ((C.orderedBuckets items key).flatten.map
    fun entry => (entry.1, entry.2.1)).Perm items := by
  have hsorted : (C.orderedBuckets items key).flatten.Perm
      (items.foldl (C.addToBucket key) Dict.empty).values.flatten := by
    rw [orderedBuckets, ← Dict.map_get?_keys _ [], ← List.flatMap_def, ← List.flatMap_def]
    exact (sortedBy_perm id _).flatMap fun bucketKey _ => sortedBy_perm _ _
  refine (hsorted.map _).trans ((C.foldl_addToBucket items key Dict.empty).trans ?_)
  exact List.Perm.of_eq rfl

theorem interleaved_perm : (C.interleaved items key).Perm items :=
  ((interleave_perm _).map _).trans (C.orderedBuckets_perm items key)

section
variable {L : List (Mentor × τ)}

theorem startIndex_lt (hL : L ≠ []) (last : Option Int) : startIndex L last < L.length := by
  have hpos : 0 < L.length := List.length_pos_iff.mpr hL
  cases last with
  | none => exact hpos
  | some last =>
    rw [startIndex]
    split
    · exact Nat.mod_lt _ hpos
    · exact hpos

/-- After a mentor that came first comes the next one. -/
theorem startIndex_next (hids : (L.map fun item => item.1.mentorId).Nodup) {i : Nat}
    (hi : i < L.length) : startIndex L (some L[i].1.mentorId) = (i + 1) % L.length := by
  have hfind : L.findIdx? (fun item => item.1.mentorId == L[i].1.mentorId) = some i := by
    refine List.findIdx?_eq_some_iff_getElem.mpr ⟨hi, beq_self_eq_true _, fun j hj => ?_⟩
    have hne : L[j].1.mentorId ≠ L[i].1.mentorId := by
      intro heq
      have hlt : ∀ k, k < L.length → k < (L.map fun item => item.1.mentorId).length := by simp
      have hinj : j = i :=
        (@List.Nodup.getElem_inj_iff _ _ hids j (hlt j (hj.trans hi)) i (hlt i hi)).mp
          (by simpa using heq)
      omega
    simpa using hne
  rw [startIndex, hfind]

end

variable {C} {items} {key}

/-- One ranking: the list begins after the mentor that came first last time, and the one it begins
with is remembered. -/
theorem withBucketRoundRobin_eq (hitems : items ≠ []) (state : RoundRobinState) :
    ∃ h : startIndex (C.interleaved items key) (state.get? key) < (C.interleaved items key).length,
      C.withBucketRoundRobin state items key =
        ((C.interleaved items key).rotate (startIndex (C.interleaved items key) (state.get? key)),
          state.set key (C.interleaved items key)[startIndex (C.interleaved items key)
            (state.get? key)].1.mentorId) := by
  have hL : C.interleaved items key ≠ [] := by
    intro hnil
    have hperm := C.interleaved_perm items key
    rw [hnil] at hperm
    exact hitems hperm.nil_eq.symm
  have hbuckets : (C.orderedBuckets items key).isEmpty = false := by
    rw [List.isEmpty_eq_false_iff]
    intro hnil
    have hperm := C.orderedBuckets_perm items key
    rw [hnil] at hperm
    exact hitems hperm.nil_eq.symm
  have hstart := startIndex_lt hL (state.get? key)
  refine ⟨hstart, ?_⟩
  rw [withBucketRoundRobin, hbuckets]
  have hrotated : (C.interleaved items key).drop (startIndex (C.interleaved items key)
      (state.get? key)) ++ (C.interleaved items key).take (startIndex (C.interleaved items key)
      (state.get? key)) = (C.interleaved items key).rotate (startIndex (C.interleaved items key)
      (state.get? key)) := (List.rotate_eq_drop_append_take hstart.le).symm
  have hhead := List.head?_rotate hstart
  rw [List.getElem?_eq_getElem hstart] at hhead
  obtain ⟨rest, hrest⟩ := List.head?_eq_some_iff.mp hhead
  simp only [hrotated, hrest, Bool.false_eq_true, if_false]

theorem rank_roundRobin [LinearOrder ρ] (hstrategy : C.strategy = .bucketRoundRobin)
    (hitems : 2 ≤ items.length) (state : RoundRobinState) (academicYear : Option String) :
    C.rank state items academicYear =
      C.withBucketRoundRobin state items (fairnessKey academicYear) := by
  have hrank : ¬ (items.length ≤ 1 ∨ C.strategy = .none) := by
    rw [hstrategy]
    simp only [reduceCtorEq, or_false]
    omega
  rw [rank, if_neg hrank, hstrategy]

/-- A ranking leaves what is remembered for other keys. -/
theorem rank_other [LinearOrder ρ] (hstrategy : C.strategy = .bucketRoundRobin)
    (state : RoundRobinState) (items : List (Mentor × τ)) {academicYear : Option String}
    (hkey : fairnessKey academicYear ≠ key) :
    (C.rank state items academicYear).2.get? key = state.get? key := by
  by_cases hitems : 2 ≤ items.length
  · have hne : items ≠ [] := by
      rintro rfl
      simp at hitems
    obtain ⟨_, heq⟩ := @withBucketRoundRobin_eq _ _ C items (fairnessKey academicYear) hne state
    rw [rank_roundRobin hstrategy hitems, heq, Dict.get?_set, if_neg (Ne.symm hkey)]
  · rw [rank, if_pos (Or.inl (by omega))]

section
variable [LinearOrder ρ]

structure Call (τ : Type) where
  items : List (Mentor × τ)
  academicYear : Option String

/-- What a row of calls answers to those with a key. -/
def answers (C : FairnessConfig ρ) (key : String) (state : RoundRobinState) :
    List (Call τ) → List (List (Mentor × τ))
  | [] => []
  | call :: calls =>
    let ranking := C.rank state call.items call.academicYear
    if fairnessKey call.academicYear = key then ranking.1 :: answers C key ranking.2 calls
    else answers C key ranking.2 calls

theorem length_answers (C : FairnessConfig ρ) (key : String) (state : RoundRobinState)
    (calls : List (Call τ)) : (C.answers key state calls).length =
      calls.countP fun call => fairnessKey call.academicYear = key := by
  induction calls generalizing state with
  | nil => rfl
  | cons call calls ih =>
    by_cases hkey : fairnessKey call.academicYear = key
    · rw [answers, if_pos hkey, List.length_cons, ih, List.countP_cons_of_pos (by simp [hkey])]
    · rw [answers, if_neg hkey, ih, List.countP_cons_of_neg (by simp [hkey])]

/-- The calls with a key turn the same list further and further. -/
theorem answers_eq (hstrategy : C.strategy = .bucketRoundRobin) (hitems : 2 ≤ items.length)
    (hids : (items.map fun item => item.1.mentorId).Nodup) (state : RoundRobinState)
    {calls : List (Call τ)}
    (hcalls : ∀ call ∈ calls, fairnessKey call.academicYear = key → call.items = items) :
    ∃ n, C.answers key state calls = (List.range n).map fun i => (C.interleaved items key).rotate
      ((startIndex (C.interleaved items key) (state.get? key) + i) % items.length) := by
  have hne : items ≠ [] := by
    rintro rfl
    simp at hitems
  have hperm := C.interleaved_perm items key
  have hids' : ((C.interleaved items key).map fun item => item.1.mentorId).Nodup :=
    (hperm.map _).nodup_iff.mpr hids
  induction calls generalizing state with
  | nil => exact ⟨0, rfl⟩
  | cons call calls ih =>
    obtain ⟨hcall, hcalls⟩ := List.forall_mem_cons.mp hcalls
    obtain ⟨n, hn⟩ := ih (C.rank state call.items call.academicYear).2 hcalls
    by_cases hkey : fairnessKey call.academicYear = key
    · obtain ⟨hlt, heq⟩ := @withBucketRoundRobin_eq _ _ C items key hne state
      have hrank : C.rank state call.items call.academicYear =
          C.withBucketRoundRobin state items key := by
        rw [hcall hkey, rank_roundRobin hstrategy hitems, hkey]
      refine ⟨n + 1, ?_⟩
      rw [answers, if_pos hkey, hn, hrank, heq, Dict.get?_set, if_pos rfl,
        startIndex_next hids' hlt,
        hperm.length_eq, List.range_succ_eq_map, List.map_cons, List.map_map]
      rw [hperm.length_eq] at hlt
      refine congrArg₂ List.cons ?_ (List.map_congr_left fun i _ => ?_)
      · rw [Nat.add_zero, Nat.mod_eq_of_lt hlt]
      · rw [Function.comp_apply, Nat.mod_add_mod, Nat.succ_eq_add_one, Nat.add_assoc,
          Nat.add_comm 1 i]
    · refine ⟨n, ?_⟩
      rw [answers, if_neg hkey, hn, rank_other hstrategy _ _ hkey]

def first (ranked : List (Mentor × τ)) : Option Int := ranked.head?.map (·.1.mentorId)

theorem eq_of_mod_eq {s i n a b : Nat} (ha : i ≤ a ∧ a < i + n) (hb : i ≤ b ∧ b < i + n)
    (h : (s + a) % n = (s + b) % n) : a = b := by
  have hmod : a ≡ b [MOD n] := Nat.ModEq.add_left_cancel' s h
  rcases Nat.le_total a b with hab | hab
  · have := Nat.eq_zero_of_dvd_of_lt ((Nat.modEq_iff_dvd' hab).mp hmod) (by omega)
    omega
  · have := Nat.eq_zero_of_dvd_of_lt ((Nat.modEq_iff_dvd' hab).mp hmod.symm) (by omega)
    omega

/-- Whatever calls with other keys come between them, the calls with one key and one list of
candidates all permute it, any that follow one another for the length of the list put different
mentors first, and after that many the mentors repeat. -/
theorem round_robin_fair (C : FairnessConfig ρ) (hstrategy : C.strategy = .bucketRoundRobin)
    (state : RoundRobinState) (key : String) {items : List (Mentor × τ)}
    (hitems : 2 ≤ items.length) (hids : (items.map fun item => item.1.mentorId).Nodup)
    {calls : List (Call τ)}
    (hcalls : ∀ call ∈ calls, fairnessKey call.academicYear = key → call.items = items) :
    ((C.answers key state calls).length =
      calls.countP fun call => fairnessKey call.academicYear = key) ∧
    (∀ ranked ∈ C.answers key state calls, ranked.Perm items) ∧
    (∀ i, ((((C.answers key state calls).map first).drop i).take items.length).Nodup) ∧
    ∀ i, i + items.length < (C.answers key state calls).length →
      ((C.answers key state calls).map first)[i + items.length]? =
        ((C.answers key state calls).map first)[i]? := by
  obtain ⟨n, hanswers⟩ := answers_eq hstrategy hitems hids state hcalls
  have hperm := C.interleaved_perm items key
  have hids' : ((C.interleaved items key).map fun item => item.1.mentorId).Nodup :=
    (hperm.map _).nodup_iff.mpr hids
  have hfirsts : (C.answers key state calls).map first = (List.range n).map fun i =>
      ((C.interleaved items key).map fun item => item.1.mentorId)[(startIndex
        (C.interleaved items key) (state.get? key) + i) % items.length]? := by
    rw [hanswers, List.map_map]
    refine List.map_congr_left fun i _ => ?_
    have hlt : (startIndex (C.interleaved items key) (state.get? key) + i) % items.length <
        (C.interleaved items key).length := by
      rw [hperm.length_eq]
      exact Nat.mod_lt _ (by omega)
    rw [Function.comp_apply, first, List.head?_rotate hlt, List.getElem?_map]
  refine ⟨C.length_answers key state calls, fun ranked hranked => ?_, fun i => ?_, fun i hi => ?_⟩
  · rw [hanswers] at hranked
    obtain ⟨i, -, rfl⟩ := List.mem_map.mp hranked
    exact (List.rotate_perm _ _).trans hperm
  · rw [hfirsts, ← List.map_drop, ← List.map_take]
    refine List.Nodup.map_on ?_ ((List.nodup_range.sublist (List.drop_sublist _ _)).sublist
      (List.take_sublist _ _))
    have hwindow : ∀ a, a ∈ ((List.range n).drop i).take items.length →
        i ≤ a ∧ a < i + items.length := by
      intro a ha
      obtain ⟨j, hj, rfl⟩ := List.mem_iff_getElem.mp ha
      rw [List.getElem_take, List.getElem_drop, List.getElem_range]
      rw [List.length_take] at hj
      omega
    intro a ha b hb hab
    have hlt : (startIndex (C.interleaved items key) (state.get? key) + a) % items.length <
        ((C.interleaved items key).map fun item => item.1.mentorId).length := by
      rw [List.length_map, hperm.length_eq]
      exact Nat.mod_lt _ (by omega)
    exact eq_of_mod_eq (hwindow a ha) (hwindow b hb) ((List.getElem?_inj hlt hids').mp hab)
  · rw [hfirsts, List.getElem?_map, List.getElem?_map]
    have hlen : n = (C.answers key state calls).length := by
      rw [hanswers, List.length_map, List.length_range]
    rw [List.getElem?_range (by omega), List.getElem?_range (by omega), Option.map_some,
      Option.map_some, ← Nat.add_assoc, Nat.add_mod_right]

end

def sampleConfig : FairnessConfig Int where
  strategy := .bucketRoundRobin
  occupancyRatio mentor := mentor.currentLoad
  bucketKey mentor := mentor.currentLoad / 10
  addJitter ratio n := ratio + n
  stableCounterHash seed := seed.length

def sampleItems : List (Mentor × Unit) :=
  [({ mentorId := 7, gender := .male, type := "عادی", currentLoad := 3 }, ()),
    ({ mentorId := 9, gender := .male, type := "عادی", currentLoad := 12 }, ())]

def sampleCalls : List (Call Unit) :=
  [⟨sampleItems, some "1402"⟩, ⟨[], some "1403"⟩, ⟨sampleItems, some "1402"⟩,
    ⟨sampleItems, some "1402"⟩]

/-- The third of the calls with the first's year begins as the first does. -/
theorem round_robin_fair_sample :
    (sampleConfig.answers "1402" Dict.empty sampleCalls).length = 3 ∧
      ((sampleConfig.answers "1402" Dict.empty sampleCalls).map first)[2]? =
        ((sampleConfig.answers "1402" Dict.empty sampleCalls).map first)[0]? := by
  have hitems : 2 ≤ sampleItems.length := by decide
  have hids : (sampleItems.map fun item => item.1.mentorId).Nodup := by decide
  have hcalls : ∀ call ∈ sampleCalls, fairnessKey call.academicYear = "1402" →
      call.items = sampleItems := by
    intro call hcall hkey
    simp only [sampleCalls, List.mem_cons, List.not_mem_nil, or_false] at hcall
    rcases hcall with rfl | rfl | rfl | rfl
    · rfl
    · exact absurd hkey (by decide)
    · rfl
    · rfl
  have h := round_robin_fair sampleConfig rfl Dict.empty "1402" hitems hids hcalls
  have hlength : (sampleConfig.answers "1402" Dict.empty sampleCalls).length = 3 :=
    h.1.trans (by decide)
  exact ⟨hlength, h.2.2.2 0 (by rw [hlength]; decide)⟩

end FairnessConfig

end Domain

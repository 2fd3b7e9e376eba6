import MentorAllocation.Data.Prefixes
import MentorAllocation.Data.Shedding
import MentorAllocation.Readiness.Retention

namespace Readiness
open Data Sorting

namespace RetentionPolicy
variable {policy : RetentionPolicy} {now : ℚ} {entries : List RetentionEntry} {path : String}

/-- One of the `keep_latest` entries that were modified last. -/
def latest (policy : RetentionPolicy) (entries : List RetentionEntry) (entry : RetentionEntry) :
    Bool :=
  entries.countP (fun other => entry.modifiedAt < other.modifiedAt) < policy.keepLatest

def others (policy : RetentionPolicy) (entries : List RetentionEntry) : List RetentionEntry :=
  (sortedBy RetentionEntry.modifiedAt entries).filter fun entry => !policy.latest entries entry

/-- Older than the policy allows; 0 days set no limit. -/
def tooOld (policy : RetentionPolicy) (now : ℚ) (entry : RetentionEntry) : Bool :=
  policy.ageLimit ≠ 0 ∧ policy.ageLimit < double (now - entry.modifiedAt)

def without (entries removed : List RetentionEntry) : List RetentionEntry :=
  entries.filter fun entry => entry.path ∉ removed.map RetentionEntry.path

/-- It is enough to remove the `k` oldest of the entries that may go. -/
structure Suffices (policy : RetentionPolicy) (now : ℚ) (entries : List RetentionEntry)
    (k : Nat) : Prop where
  young : ∀ entry ∈ (policy.others entries).drop k, policy.tooOld now entry = false
  fits : totalSize RetentionEntry.sizeBytes (without entries ((policy.others entries).take k)) ≤
    policy.sizeLimitBytes ∨ (policy.others entries).drop k = []

theorem mem_keepSet (hpaths : (entries.map RetentionEntry.path).Nodup)
    (htimes : (entries.map RetentionEntry.modifiedAt).Nodup) {entry : RetentionEntry}
    (h : entry ∈ entries) : entry.path ∈ policy.keepSet entries ↔
      policy.latest entries entry = true := by
  have hperm := sortedBy_perm (fun entry => OrderDual.toDual entry.modifiedAt) entries
  have hsorted : (sortedBy (fun entry => OrderDual.toDual entry.modifiedAt) entries).Pairwise
      fun a b => b.modifiedAt < a.modifiedAt := by
    have hdistinct := (hperm.map RetentionEntry.modifiedAt).nodup_iff.mpr htimes
    rw [List.Nodup, List.pairwise_map] at hdistinct
    refine ((sortedBy_pairwise _ entries).and hdistinct).imp fun hboth => ?_
    exact lt_of_le_of_ne hboth.1 (Ne.symm hboth.2)
  have hinj := List.inj_on_of_nodup_map hpaths
  have hmem : entry.path ∈ policy.keepSet entries ↔ entry ∈
      (sortedBy (fun entry => OrderDual.toDual entry.modifiedAt) entries).take
        policy.keepLatest := by
    rw [keepSet, List.mem_map]
    constructor
    · rintro ⟨other, hother, hpath⟩
      exact hinj (hperm.mem_iff.mp (List.mem_of_mem_take hother)) h hpath ▸ hother
    · intro hkept
      exact ⟨entry, hkept, rfl⟩
  rw [hmem, mem_take_iff_countP hsorted (hperm.mem_iff.mpr h), hperm.countP_eq, latest,
    decide_eq_true_iff]

theorem mem_keys_add {removals : Removals} {other reason : String} :
    path ∈ (removals.add other reason).keys ↔ path = other ∨ path ∈ removals.keys :=
  Dict.mem_keys_set

theorem mem_agePass {keep : List String} {removals : Removals} (rest : List RetentionEntry) :
    path ∈ (policy.agePass keep now rest removals).keys ↔ path ∈ removals.keys ∨
      ∃ entry ∈ rest, entry.path ∉ keep ∧ policy.tooOld now entry = true ∧ entry.path = path := by
  induction rest generalizing removals with
  | nil => simp [agePass]
  | cons entry rest ih =>
    rw [agePass, List.foldl_cons]
    change path ∈ (policy.agePass keep now rest _).keys ↔ _
    rw [ih]
    simp only [List.mem_cons, exists_eq_or_imp]
    split
    · next hkeep => simp [hkeep]
    · next hkeep =>
      split
      · next hold =>
        rw [mem_keys_add]
        have : policy.tooOld now entry = true := decide_eq_true hold
        simp only [hkeep, not_false_eq_true, this, true_and]
        tauto
      · next hyoung =>
        have : policy.tooOld now entry = false := decide_eq_false hyoung
        simp [this]

theorem mem_sizePass {keep : List String} {removals : Removals} (rest : List RetentionEntry)
    {bytesOver : Int} (hover : 0 < bytesOver) :
    path ∈ (sizePass keep rest bytesOver removals).keys ↔ path ∈ removals.keys ∨
      path ∈ (shed RetentionEntry.sizeBytes 0 bytesOver
        (rest.filter fun entry => entry.path ∉ keep)).map RetentionEntry.path := by
  induction rest generalizing bytesOver removals with
  | nil => simp [sizePass, shed]
  | cons entry rest ih =>
    rw [sizePass]
    split
    · next hkeep => rw [ih hover, List.filter_cons_of_neg (by simpa using hkeep)]
    · next hkeep =>
      rw [List.filter_cons_of_pos (by simpa using hkeep), shed, if_neg (not_le.mpr hover),
        List.map_cons, List.mem_cons]
      dsimp only
      split
      · next hdone =>
        rw [shed_of_le hdone, mem_keys_add]
        simp [or_comm]
      · next hmore =>
        rw [ih (not_le.mp hmore), mem_keys_add]
        tauto

theorem perm_others (policy : RetentionPolicy) (entries : List RetentionEntry) :
    entries.Perm (policy.others entries ++ entries.filter (policy.latest entries)) := by
  refine (List.filter_append_perm (policy.latest entries) entries).symm.trans ?_
  refine List.perm_append_comm.trans (List.Perm.append_right _ ?_)
  exact ((sortedBy_perm RetentionEntry.modifiedAt entries).filter _).symm

theorem mem_others {entry : RetentionEntry} : entry ∈ policy.others entries ↔
    entry ∈ entries ∧ policy.latest entries entry = false := by
  rw [others, List.mem_filter, (sortedBy_perm RetentionEntry.modifiedAt entries).mem_iff,
    Bool.not_eq_true']

/-- Of two entries the older one is too old if the other is. -/
theorem tooOld_others (policy : RetentionPolicy) (now : ℚ) (entries : List RetentionEntry) :
    (policy.others entries).Pairwise fun a b =>
      policy.tooOld now b = true → policy.tooOld now a = true := by
  refine ((sortedBy_pairwise RetentionEntry.modifiedAt entries).filter _).imp fun hle hold => ?_
  obtain ⟨hset, hage⟩ := of_decide_eq_true hold
  exact decide_eq_true ⟨hset, hage.trans_le (double_mono (sub_le_sub_left hle now))⟩

def excess (policy : RetentionPolicy) (entries : List RetentionEntry) : Int :=
  max 0 ((totalSize RetentionEntry.sizeBytes entries : Int) - policy.sizeLimitBytes)

/-- The paths that are to go: those of the entries that are too old and of those that are
given up for their size. -/
theorem mem_plan (hpaths : (entries.map RetentionEntry.path).Nodup)
    (htimes : (entries.map RetentionEntry.modifiedAt).Nodup) :
    path ∈ (policy.plan now entries).2.keys ↔
      path ∈ ((policy.others entries).filter (policy.tooOld now)).map RetentionEntry.path ∨
      path ∈ (shed RetentionEntry.sizeBytes 0 (policy.excess entries)
        (policy.others entries)).map RetentionEntry.path := by
  have hage : path ∈ (policy.agePass (policy.keepSet entries) now entries Dict.empty).keys ↔
      path ∈ ((policy.others entries).filter (policy.tooOld now)).map RetentionEntry.path := by
    rw [mem_agePass, List.mem_map]
    have hnone : path ∉ (Dict.empty : Removals).keys := by simp [Dict.keys, Dict.empty]
    simp only [hnone, false_or, List.mem_filter, mem_others]
    constructor
    · rintro ⟨entry, hentry, hkeep, hold, rfl⟩
      rw [mem_keepSet hpaths htimes hentry, Bool.not_eq_true] at hkeep
      exact ⟨entry, ⟨⟨hentry, hkeep⟩, hold⟩, rfl⟩
    · rintro ⟨entry, ⟨⟨hentry, hkeep⟩, hold⟩, rfl⟩
      rw [← Bool.not_eq_true, ← mem_keepSet hpaths htimes hentry] at hkeep
      exact ⟨entry, hentry, hkeep, hold, rfl⟩
  have hothers : (sortedBy RetentionEntry.modifiedAt entries).filter
      (fun entry => decide (entry.path ∉ policy.keepSet entries)) = policy.others entries := by
    refine List.filter_congr fun entry hentry => ?_
    have hmem := (sortedBy_perm RetentionEntry.modifiedAt entries).mem_iff.mp hentry
    have hkeep : _ ↔ policy.latest entries entry = true := mem_keepSet hpaths htimes hmem
    cases hlatest : policy.latest entries entry with
    | false => simpa [hlatest] using hkeep
    | true => simpa [hlatest] using hkeep
  have hover : max 0 ((((entries.map RetentionEntry.sizeBytes).sum : Nat) : Int) -
      max 0 (policy.sizeLimitBytes : Int)) = policy.excess entries := by
    rw [excess, totalSize, max_eq_right (Int.natCast_nonneg policy.sizeLimitBytes)]
  unfold plan
  simp only [hover]
  split
  · next hpositive => rw [mem_sizePass _ hpositive, hothers, hage]
  · next hnone => rw [hage, shed_of_le (not_lt.mp hnone), List.map_nil]; simp

theorem totalSize_without (policy : RetentionPolicy)
    (hpaths : (entries.map RetentionEntry.path).Nodup) (k : Nat) :
    totalSize RetentionEntry.sizeBytes (without entries ((policy.others entries).take k)) +
      totalSize RetentionEntry.sizeBytes ((policy.others entries).take k) =
        totalSize RetentionEntry.sizeBytes entries := by
  have hsplit : entries.Perm ((policy.others entries).take k ++
      ((policy.others entries).drop k ++ entries.filter (policy.latest entries))) := by
    rw [← List.append_assoc, List.take_append_drop]
    exact perm_others policy entries
  rw [without, totalSize_perm (perm_of_removed hsplit hpaths), Nat.add_comm, ← totalSize_append,
    totalSize_perm hsplit]

/-- How many of the entries that may go are too old, and how many go for their size. -/
def count (policy : RetentionPolicy) (now : ℚ) (entries : List RetentionEntry) : Nat :=
  max ((policy.others entries).takeWhile (policy.tooOld now)).length
    (shed RetentionEntry.sizeBytes 0 (policy.excess entries) (policy.others entries)).length

theorem suffices_iff (hpaths : (entries.map RetentionEntry.path).Nodup) (k : Nat) :
    policy.Suffices now entries k ↔ policy.count now entries ≤ k := by
  have hyoung := drop_fails_iff (tooOld_others policy now entries) k
  have hfits := shed_enough_iff RetentionEntry.sizeBytes 0 (policy.excess entries)
    (policy.others entries) k
  have hsize := totalSize_without policy hpaths k
  have hover : policy.excess entries -
      totalSize RetentionEntry.sizeBytes ((policy.others entries).take k) ≤ 0 ↔
      totalSize RetentionEntry.sizeBytes (without entries ((policy.others entries).take k)) ≤
        policy.sizeLimitBytes := by
    rw [excess]
    omega
  rw [hover] at hfits
  rw [count, max_le_iff, ← hyoung, ← hfits]
  constructor
  · intro h
    exact ⟨h.young, h.fits⟩
  · intro h
    exact ⟨h.1, h.2⟩

/-- What `_plan` removes: of the entries that are not among the latest, the oldest, as many
as are enough and no more. -/
theorem plan_exact (policy : RetentionPolicy) (now : ℚ)
    (hpaths : (entries.map RetentionEntry.path).Nodup)
    (htimes : (entries.map RetentionEntry.modifiedAt).Nodup) :
    ∃ k ≤ (policy.others entries).length,
      (∀ path, path ∈ (policy.plan now entries).2.keys ↔
        path ∈ ((policy.others entries).take k).map RetentionEntry.path) ∧
      policy.Suffices now entries k ∧ ∀ j < k, ¬ policy.Suffices now entries j := by
  have haged : ((policy.others entries).takeWhile (policy.tooOld now)) <+: policy.others entries :=
    List.takeWhile_prefix _
  obtain ⟨rest, hrest, -⟩ := shed_spec RetentionEntry.sizeBytes 0 (policy.excess entries)
    (policy.others entries)
  have hshed : shed RetentionEntry.sizeBytes 0 (policy.excess entries) (policy.others entries) <+:
      policy.others entries := ⟨rest, hrest.symm⟩
  refine ⟨policy.count now entries, max_le haged.length_le hshed.length_le, fun path => ?_,
    (suffices_iff hpaths _).mpr (Nat.le_refl _), fun j hj h => ?_⟩
  · rw [mem_plan hpaths htimes, ← takeWhile_eq_filter (tooOld_others policy now entries)]
    rw [List.prefix_iff_eq_take.mp haged, List.prefix_iff_eq_take.mp hshed]
    simp only [List.mem_map, count, mem_take_max, or_and_right, exists_or]
  · exact absurd ((suffices_iff hpaths j).mp h) (Nat.not_le.mpr hj)

def twoBackups : List RetentionEntry :=
  [⟨"new.tar", 1, 950400, 950400⟩, ⟨"old.tar", 1, 0, 0⟩]

theorem twoBackups_paths : (twoBackups.map RetentionEntry.path).Nodup := by decide

theorem twoBackups_times : (twoBackups.map RetentionEntry.modifiedAt).Nodup := by
  simp [twoBackups]

def keepOne (days : Nat) (h : days ≤ 365) : RetentionPolicy where
  maxAgeDays := days
  maxTotalSizeMb := 1
  keepLatest := 1
  enforce := true
  age_bounds := h
  size_bounds := by decide
  keep_bounds := by decide

theorem plan_exact_week :
    ∃ k ≤ ((keepOne 7 (by decide)).others twoBackups).length,
      (∀ path, path ∈ ((keepOne 7 (by decide)).plan 950400 twoBackups).2.keys ↔
        path ∈ (((keepOne 7 (by decide)).others twoBackups).take k).map RetentionEntry.path) ∧
      (keepOne 7 (by decide)).Suffices 950400 twoBackups k ∧
      ∀ j < k, ¬ (keepOne 7 (by decide)).Suffices 950400 twoBackups j :=
  plan_exact (keepOne 7 (by decide)) 950400 twoBackups_paths twoBackups_times

/-- A policy of no days removes nothing for its age, though the older backup is eleven days
old. -/
theorem zero_days_unlimited :
    ((keepOne 0 (by decide)).plan 950400 twoBackups).2.keys = [] ∧
    ∃ entry ∈ (keepOne 0 (by decide)).others twoBackups,
      ((keepOne 0 (by decide)).maxAgeDays : ℚ) * 86400 < double (950400 - entry.modifiedAt) := by
  constructor
  · refine List.eq_nil_iff_forall_not_mem.mpr fun path hpath => ?_
    rw [mem_plan twoBackups_paths twoBackups_times] at hpath
    have hyoung : (keepOne 0 (by decide)).tooOld 950400 = fun _ => false := by
      funext entry
      simp [tooOld, ageLimit, keepOne]
    have hsize : (keepOne 0 (by decide)).excess twoBackups = 0 := by decide
    rw [hyoung, hsize, shed_of_le (le_refl _)] at hpath
    simp at hpath
  · refine ⟨⟨"old.tar", 1, 0, 0⟩, mem_others.mpr ⟨by simp [twoBackups], ?_⟩, ?_⟩
    · simp [latest, twoBackups, keepOne]
    · have hage : double (950400 - 0) = 950400 := by
        rw [double, if_neg (by norm_num), nearestDouble_eq (s := 33) (n := 950400 * 2 ^ 33)
          (by norm_num) (by norm_num) (by norm_num) (by norm_num) (by norm_num)]
        norm_num
      change _ < double (950400 - 0)
      rw [hage]
      simp [keepOne]

end RetentionPolicy

end Readiness

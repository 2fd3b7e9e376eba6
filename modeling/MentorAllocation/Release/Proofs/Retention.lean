import MentorAllocation.Data.FirstFit
import MentorAllocation.Release.Backup

namespace Release
open Data Sorting

namespace BackupManager
variable {B : BackupManager} {maxAgeDays maxTotalBytes : Int} {K : Snapshot → Bool}
  {snapshots : List Snapshot} {plan : RetentionPlan}

structure Decides (B : BackupManager) (maxAgeDays : Int) (K : Snapshot → Bool)
    (snapshot : Snapshot) (decision : RetentionDecision) : Prop where
  about : decision.snapshot = snapshot
  sized : decision.size = snapshot.size
  keep : decision.action = .keep ↔ K snapshot = true
  capacity : decision.reason = "capacity" → B.inAge maxAgeDays snapshot = true
  removed : K snapshot = false → B.inAge maxAgeDays snapshot = true →
    decision.reason = "capacity"

theorem retentionDecision_decides {snapshot : Snapshot} {kept : Nat}
    (h : K snapshot = true ↔ B.inAge maxAgeDays snapshot = true ∧
      ((kept + snapshot.size : Nat) : Int) ≤ maxTotalBytes) :
    B.Decides maxAgeDays K snapshot
      (B.retentionDecision maxAgeDays maxTotalBytes snapshot kept) := by
  cases hage : B.inAge maxAgeDays snapshot with
  | false =>
    have hK : K snapshot = false := by simpa [hage] using h
    constructor <;> simp [retentionDecision, hage, hK]
  | true =>
    cases hfits : decide (((kept + snapshot.size : Nat) : Int) ≤ maxTotalBytes) with
    | true =>
      have hK : K snapshot = true := h.mpr ⟨hage, of_decide_eq_true hfits⟩
      simp only [retentionDecision, hage, hfits]
      constructor <;> simp [hK, hage]
    | false =>
      have hK : K snapshot = false := by
        rw [← Bool.not_eq_true, h]
        exact fun hall => of_decide_eq_false hfits hall.2
      simp only [retentionDecision, hage, hfits]
      constructor <;> simp [hK, hage]

/-- The plan decides on one snapshot after the other as the first fit does. -/
theorem planSnapshots_decides (plan : RetentionPlan)
    (h : FirstFit Snapshot.size (B.inAge maxAgeDays) K maxTotalBytes
    plan.keptBytes snapshots) : ∃ decisions,
    (B.planSnapshots maxAgeDays maxTotalBytes snapshots plan).decisions =
      plan.decisions ++ decisions ∧ List.Forall₂ (B.Decides maxAgeDays K) snapshots decisions ∧
    (B.planSnapshots maxAgeDays maxTotalBytes snapshots plan).keptBytes =
      plan.keptBytes + chosenSize Snapshot.size K snapshots := by
  induction snapshots generalizing plan with
  | nil => exact ⟨[], (List.append_nil _).symm, .nil, rfl⟩
  | cons snapshot snapshots ih =>
    have hdecides := retentionDecision_decides h.1
    rw [planSnapshots]
    cases haction : (B.retentionDecision maxAgeDays maxTotalBytes snapshot
        plan.keptBytes).action with
    | keep =>
      have hK : K snapshot = true := hdecides.keep.mp haction
      have hrest := h.2
      rw [hK, if_pos rfl] at hrest
      obtain ⟨decisions, hd, hall, hkept⟩ := ih { plan with
        decisions := plan.decisions ++ [B.retentionDecision maxAgeDays maxTotalBytes snapshot
          plan.keptBytes], keptBytes := plan.keptBytes + snapshot.size } hrest
      refine ⟨_ :: decisions, ?_, .cons hdecides hall, ?_⟩
      · rw [hd, List.append_assoc, List.singleton_append]
      · rw [hkept, chosenSize_cons, hK, if_pos rfl, Nat.add_assoc]
    | remove =>
      have hK : K snapshot = false := by
        rw [← Bool.not_eq_true, ← hdecides.keep, haction]
        simp
      have hrest := h.2
      rw [hK] at hrest
      obtain ⟨decisions, hd, hall, hkept⟩ := ih { plan with
        decisions := plan.decisions ++ [B.retentionDecision maxAgeDays maxTotalBytes snapshot
          plan.keptBytes], freedBytes := plan.freedBytes + snapshot.size } hrest
      refine ⟨_ :: decisions, ?_, .cons hdecides hall, ?_⟩
      · rw [hd, List.append_assoc, List.singleton_append]
      · rw [hkept, chosenSize_cons, hK]
        simp

theorem mem_decided {decisions : List RetentionDecision} {snapshot : Snapshot}
    (h : List.Forall₂ (B.Decides maxAgeDays K) snapshots decisions) (hs : snapshot ∈ snapshots) :
    ∃ decision ∈ decisions, B.Decides maxAgeDays K snapshot decision := by
  induction h with
  | nil => cases hs
  | cons hd hrest ih =>
    rcases List.mem_cons.mp hs with rfl | hs
    · exact ⟨_, List.mem_cons_self, hd⟩
    · obtain ⟨decision, hmem, hdecides⟩ := ih hs
      exact ⟨decision, List.mem_cons_of_mem _ hmem, hdecides⟩

theorem decided_mem {decisions : List RetentionDecision} {decision : RetentionDecision}
    (h : List.Forall₂ (B.Decides maxAgeDays K) snapshots decisions) (hd : decision ∈ decisions) :
    ∃ snapshot ∈ snapshots, B.Decides maxAgeDays K snapshot decision := by
  induction h with
  | nil => cases hd
  | cons hdecides hrest ih =>
    rcases List.mem_cons.mp hd with rfl | hd
    · exact ⟨_, List.mem_cons_self, hdecides⟩
    · obtain ⟨snapshot, hmem, hdecides⟩ := ih hd
      exact ⟨snapshot, List.mem_cons_of_mem _ hmem, hdecides⟩

def keptTotal (plan : RetentionPlan) : Nat :=
  ((plan.decisions.filter fun d => d.action == .keep).map RetentionDecision.size).sum

theorem decided_total {decisions : List RetentionDecision}
    (h : List.Forall₂ (B.Decides maxAgeDays K) snapshots decisions) :
    ((decisions.filter fun d => d.action == .keep).map RetentionDecision.size).sum =
      chosenSize Snapshot.size K snapshots := by
  induction h with
  | nil => rfl
  | @cons snapshot decision _ _ hd _ ih =>
    rw [chosenSize_cons, ← ih, List.filter_cons]
    have hkeep := hd.keep
    cases hK : K snapshot with
    | true =>
      rw [hK] at hkeep
      simp [hkeep.mpr rfl, hd.sized]
    | false =>
      rw [hK] at hkeep
      have hremove : (decision.action == .keep) = false := by
        rw [beq_eq_false_iff_ne]
        exact fun hk => Bool.false_ne_true (hkeep.mp hk)
      simp [hremove]

/-- A plan stays within its budget, and no snapshot that it removes to save room is newer
than one that it keeps. -/
structure KeepsNewest (B : BackupManager) (maxTotalBytes : Int) (plan : RetentionPlan) : Prop where
  budget : (keptTotal plan : Int) ≤ maxTotalBytes
  newest : ∀ removed ∈ plan.decisions, removed.action = .remove → removed.reason = "capacity" →
    ∀ kept ∈ plan.decisions, kept.action = .keep →
      B.snapshotTs removed.snapshot.name ≤ B.snapshotTs kept.snapshot.name

/-- Snapshots of the right age, among which no other such snapshot is newer than one of them:
together they are within the budget, and each other one is too large to go with those whose
names come before its own. -/
structure NewestFit (B : BackupManager) (maxAgeDays maxTotalBytes : Int) (root : SnapshotRoot)
    (K : Snapshot → Bool) : Prop where
  inAge : ∀ s ∈ root.snapshots, K s = true → B.inAge maxAgeDays s = true
  newest : ∀ s ∈ root.snapshots, B.inAge maxAgeDays s = true → K s = false →
    ∀ k ∈ root.snapshots, K k = true → B.snapshotTs s.name ≤ B.snapshotTs k.name
  within : (chosenSize Snapshot.size K root.snapshots : Int) ≤ maxTotalBytes
  tooLarge : ∀ s ∈ root.snapshots, B.inAge maxAgeDays s = true → K s = false →
    maxTotalBytes < ((chosenSize Snapshot.size (fun k => K k && decide (k.name < s.name))
      root.snapshots + s.size : Nat) : Int)

/-- The order in which the plan sees the snapshots. -/
def scanned (root : SnapshotRoot) : List Snapshot := sortedBy Snapshot.name root.snapshots

theorem scanned_perm (root : SnapshotRoot) : (scanned root).Perm root.snapshots :=
  sortedBy_perm Snapshot.name root.snapshots

theorem scanned_sorted (root : SnapshotRoot) :
    (scanned root).Pairwise fun s t => s.name < t.name := by
  have hle : (scanned root).Pairwise fun s t => s.name ≤ t.name :=
    sortedBy_pairwise Snapshot.name root.snapshots
  have hne : (scanned root).Pairwise fun s t => s.name ≠ t.name := by
    have hnodup : ((scanned root).map Snapshot.name).Nodup :=
      ((scanned_perm root).map _).nodup_iff.mpr root.distinct
    exact List.pairwise_map.mp hnodup
  exact (hle.and hne).imp fun h => lt_of_le_of_ne h.1 h.2

/-- What is chosen before a snapshot is what has a smaller name. -/
theorem chosenSize_before {before after : List Snapshot} {s : Snapshot}
    (h : (before ++ s :: after).Pairwise fun s t => s.name < t.name) :
    chosenSize Snapshot.size (fun k => K k && decide (k.name < s.name)) (before ++ s :: after) =
      chosenSize Snapshot.size K before := by
  obtain ⟨-, hafter, hbefore⟩ := List.pairwise_append.mp h
  have hlater : ∀ k ∈ s :: after, (K k && decide (k.name < s.name)) = false := by
    intro k hk
    have hle : s.name ≤ k.name := by
      rcases List.mem_cons.mp hk with rfl | hk
      · exact le_rfl
      · exact ((List.pairwise_cons.mp hafter).1 k hk).le
    simp [not_lt.mpr hle]
  have hsame : ∀ k ∈ before, (K k && decide (k.name < s.name)) = K k := by
    intro k hk
    simp [hbefore k hk s List.mem_cons_self]
  rw [chosenSize_append, chosenSize_congr hsame, chosenSize_none hlater, Nat.add_zero]

theorem planRetention_decides {root : SnapshotRoot}
    (h : FirstFit Snapshot.size (B.inAge maxAgeDays) K maxTotalBytes 0 (scanned root)) :
    List.Forall₂ (B.Decides maxAgeDays K) (scanned root)
      (B.planRetention maxAgeDays maxTotalBytes root).decisions := by
  obtain ⟨decisions, hd, hall, -⟩ := planSnapshots_decides ⟨[], 0, 0⟩ h
  have hplan : (B.planRetention maxAgeDays maxTotalBytes root).decisions = decisions := hd
  rwa [hplan]

/-- What a choice that the plan follows makes of its qualities. -/
theorem keepsNewest_of_decides {root : SnapshotRoot}
    (h : List.Forall₂ (B.Decides maxAgeDays K) (scanned root) plan.decisions) :
    B.KeepsNewest maxTotalBytes plan ↔
      (chosenSize Snapshot.size K root.snapshots : Int) ≤ maxTotalBytes ∧
      ∀ s ∈ root.snapshots, B.inAge maxAgeDays s = true → K s = false →
        ∀ k ∈ root.snapshots, K k = true → B.snapshotTs s.name ≤ B.snapshotTs k.name := by
  have htotal : keptTotal plan = chosenSize Snapshot.size K root.snapshots := by
    rw [← chosenSize_perm (scanned_perm root)]
    exact decided_total h
  constructor
  · intro hkeeps
    refine ⟨htotal ▸ hkeeps.budget, fun s hs hage hK k hk hKk => ?_⟩
    obtain ⟨removed, hremoved, hdecides⟩ := mem_decided h ((scanned_perm root).mem_iff.mpr hs)
    obtain ⟨kept, hkept, hdecides'⟩ := mem_decided h ((scanned_perm root).mem_iff.mpr hk)
    have haction : removed.action = .remove := by
      cases ha : removed.action with
      | keep => exact absurd (hdecides.keep.mp ha) (by simp [hK])
      | remove => rfl
    have hnewest := hkeeps.newest removed hremoved haction (hdecides.removed hK hage) kept hkept
      (hdecides'.keep.mpr hKk)
    rwa [hdecides.about, hdecides'.about] at hnewest
  · rintro ⟨hbudget, hnewest⟩
    refine ⟨htotal ▸ hbudget, fun removed hremoved haction hreason kept hkept hkeep => ?_⟩
    obtain ⟨s, hs, hdecides⟩ := decided_mem h hremoved
    obtain ⟨k, hk, hdecides'⟩ := decided_mem h hkept
    rw [hdecides.about, hdecides'.about]
    have hK : K s = false := by
      rw [← Bool.not_eq_true, ← hdecides.keep, haction]
      simp
    exact hnewest s ((scanned_perm root).mem_iff.mp hs) (hdecides.capacity hreason) hK
      k ((scanned_perm root).mem_iff.mp hk) (hdecides'.keep.mp hkeep)

/-- Such newest snapshots are what the first fit chooses. -/
theorem NewestFit.firstFit {root : SnapshotRoot} (h : B.NewestFit maxAgeDays maxTotalBytes root K) :
    FirstFit Snapshot.size (B.inAge maxAgeDays) K maxTotalBytes 0 (scanned root) := by
  refine firstFit_iff.mpr fun before s after hsplit => ?_
  have hsorted := scanned_sorted root
  have hs : s ∈ root.snapshots := (scanned_perm root).mem_iff.mp (by simp [hsplit])
  have hwithin := h.within
  rw [← chosenSize_perm (scanned_perm root), hsplit, chosenSize_append, chosenSize_cons] at hwithin
  rw [hsplit] at hsorted
  constructor
  · intro hK
    refine ⟨h.inAge s hs hK, ?_⟩
    rw [hK, if_pos rfl] at hwithin
    omega
  · rintro ⟨hage, hfits⟩
    by_contra hK
    have hlarge := h.tooLarge s hs hage (by simpa using hK)
    rw [← chosenSize_perm (scanned_perm root), hsplit, chosenSize_before hsorted] at hlarge
    omega

theorem exists_choice (B : BackupManager) (root : SnapshotRoot) (maxAgeDays maxTotalBytes : Int) :
    ∃ K, FirstFit Snapshot.size (B.inAge maxAgeDays) K maxTotalBytes 0 (scanned root) := by
  have hnodup : (scanned root).Nodup :=
    (scanned_sorted root).imp fun hlt he => absurd (he ▸ hlt) (lt_irrefl _)
  exact exists_firstFit Snapshot.size (B.inAge maxAgeDays) maxTotalBytes 0 hnodup

/-- Whatever it keeps, a plan stays within its budget. -/
theorem keptTotal_le (B : BackupManager) (root : SnapshotRoot) {maxAgeDays maxTotalBytes : Int}
    (hbytes : 0 ≤ maxTotalBytes) :
    (keptTotal (B.planRetention maxAgeDays maxTotalBytes root) : Int) ≤ maxTotalBytes := by
  obtain ⟨K, hK⟩ := exists_choice B root maxAgeDays maxTotalBytes
  rw [keptTotal, decided_total (planRetention_decides hK), ← Nat.zero_add (chosenSize _ _ _)]
  exact hK.within hbytes

/-- Two snapshots of which the budget has room for one: the plan keeps the older one. -/
def twoSnapshots : SnapshotRoot where
  snapshots := [⟨"20231231T000000Z", [10]⟩, ⟨"20231230T000000Z", [6, 4]⟩]
  distinct := by decide

def newYear : BackupManager where
  now := 63839664000000000
  timestamp := "20240101T000000Z"
  sha256 := fun _ => ""
  dumps := fun _ => []
  mkstemp := fun _ _ => none
  mkstemp_new := by simp

end BackupManager

end Release

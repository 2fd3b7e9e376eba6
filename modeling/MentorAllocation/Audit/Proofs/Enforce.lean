import MentorAllocation.Audit.Proofs.Archive

namespace Audit
open Data Effects Files Text Sorting

namespace AuditArchiveConfig
variable {config : AuditArchiveConfig} {now : DateTime} {partitions : List PartitionInfo}
  {findings : List RetentionPlanEntry} {entry : RetentionPlanEntry}

def EntryOf (partitions : List PartitionInfo) (entry : RetentionPlanEntry) : Prop :=
  ∃ p ∈ partitions, ∃ reason, entry = p.entry reason

theorem entryOf_monthPass (config : AuditArchiveConfig) (now : DateTime)
    (hfindings : ∀ entry ∈ findings, EntryOf partitions entry)
    (some : List PartitionInfo) (hsome : ∀ p ∈ some, p ∈ partitions) :
    ∀ entry ∈ config.monthPass now some findings, EntryOf partitions entry := by
  induction some generalizing findings with
  | nil => exact hfindings
  | cons p rest ih =>
    obtain ⟨hp, hrest⟩ := List.forall_mem_cons.mp hsome
    rw [monthPass, List.foldl_cons, ← monthPass]
    refine ih ?_ hrest
    split
    · intro entry hentry
      rcases List.mem_append.mp hentry with hold | hnew
      · exact hfindings entry hold
      · exact ⟨p, hp, .age, List.mem_singleton.mp hnew⟩
    · exact hfindings

theorem entryOf_sizePass {limit : Int} (hfindings : ∀ entry ∈ findings, EntryOf partitions entry)
    (total : Int) (some : List PartitionInfo) (hsome : ∀ p ∈ some, p ∈ partitions) :
    ∀ entry ∈ sizePass limit total some findings, EntryOf partitions entry := by
  induction some generalizing total findings with
  | nil => exact hfindings
  | cons p rest ih =>
    obtain ⟨hp, hrest⟩ := List.forall_mem_cons.mp hsome
    rw [sizePass]
    split
    · exact hfindings
    · refine ih ?_ _ hrest
      split
      · exact hfindings
      · intro entry hentry
        rcases List.mem_append.mp hentry with hold | hnew
        · exact hfindings entry hold
        · exact ⟨p, hp, .size, List.mem_singleton.mp hnew⟩

/-- A plan has entries for its partitions alone. -/
theorem entryOf_plan (h : entry ∈ config.plan now partitions) : EntryOf partitions entry := by
  have hdays : ∀ entry ∈ config.dayPass now partitions, EntryOf partitions entry := by
    intro entry hentry
    obtain ⟨p, hp, rfl⟩ := List.mem_map.mp hentry
    exact ⟨p, List.mem_of_mem_filter hp, .age, rfl⟩
  have hmonths := entryOf_monthPass config now hdays partitions fun _ hp => hp
  rw [plan] at h
  have h := (sortedBy_perm _ _).mem_iff.mp h
  cases hlimit : config.retentionSizeBytes with
  | none =>
    rw [hlimit] at h
    exact hmonths entry h
  | some limit =>
    rw [hlimit] at h
    exact entryOf_sizePass hmonths _ _ (fun p hp => (sortedBy_perm _ _).mem_iff.mp hp) entry h

end AuditArchiveConfig

namespace AuditRetentionEnforcer
variable {E : AuditRetentionEnforcer} {P : View → Prop}
  {recorded : List (AuditArchiveWindow × Nat)}

def partitionInfo (entry : AuditArchiveWindow × Nat) : PartitionInfo :=
  ⟨.text entry.1.monthKey, entry.1.start, entry.1.stop, entry.2⟩

theorem partitionOf_partitionJson (A : AuditArchiver) {entry : AuditArchiveWindow × Nat}
    (hwindow : windowOf A.tz entry.1.monthKey = .ok entry.1) :
    partitionOf A.lib (AuditArchiver.partitionJson entry.1 entry.2) =
      .ok (partitionInfo entry) := by
  obtain ⟨hstart, hstop⟩ := A.fromisoformat_isoformat _ _ hwindow
  have hmember : member "month" (AuditArchiver.partitionJson entry.1 entry.2) =
        .ok (.str entry.1.monthKey) ∧
      member "start" (AuditArchiver.partitionJson entry.1 entry.2) =
        .ok (.str entry.1.start.isoformat) ∧
      member "end" (AuditArchiver.partitionJson entry.1 entry.2) =
        .ok (.str entry.1.stop.isoformat) ∧
      member? "size_bytes" (AuditArchiver.partitionJson entry.1 entry.2) =
        .ok (some (.int entry.2)) := ⟨rfl, rfl, rfl, rfl⟩
  simp only [partitionOf, hmember.1, hmember.2.1, hmember.2.2.1, hmember.2.2.2, ok_bind, hstart,
    hstop]
  rfl

theorem mapM_partitionOf (hwindows : ∀ entry ∈ recorded,
    windowOf E.archiver.tz entry.1.monthKey = .ok entry.1) :
    (AuditArchiver.partitionsJson recorded).mapM (partitionOf E.archiver.lib) =
      Except.ok (recorded.map partitionInfo) := by
  induction recorded with
  | nil => rfl
  | cons entry rest ih =>
    obtain ⟨hentry, hrest⟩ := List.forall_mem_cons.mp hwindows
    rw [AuditArchiver.partitionsJson, List.map_cons, List.mapM_cons,
      partitionOf_partitionJson E.archiver hentry, ← AuditArchiver.partitionsJson, ih hrest]
    rfl

theorem listed_partitionsBytes (hprints : printable (.arr (AuditArchiver.partitionsJson recorded)))
    (hwindows : ∀ entry ∈ recorded, windowOf E.archiver.tz entry.1.monthKey = .ok entry.1) :
    (do
      let payload ← loadsBytes E.archiver.lib (AuditArchiver.partitionsBytes recorded)
      let items ← iterate payload
      items.mapM (partitionOf E.archiver.lib)) = Except.ok (recorded.map partitionInfo) := by
  rw [loadsBytes, AuditArchiver.partitionsBytes, decode_encode, Option.bind_some,
    AuditArchiver.loads_partitions hprints]
  exact mapM_partitionOf hwindows

/-- The partitions are listed as they were recorded, unless a directory is in the way. -/
theorem exec_listPartitions {w : World} (hcalm : w.faults = [])
    (hlists : E.archiver.Lists recorded w.view)
    (hwindows : ∀ entry ∈ recorded, windowOf E.archiver.tz entry.1.monthKey = .ok entry.1) :
    exec E.listPartitions w = (.ok (recorded.map partitionInfo), w) ∨
      (exec E.listPartitions w = (.error .osError, w) ∧
        w.disk.get E.archiver.partitionsPath = some .directory) := by
  rw [listPartitions, exec_bind_ok (exec_call hcalm _), exec_bind_ok (exec_get w)]
  rcases hlists with ⟨hnone, rfl⟩ | ⟨hsome, hprints⟩
  · cases hget : w.disk.get E.archiver.partitionsPath with
    | none => exact .inl rfl
    | some found =>
      cases found with
      | directory => exact .inr ⟨rfl, rfl⟩
      | file bytes =>
        have hread : w.disk.read E.archiver.partitionsPath = none := hnone
        rw [Disk.read_eq_some.mpr hget] at hread
        cases hread
  · have hget := Disk.read_eq_some.mp (show w.disk.read E.archiver.partitionsPath = _ from hsome)
    rw [hget]
    dsimp only
    rw [listed_partitionsBytes hprints hwindows]
    exact .inl rfl

theorem meets_listPartitions (hlists : ∀ v, P v → E.archiver.Lists recorded v)
    (hwindows : ∀ entry ∈ recorded, windowOf E.archiver.tz entry.1.monthKey = .ok entry.1) :
    Meets (Seen P) E.listPartitions
      (fun found w => Seen P w ∧ found = recorded.map partitionInfo) (Seen P) := by
  refine (meets_call _).bind fun _ => .get fun w hw => ?_
  rcases hlists w.view hw with ⟨hnone, rfl⟩ | ⟨hsome, hprints⟩
  · have hread : w.disk.read E.archiver.partitionsPath = none := hnone
    cases hget : w.disk.get E.archiver.partitionsPath with
    | none => exact .pure fun s hs => ⟨hs ▸ hw, rfl⟩
    | some found =>
      cases found with
      | directory => exact .throw fun s hs => hs ▸ hw
      | file bytes =>
        rw [Disk.read_eq_some.mpr hget] at hread
        cases hread
  · have hget := Disk.read_eq_some.mp (show w.disk.read E.archiver.partitionsPath = _ from hsome)
    rw [hget]
    dsimp only
    rw [listed_partitionsBytes hprints hwindows]
    exact .pure fun s hs => ⟨hs ▸ hw, rfl⟩

theorem keeps_listPartitions : Keeps (Seen P) E.listPartitions := by
  refine (meets_call _).bind fun _ => .get fun w hw => ?_
  split
  · exact .pure fun _ hs => hs ▸ hw
  · exact .throw fun _ hs => hs ▸ hw
  · exact (keeps_ofExcept _).here hw

theorem meets_verifyArchive (monthKey : MonthKey) :
    Keeps (Seen P) (E.verifyArchive monthKey) := by
  unfold verifyArchive
  split
  swap
  · exact .throw fun _ h => h
  refine (keeps_ofExcept _).bind fun window => ?_
  refine (meets_artifactPath _).fst.bind fun path => ?_
  refine (meets_call _).bind fun _ => .get fun w hw => ?_
  dsimp only
  split
  · exact .pure fun s hs => hs ▸ hw
  · exact .throw fun s hs => hs ▸ hw
  · exact (keeps_ofExcept _).here hw

theorem meets_dropPartition {entry : RetentionPlanEntry}
    (h : ∀ v, P v → P (v.drop entry.start entry.stop)) :
    Keeps (Seen P) (E.dropPartition entry) := by
  refine (meets_call _).bind fun _ => .get fun w hw => ?_
  dsimp only
  split
  · exact .throw_bind fun s hs => hs ▸ hw
  · exact .set (h w.view hw)

/-- What every deletion keeps, the loop keeps. -/
theorem meets_enforceEntries (entries : List RetentionPlanEntry)
    (h : ∀ entry ∈ entries, ∀ v, P v → P (v.drop entry.start entry.stop)) :
    Keeps (Seen P) (E.enforceEntries entries) := by
  induction entries with
  | nil => exact .pure fun _ h => h
  | cons entry rest ih =>
    obtain ⟨hentry, hrest⟩ := List.forall_mem_cons.mp h
    refine ((meets_verifyArchive entry.monthKey).retrying _).bind fun verified => ?_
    split
    · exact .throw_bind fun _ h => h
    · exact ((meets_dropPartition hentry).retrying _).bind fun _ => ih hrest

theorem keeps_enforce (now : DateTime) (dryRun : Bool)
    (h : ∀ (entry : RetentionPlanEntry) v, P v → P (v.drop entry.start entry.stop)) :
    Keeps (Seen P) (E.enforce now dryRun) := by
  refine keeps_listPartitions.bind fun partitions => ?_
  cases dryRun with
  | true => exact .pure fun _ hw => hw
  | false =>
    exact (meets_enforceEntries _ fun entry _ => h entry).bind fun _ => .pure fun _ hw => hw

end AuditRetentionEnforcer

end Audit

import MentorAllocation.Audit.Proofs.Enforce
import MentorAllocation.Audit.Proofs.Months
import MentorAllocation.Audit.Runs
import MentorAllocation.Concurrency.Run

namespace Audit
open Concurrency Data Effects Files Sorting

namespace AuditLog
variable {A : AuditArchiver} {log : AuditLog} {recorded : List (AuditArchiveWindow × Nat)}
  {window : AuditArchiveWindow} {op : Operation} {now : DateTime} {faults : List Bool}

/-- `partitions.json` lists months that were archived, each once, with their windows and in the
order of the texts of their starts. -/
structure Catalogued (A : AuditArchiver) (log : AuditLog)
    (recorded : List (AuditArchiveWindow × Nat)) : Prop where
  lists : A.Lists recorded log.world.view
  windows : ∀ window ∈ log.archived, windowOf A.tz window.monthKey = .ok window
  archived : ∀ entry ∈ recorded, entry.1 ∈ log.archived
  nodup : (recorded.map fun entry => entry.1.monthKey).Nodup
  sorted : recorded.Pairwise fun a b => a.1.start.isoformat ≤ b.1.start.isoformat
  calm : log.world.faults = []

theorem mem_record {size : Nat} {entry : AuditArchiveWindow × Nat} :
    entry ∈ AuditArchiver.record window size recorded ↔
      (entry ∈ recorded ∧ entry.1.monthKey ≠ window.monthKey) ∨ entry = (window, size) := by
  rw [AuditArchiver.record, (sortedBy_perm _ _).mem_iff, List.mem_append, List.mem_filter,
    List.mem_singleton, decide_eq_true_eq]

theorem nodup_record (size : Nat) (h : (recorded.map fun entry => entry.1.monthKey).Nodup) :
    ((AuditArchiver.record window size recorded).map fun entry => entry.1.monthKey).Nodup := by
  refine ((sortedBy_perm _ _).map _).nodup_iff.mpr ?_
  rw [List.map_append, List.map_singleton, List.nodup_append]
  refine ⟨(List.filter_sublist.map _).nodup h, List.nodup_singleton _, ?_⟩
  intro key hkey other hother heq
  obtain ⟨entry, hentry, rfl⟩ := List.mem_map.mp hkey
  rw [List.mem_singleton] at hother
  exact of_decide_eq_true (List.mem_filter.mp hentry).2 (heq.trans hother)

/-- What holds of the outcomes of a call holds of them under any schedule. -/
theorem meets_under {α : Type} {act : Act α} {P Q R : View → Prop} {w : World}
    (h : Meets (Seen P) act (fun _ => Seen Q) (Seen R)) (hw : P w.view) (faults : List Bool) :
    ((under faults act w).1.isOk = true ∧ Q (under faults act w).2.view) ∨
      R (under faults act w).2.view := by
  unfold under
  rcases hexec : exec act { w with faults } with ⟨e | result, after⟩
  · exact .inr (h.error (s := { w with faults }) (t := after) hw hexec)
  · exact .inl ⟨rfl, h.ok (s := { w with faults }) (t := after) hw hexec⟩

theorem keeps_under {α : Type} {act : Act α} {P : View → Prop} {w : World}
    (h : Keeps (Seen P) act) (hw : P w.view) (faults : List Bool) :
    P (under faults act w).2.view :=
  h.exec (s := { w with faults }) hw

/-- What archiving a month makes of the world. -/
theorem archive_outcome (hwindow : windowOf A.tz window.monthKey = .ok window)
    (hlists : A.Lists recorded log.world.view) (faults : List Bool) (now : DateTime) :
    let after := (under faults (A.archiveMonth now window.monthKey) log.world).2
    A.Recorded now window recorded log.world.view after.view ∨
      A.Keeping window log.world.view after.view :=
  (meets_under (AuditArchiver.meets_archiveMonth now hwindow hlists) rfl faults).imp_left And.right

theorem dryRun_outcome (log : AuditLog) (hwindow : windowOf A.tz window.monthKey = .ok window)
    (faults : List Bool) (now : DateTime) :
    let after := (under faults (A.archiveMonthDry now window.monthKey) log.world).2
    A.Cleaned window log.world.view after.view ∨
      A.DryRun now window log.world.view after.view :=
  (meets_under (AuditArchiver.meets_archiveMonthDry now log.world.view hwindow) rfl faults).elim
    (fun h => .inr h.2) id

/-- A key that names no month leaves everything as it is. -/
theorem invalid_key {monthKey : String} {e : Raised} (h : windowOf A.tz monthKey = .error e)
    (faults : List Bool) (now : DateTime) (w : World) :
    (under faults (A.archiveMonth now monthKey) w).2 = { w with faults := [] } ∧
      (under faults (A.archiveMonthDry now monthKey) w).2 = { w with faults := [] } := by
  have hthrow : exec (Act.ofExcept (windowOf A.tz monthKey)) { w with faults } =
      (.error e, { w with faults }) := by
    rw [h]
    rfl
  unfold under
  constructor
  · rw [AuditArchiver.archiveMonth, exec_bind_error hthrow]
  · rw [AuditArchiver.archiveMonthDry, exec_bind_error hthrow]

/-- Only the table is changed, and events go from windows of listed months alone. -/
structure Purged (recorded : List (AuditArchiveWindow × Nat)) (dryRun : Bool) (v₀ v : View) :
    Prop where
  files : v.files = v₀.files
  sub : ∀ event ∈ v.events, event ∈ v₀.events
  gone : ∀ event ∈ v₀.events, event ∉ v.events → dryRun = false ∧
    ∃ entry ∈ recorded, AuditArchiver.inWindow entry.1.start entry.1.stop event = true

theorem Purged.drop {v₀ v : View} (h : Purged recorded false v₀ v)
    (entry : AuditArchiveWindow × Nat) (hentry : entry ∈ recorded) :
    Purged recorded false v₀ (v.drop entry.1.start entry.1.stop) := by
  refine ⟨h.files, fun event hevent => h.sub event (List.mem_of_mem_filter hevent), ?_⟩
  intro event hevent hnot
  by_cases hstill : event ∈ v.events
  · refine ⟨rfl, entry, hentry, ?_⟩
    by_contra hout
    exact hnot (List.mem_filter.mpr ⟨hstill, by simpa using hout⟩)
  · exact h.gone event hevent hstill

theorem meets_enforce (E : AuditRetentionEnforcer) (v₀ : View) (now : DateTime) (dryRun : Bool)
    (hlists : ∀ v, Purged recorded dryRun v₀ v → E.archiver.Lists recorded v)
    (hwindows : ∀ entry ∈ recorded, windowOf E.archiver.tz entry.1.monthKey = .ok entry.1) :
    Keeps (Seen (Purged recorded dryRun v₀)) (E.enforce now dryRun) := by
  refine (AuditRetentionEnforcer.meets_listPartitions hlists hwindows).bind fun partitions =>
    .of_and fun hpartitions => ?_
  subst hpartitions
  cases dryRun with
  | true => exact .pure fun _ hw => hw
  | false =>
    refine (AuditRetentionEnforcer.meets_enforceEntries _ ?_).bind fun _ => .pure fun _ hw => hw
    intro entry hentry v hv
    obtain ⟨p, hp, reason, rfl⟩ := AuditArchiveConfig.entryOf_plan hentry
    obtain ⟨listed, hlisted, rfl⟩ := List.mem_map.mp hp
    exact hv.drop listed hlisted

theorem enforce_outcome (h : Catalogued A log recorded) (faults : List Bool)
    (config : AuditArchiveConfig) (now : DateTime) (dryRun : Bool) :
    Purged recorded dryRun log.world.view (under faults
      (AuditRetentionEnforcer.enforce ⟨A, config⟩ now dryRun) log.world).2.view := by
  have hkeeps := meets_enforce ⟨A, config⟩ log.world.view now dryRun
    (fun v hv => by
      rw [AuditArchiver.Lists, hv.files]
      exact h.lists)
    fun entry hentry => h.windows _ (h.archived entry hentry)
  exact keeps_under hkeeps ⟨rfl, fun _ h => h, fun _ hmem hnot => absurd hmem hnot⟩ faults

/-- What an attempt to archive a month does: the table stays, the files of months lose no event
that is in the table, and what is listed anew has its files. -/
structure Archived (A : AuditArchiver) (window : AuditArchiveWindow)
    (recorded recorded' : List (AuditArchiveWindow × Nat)) (v₀ v : View) : Prop where
  events : v.events = v₀.events
  files : ∀ kind other event, windowOf A.tz other.monthKey = .ok other →
    (other = window → event ∈ v₀.events ∧
      AuditArchiver.inWindow window.start window.stop event = true) →
    A.InFile v₀ kind other event → A.InFile v kind other event
  listed : ∀ entry ∈ recorded', entry ∈ recorded ∨
    (entry.1 = window ∧ ∀ kind, A.Wrote window v₀ kind v)

theorem Catalogued.archive (h : Catalogued A log recorded)
    (hwindow : windowOf A.tz window.monthKey = .ok window) (faults : List Bool)
    (now : DateTime) :
    ∃ recorded', Catalogued A (log.next A (.archive faults now window.monthKey)) recorded' ∧
      Archived A window recorded recorded' log.world.view
        (log.next A (.archive faults now window.monthKey)).world.view := by
  have hwindows : ∀ other ∈ window :: log.archived, windowOf A.tz other.monthKey = .ok other :=
    List.forall_mem_cons.mpr ⟨hwindow, h.windows⟩
  rcases archive_outcome hwindow h.lists faults now with hrecorded | hkeeping
  · obtain ⟨size, before, hbefore, hprints, hview⟩ := hrecorded
    have hkept := hbefore.written.keeping
    refine ⟨AuditArchiver.record window size recorded,
      ⟨.inr ⟨?_, hprints⟩, ?_, ?_, nodup_record size h.nodup, sortedBy_pairwise _ _, rfl⟩,
      ?_, ?_, ?_⟩
    · rw [AuditLog.next, hview]
      exact if_pos rfl
    · simpa only [AuditLog.next, hwindow] using hwindows
    · intro entry hentry
      simp only [AuditLog.next, hwindow]
      rcases mem_record.mp hentry with ⟨hold, -⟩ | rfl
      · exact List.mem_cons_of_mem _ (h.archived entry hold)
      · exact List.mem_cons_self
    · rw [AuditLog.next, hview]
      exact hkept.events
    · intro kind other event hother hin hfile
      rw [AuditLog.next, hview]
      exact (hkept.files kind other event hother hin hfile).write
        AuditArchiver.pathOf_ne_partitions.symm
    · intro entry hentry
      refine (mem_record.mp hentry).imp And.left fun heq => ⟨by rw [heq], fun kind => ?_⟩
      rw [AuditLog.next, hview]
      exact (hbefore.written.wrote kind).write AuditArchiver.pathOf_ne_partitions.symm
  · refine ⟨recorded, ⟨hkeeping.lists h.lists, ?_, ?_, h.nodup, h.sorted, rfl⟩,
      hkeeping.events, hkeeping.files, fun _ hentry => .inl hentry⟩
    · simpa only [AuditLog.next, hwindow] using hwindows
    · intro entry hentry
      simp only [AuditLog.next, hwindow]
      exact List.mem_cons_of_mem _ (h.archived entry hentry)

/-- The table, the list of partitions and the files of months are as they were. -/
structure Untouched (A : AuditArchiver) (v₀ v : View) : Prop where
  events : v.events = v₀.events
  partitions : v.files A.partitionsPath = v₀.files A.partitionsPath
  files : ∀ kind other event, A.InFile v₀ kind other event → A.InFile v kind other event

theorem dryRun_untouched (log : AuditLog) (faults : List Bool) (now : DateTime)
    (monthKey : String) :
    Untouched A log.world.view (log.next A (.dryRun faults now monthKey)).world.view := by
  cases hkey : windowOf A.tz monthKey with
  | error e =>
    rw [AuditLog.next, (invalid_key hkey faults now log.world).2]
    exact ⟨rfl, rfl, fun _ _ _ h => h⟩
  | ok window =>
    obtain ⟨rfl, -⟩ := windowOf_eq_ok hkey
    have hcleaned : ∀ v, A.Cleaned window log.world.view v → Untouched A log.world.view v := by
      rintro v (rfl | rfl)
      · exact ⟨rfl, rfl, fun _ _ _ h => h⟩
      · exact ⟨rfl, AuditArchiver.clean_partitions _ _, fun _ _ _ h => h.clean _⟩
    rcases dryRun_outcome log hkey faults now with hview | ⟨before, hbefore, hview, -⟩
    · exact hcleaned _ hview
    · obtain ⟨hevents, hpartitions, hfiles⟩ := hcleaned before hbefore
      rw [AuditLog.next, hview]
      refine ⟨hevents, (if_neg AuditArchiver.manifest_ne_partitions.symm).trans hpartitions,
        fun kind other event h =>
          (hfiles kind other event h).write AuditArchiver.pathOf_ne_manifest.symm⟩

/-- Every step keeps the catalogue. -/
theorem Catalogued.next (h : Catalogued A log recorded) (op : Operation) :
    ∃ recorded', Catalogued A (log.next A op) recorded' := by
  have hkeep : ∀ v, v.files A.partitionsPath = log.world.view.files A.partitionsPath →
      A.Lists recorded v := by
    intro v hv
    rw [AuditArchiver.Lists, hv]
    exact h.lists
  cases op with
  | insert event =>
    exact ⟨recorded, hkeep _ rfl, h.windows, h.archived, h.nodup, h.sorted, h.calm⟩
  | archive faults now monthKey =>
    cases hkey : windowOf A.tz monthKey with
    | error e =>
      refine ⟨recorded, ?_, ?_, ?_, h.nodup, h.sorted, rfl⟩
      · rw [AuditLog.next, (invalid_key hkey faults now log.world).1]
        exact h.lists
      · simpa only [AuditLog.next, hkey] using h.windows
      · simpa only [AuditLog.next, hkey] using h.archived
    | ok window =>
      obtain ⟨rfl, -⟩ := windowOf_eq_ok hkey
      obtain ⟨recorded', hcatalogued, -⟩ := h.archive hkey faults now
      exact ⟨recorded', hcatalogued⟩
  | dryRun faults now monthKey =>
    exact ⟨recorded, hkeep _ (dryRun_untouched log faults now monthKey).partitions, h.windows,
      h.archived, h.nodup, h.sorted, rfl⟩
  | enforce faults config now dryRun =>
    have hpurged := enforce_outcome h faults config now dryRun
    refine ⟨recorded, hkeep _ ?_, h.windows, h.archived, h.nodup, h.sorted, rfl⟩
    rw [AuditLog.next, hpurged.files]

theorem catalogued_start {disk : Disk} {release : Option (List UInt8)}
    (hdisk : disk.read A.partitionsPath = none) : Catalogued A (start disk release) [] :=
  ⟨.inl ⟨hdisk, rfl⟩, fun _ h => absurd h List.not_mem_nil, fun _ h => absurd h List.not_mem_nil,
    List.nodup_nil, .nil, rfl⟩

/-- Partitions that are months of the archive, each once and with its window. -/
structure Reliable (A : AuditArchiver) (log : AuditLog) (partitions : List PartitionInfo) :
    Prop where
  months : (partitions.map PartitionInfo.monthKey).Nodup
  sizes : ∀ p ∈ partitions, 0 ≤ p.sizeBytes
  windows : ∀ p ∈ partitions, ∃ window ∈ log.archived, p.monthKey = .text window.monthKey ∧
    windowOf A.tz window.monthKey = .ok window ∧ p.start = window.start ∧ p.stop = window.stop
  calendar : InCalendarOrder partitions
  apart : ∀ p ∈ partitions, ∀ q ∈ partitions, (p.start = q.start ∧ p.stop = q.stop) ∨
    p.stop.instant ≤ q.start.instant ∨ q.stop.instant ≤ p.start.instant
  sorted : partitions.Pairwise fun p q => p.start.isoformat ≤ q.start.isoformat

theorem Catalogued.reliable (h : Catalogued A log recorded) :
    Reliable A log (recorded.map AuditRetentionEnforcer.partitionInfo) := by
  have hwindows : ∀ p ∈ recorded.map AuditRetentionEnforcer.partitionInfo,
      ∃ window ∈ log.archived, p.monthKey = .text window.monthKey ∧
        windowOf A.tz window.monthKey = .ok window ∧ p.start = window.start ∧
          p.stop = window.stop := by
    intro p hp
    obtain ⟨entry, hentry, rfl⟩ := List.mem_map.mp hp
    have harchived := h.archived entry hentry
    exact ⟨entry.1, harchived, rfl, h.windows _ harchived, rfl, rfl⟩
  refine ⟨?_, ?_, hwindows, @inCalendarOrder_of_windows A.tz _ ?_, ?_, ?_⟩
  · have hkeys : recorded.map (PartitionInfo.monthKey ∘ AuditRetentionEnforcer.partitionInfo) =
        (recorded.map fun entry => entry.1.monthKey).map MonthKey.text := by
      rw [List.map_map]
      rfl
    rw [List.map_map, hkeys]
    exact h.nodup.map fun _ _ => MonthKey.text.inj
  · intro p hp
    obtain ⟨entry, -, rfl⟩ := List.mem_map.mp hp
    exact Int.natCast_nonneg _
  · intro p hp
    obtain ⟨window, -, -, hwindow, hstart, -⟩ := hwindows p hp
    exact ⟨_, window, hwindow, hstart⟩
  · intro p hp q hq
    obtain ⟨window, -, -, hwindow, hstart, hstop⟩ := hwindows p hp
    obtain ⟨window', -, -, hwindow', hstart', hstop'⟩ := hwindows q hq
    rw [hstart, hstop, hstart', hstop']
    refine (windowOf_order hwindow hwindow').2.imp_left fun heq => ?_
    rw [heq]
    exact ⟨rfl, rfl⟩
  · exact List.pairwise_map.mpr h.sorted

theorem catalogued_run {disk : Disk} {release : Option (List UInt8)}
    {trace : List (AuditLog × Operation)} (hdisk : disk.read A.partitionsPath = none)
    (run : Run (fun log op after => after = log.next A op) (start disk release) trace log) :
    Throughout (fun log => ∃ recorded, Catalogued A log recorded) trace log :=
  run.invariant (C := fun _ _ => True) ⟨[], catalogued_start hdisk⟩
    (fun _ op _ ⟨_, h⟩ _ hstep => hstep ▸ h.next op) fun _ _ => trivial

/-- What `_list_partitions` reads are months of the archive, unless a directory is in the way. -/
def ListsReliably (A : AuditArchiver) (config : AuditArchiveConfig) (log : AuditLog) : Prop :=
  (∃ partitions, exec (AuditRetentionEnforcer.listPartitions ⟨A, config⟩) log.world =
    (.ok partitions, log.world) ∧ Reliable A log partitions) ∨
  (exec (AuditRetentionEnforcer.listPartitions ⟨A, config⟩) log.world =
    (.error .osError, log.world) ∧ log.world.disk.get A.partitionsPath = some .directory)

theorem Catalogued.listsReliably (h : Catalogued A log recorded) (config : AuditArchiveConfig) :
    ListsReliably A config log := by
  refine (AuditRetentionEnforcer.exec_listPartitions (E := ⟨A, config⟩) h.calm h.lists fun entry
      hentry => h.windows _ (h.archived entry hentry)).imp_left fun hlisted => ?_
  exact ⟨_, hlisted, h.reliable⟩

/-- They are in every state of every run. -/
theorem partitions_reliable {disk : Disk} {release : Option (List UInt8)}
    {trace : List (AuditLog × Operation)} (hdisk : disk.read A.partitionsPath = none)
    (run : Run (fun log op after => after = log.next A op) (start disk release) trace log)
    (config : AuditArchiveConfig) : Throughout (ListsReliably A config) trace log :=
  (catalogued_run hdisk run).imp fun _ ⟨_, h⟩ => h.listsReliably config

def utcLibrary : Library where
  sha256 _ := "d"
  sha256_ne _ := by decide
  blake2b := id
  nfkc := id
  floatRepr := id
  floatInt _ := none
  floatInteger _ := none
  localIso := Text.intText
  fromisoformat := DateTime.ofMidnight
  fromNaive _ := none

/-- An archiver of days in UTC, whose digests are all one. -/
def utcArchiver : AuditArchiver where
  lib := utcLibrary
  tz := utc
  config := ⟨⟨true, ["a"]⟩, false, 1, "1", some 365, none, none, 3⟩
  dialect := .sqlite
  fromisoformat_isoformat _ _ h := by
    have hread : utcLibrary.fromisoformat = DateTime.ofMidnight := rfl
    rw [hread]
    exact ofMidnight_windowOf h

def login : AuditEvent :=
  ⟨1, 63840830400000000, "A", none, "L", "s", "1", none, "r", "O", none, none⟩

def exported : AuditEvent :=
  ⟨2, 63843163200000000, "M", some "7", "E", "e", "9", some "j", "r", "O", none, some "a"⟩

def archive2026 (faults : List Bool) (monthKey : String) : Operation :=
  .archive faults ⟨2026, 1, 1, 0, 0⟩ monthKey

def emptyLog : AuditLog := start ⟨fun _ => none⟩ none

def filledLog : AuditLog :=
  (emptyLog.next utcArchiver (.insert login)).next utcArchiver (.insert exported)

def filling : List (AuditLog × Operation) :=
  [] ++ [(emptyLog, .insert login)] ++
    [(emptyLog.next utcArchiver (.insert login), .insert exported)]

theorem run_filling :
    Run (fun log op after => after = log.next utcArchiver op) emptyLog filling filledLog :=
  (Run.nil.snoc rfl).snoc rfl

/-- The write of the CSV file fails, behind that of the JSON file, in each of three attempts. -/
def csvFaults : List Bool :=
  List.replicate 5 false ++ (List.replicate 3 [false, false, true]).flatten

/-- February could not be archived. -/
def missedLog : AuditLog := filledLog.next utcArchiver (archive2026 csvFaults "2024_02")

def januaryLog : AuditLog := missedLog.next utcArchiver (archive2026 [] "2024_01")

/-- Nothing fails any more, and both months are archived. -/
def archivedLog : AuditLog := januaryLog.next utcArchiver (archive2026 [] "2024_02")

def missing : List (AuditLog × Operation) :=
  filling ++ [(filledLog, archive2026 csvFaults "2024_02")]

def archivingJanuary : List (AuditLog × Operation) :=
  missing ++ [(missedLog, archive2026 [] "2024_01")]

def archiving : List (AuditLog × Operation) :=
  archivingJanuary ++ [(januaryLog, archive2026 [] "2024_02")]

theorem run_missing :
    Run (fun log op after => after = log.next utcArchiver op) emptyLog missing missedLog :=
  run_filling.snoc rfl

theorem run_archivingJanuary :
    Run (fun log op after => after = log.next utcArchiver op) emptyLog archivingJanuary
      januaryLog :=
  run_missing.snoc rfl

theorem run_archiving :
    Run (fun log op after => after = log.next utcArchiver op) emptyLog archiving archivedLog :=
  run_archivingJanuary.snoc rfl

theorem partitions_reliable_sample :
    Throughout (ListsReliably utcArchiver utcArchiver.config) archiving archivedLog :=
  partitions_reliable (Disk.read_empty _) run_archiving utcArchiver.config

end AuditLog

end Audit

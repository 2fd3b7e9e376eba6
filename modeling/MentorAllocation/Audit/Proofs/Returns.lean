import MentorAllocation.Audit.Proofs.Manifest
import MentorAllocation.Audit.Proofs.ReleaseManifest

namespace Audit
open Concurrency Data Effects Files Text

/-- Where an archive keeps files: those of its months, and the list of partitions. -/
def AuditArchiver.Holds (A : AuditArchiver) (path : PurePath) : Prop :=
  path = A.partitionsPath ∨ path.parts.length = A.config.archiveRoot.parts.length + 4

/-- Nothing fails, nothing is in the way of the archive's files, and the release manifest can be
updated. -/
structure Ready (A : AuditArchiver) (w : World) : Prop where
  calm : w.faults = []
  apart : w.disk.Apart A.Holds
  release : Releasable A.lib w.release

section
variable {A : AuditArchiver} {window : AuditArchiveWindow} {path : PurePath} {P : View → Prop}
  {v₀ : View} {now : DateTime} {recorded : List (AuditArchiveWindow × Nat)}

theorem length_partitionsPath (A : AuditArchiver) :
    A.partitionsPath.parts.length = A.config.archiveRoot.parts.length + 2 := by
  simp [AuditArchiver.partitionsPath, PurePath.child]

theorem holds_of_parent (h : path.parent = A.baseOf window) : A.Holds path := by
  have hlength := congrArg (fun path => path.parts.length) h
  dsimp only [PurePath.parent] at hlength
  rw [List.length_dropLast, length_baseOf] at hlength
  exact .inr (by omega)

/-- No path above a month is for files. -/
theorem not_holds_above {parts : List String} (h : parts ∈ (A.baseOf window).parts.inits) :
    ¬A.Holds ⟨(A.baseOf window).absolute, parts⟩ := by
  rintro (hpartitions | hlength)
  · exact (elsewhere_above window window h).2 hpartitions
  · have hle := ((List.mem_inits _ _).mp h).length_le
    rw [length_baseOf] at hle
    dsimp only at hlength
    omega

theorem not_holds_above_partitions {parts : List String}
    (h : parts ∈ A.partitionsPath.parent.parts.inits) :
    ¬A.Holds ⟨A.partitionsPath.parent.absolute, parts⟩ := by
  have hle := ((List.mem_inits _ _).mp h).length_le
  rw [PurePath.parent, List.length_dropLast, length_partitionsPath] at hle
  rintro (hpartitions | hlength)
  · have hsame := congrArg (fun path => path.parts.length) hpartitions
    dsimp only at hsame
    rw [length_partitionsPath] at hsame
    omega
  · dsimp only at hlength
    omega

theorem apart_empty (A : AuditArchiver) : Disk.Apart A.Holds ⟨fun _ => none⟩ := by
  refine Disk.apart_empty fun path hpath hnil => ?_
  have hzero : path.parts.length = 0 := by rw [hnil, List.length_nil]
  rcases hpath with rfl | hlength
  · rw [length_partitionsPath] at hzero
    omega
  · omega

theorem returns_call (raised : Raised) :
    Returns (Ready A) (Act.call raised) fun _ => Ready A :=
  .of_exec fun w hw => ⟨(), w, exec_call hw.calm raised, hw⟩

/-- A change of the disk for which there is room, and which leaves the archive room. -/
def Fitting (A : AuditArchiver) (f : Disk → Option Disk) : Prop :=
  ∀ disk : Disk, disk.Apart A.Holds → ∃ e, f disk = some e ∧ e.Apart A.Holds

theorem fitting_mkdir : Fitting A fun disk => disk.mkdir (A.baseOf window) :=
  fun _ h => h.mkdir fun _ => not_holds_above

theorem fitting_unlinkIn (test : String → Bool) :
    Fitting A fun disk => some (disk.unlinkIn (A.baseOf window) test) :=
  fun _ h => ⟨_, rfl, h.unlinkIn _ test⟩

theorem fitting_write (h : path.parent = A.baseOf window) (contents : List UInt8) :
    Fitting A fun disk => disk.atomicWrite path contents := by
  refine fun disk hdisk => hdisk.atomicWrite (holds_of_parent h) ?_ contents
  rw [h]
  exact fun _ => not_holds_above

theorem fitting_writePartitions (contents : List UInt8) :
    Fitting A fun disk => disk.atomicWrite A.partitionsPath contents :=
  fun _ h => h.atomicWrite (.inl rfl) (fun _ => not_holds_above_partitions) contents

theorem returns_onDisk {f : Disk → Option Disk} (h : Fitting A f) :
    Returns (Ready A) (Act.onDisk f) fun _ => Ready A := by
  refine .of_exec fun w hw => ?_
  obtain ⟨e, hmade, he⟩ := h w.disk hw.apart
  refine ⟨(), { w with disk := e }, ?_, hw.calm, he, hw.release⟩
  rw [exec_onDisk hw.calm, hmade]

theorem returns_artifactPath (path : PurePath) :
    Returns (Ready A) (A.artifactPath window path) fun _ => Ready A :=
  (returns_onDisk fitting_mkdir).bind fun _ => .pure fun _ h => h

theorem returns_cleanupParts : Returns (Ready A) (A.cleanupParts window) fun _ => Ready A :=
  (returns_artifactPath _).bind fun _ => (returns_onDisk (fitting_unlinkIn _)).tryCatch _

theorem returns_artifactOf {bytes : List UInt8} (h : ∀ v, P v → v.files path = some bytes) :
    Returns (fun w => Ready A w ∧ Seen P w) (A.artifactOf path) fun found w =>
      (Ready A w ∧ Seen P w) ∧ found = ⟨path, A.lib.sha256 bytes, bytes.length⟩ := by
  refine .of_exec fun w hw => ⟨_, w, ?_, hw, rfl⟩
  have hread : w.disk.read path = some bytes := h _ hw.2
  rw [AuditArchiver.artifactOf, exec_bind_ok (exec_call hw.1.calm _), exec_bind_ok (exec_get w),
    hread]
  rfl

theorem returns_atomicWriteJson {payload : Json} (hprints : printable payload = true)
    (h : ∀ contents, Fitting A fun disk => disk.atomicWrite path contents) :
    Returns (Ready A) (AuditArchiver.atomicWriteJson path payload) fun _ => Ready A := by
  unfold AuditArchiver.atomicWriteJson
  rw [hprints]
  exact (returns_onDisk (h _)).bind fun _ => .pure fun _ hw => hw

/-- An artifact whose file is there is entered into the release manifest. -/
theorem returns_updateEntry {artifact : AuditArchiveArtifact} {bytes : List UInt8} (kind : String)
    (h : ∀ v, P v → v.files artifact.path = some bytes) (hsize : (intStr bytes.length).isSome) :
    Returns (fun w => Ready A w ∧ Seen P w) (A.updateEntry now artifact kind)
      fun _ => Ready A := by
  refine (returns_artifactOf h).bind fun found => .of_and fun hfound => ?_
  subst hfound
  refine ((returns_call _).mono (fun _ h => h.1) (fun _ _ h => h) fun _ h => h).bind fun _ =>
    Returns.of_exec fun w hw => ?_
  obtain ⟨release, hupdate, hrelease⟩ := update_releasable ⟨artifact.path.asPosix,
    artifact.sha256, bytes.length, now.isoformat, kind⟩ hw.release hsize
  refine ⟨⟨⟩, { w with release := some release }, ?_, hw.calm, hw.apart, hrelease⟩
  rw [exec_bind_ok (exec_get w)]
  dsimp only
  rw [hupdate]
  rfl

theorem returns_writeArtifacts (hwindow : windowOf A.tz window.monthKey = .ok window) :
    Returns (fun w => Ready A w ∧ Seen (A.Keeping window v₀) w) (A.writeArtifacts window)
      fun found w => (Ready A w ∧ Seen (A.Written window v₀) w) ∧
        found = ((A.rowsOf window v₀.events).length, A.artifact window v₀ .csv,
          A.artifact window v₀ .json) := by
  refine ((returns_call _).and (meets_call _)).bind fun _ => .get fun w hw => ?_
  have hevents : w.events = v₀.events := hw.2.events
  rw [hevents]
  have hartifact : ∀ kind, Returns (fun w => Ready A w ∧ Seen (A.Written window v₀) w)
      (A.artifactOf (A.pathOf kind window)) fun found w =>
        (Ready A w ∧ Seen (A.Written window v₀) w) ∧ found = A.artifact window v₀ kind :=
    fun kind => returns_artifactOf fun _ hv => hv.wrote kind
  refine (((returns_onDisk (fitting_write (parent_pathOf .json) _)).and
    (AuditArchiver.meets_writeJson hwindow)).here hw).bind fun _ => ?_
  refine ((returns_onDisk (fitting_write (parent_pathOf .csv) _)).and
    (AuditArchiver.meets_writeCsv hwindow)).bind fun _ => ?_
  refine (hartifact .csv).bind fun csv => .of_and fun hcsv => ?_
  refine (hartifact .json).bind fun json => .of_and fun hjson => ?_
  subst hcsv hjson
  exact .pure fun _ h => ⟨h, rfl⟩

theorem returns_recordPartitionMetadata (result : AuditArchiveResult) {size : Nat}
    (hsize : size = result.csv.sizeBytes + result.json.sizeBytes + result.manifest.sizeBytes)
    (hlists : ∀ v, P v → A.Lists recorded v)
    (hprints : printable (.arr (AuditArchiver.partitionsJson
      (AuditArchiver.record result.window size recorded))) = true) :
    Returns (fun w => Ready A w ∧ Seen P w) (A.recordPartitionMetadata result)
      fun _ => Ready A := by
  refine ((returns_call _).and (meets_call _)).bind fun _ => .get fun w hw => ?_
  have hcode := AuditArchiver.record_eq (hlists _ hw.2) result hsize
  dsimp only [World.view] at hcode
  dsimp only
  rw [hcode]
  exact ((returns_atomicWriteJson hprints fitting_writePartitions).here hw.1).bind fun _ =>
    .pure fun _ hs => hs

/-- The numbers that are written when a month is archived have at most 4300 digits. -/
structure Fits (A : AuditArchiver) (now : DateTime) (window : AuditArchiveWindow) (v₀ : View) :
    Prop where
  manifest : printable (A.manifest now window v₀) = true
  total : (intStr ((A.artifact window v₀ .csv).sizeBytes + (A.artifact window v₀ .json).sizeBytes +
    (encode (Json.dumps .compact (A.manifest now window v₀))).length : Nat)).isSome = true

theorem Fits.congr {v : View} (h : Fits A now window v₀) (hevents : v.events = v₀.events) :
    Fits A now window v := by
  have hartifact : ∀ kind, A.artifact window v kind = A.artifact window v₀ kind := by
    intro kind
    rw [AuditArchiver.artifact, AuditArchiver.artifact, hevents]
  have hmanifest : A.manifest now window v = A.manifest now window v₀ := by
    rw [AuditArchiver.manifest, AuditArchiver.manifest, hartifact, hartifact, hevents]
  refine ⟨hmanifest ▸ h.manifest, ?_⟩
  rw [hartifact, hartifact, hmanifest]
  exact h.total

theorem Fits.size (h : Fits A now window v₀) (kind : FileKind) :
    (intStr (A.artifact window v₀ kind).sizeBytes).isSome := by
  have hprints := h.manifest
  simp only [AuditArchiver.manifest, AuditArchiver.buildManifestPayload, printable,
    printableMembers, printableItems, AuditArchiver.artifactJson, Bool.and_eq_true,
    Bool.true_and, Bool.and_true] at hprints
  cases kind with
  | csv => exact hprints.2.2.1
  | json => exact hprints.2.2.2

theorem printable_record {size : Nat} (hlists : A.Lists recorded v₀)
    (hsize : (intStr size).isSome = true) : printable (.arr (AuditArchiver.partitionsJson
      (AuditArchiver.record window size recorded))) = true := by
  rw [AuditArchiver.printable_partitions]
  intro entry hentry
  rcases AuditLog.mem_record.mp hentry with ⟨hold, -⟩ | rfl
  · rcases hlists with ⟨-, rfl⟩ | ⟨-, hprints⟩
    · cases hold
    · exact AuditArchiver.printable_partitions.mp hprints entry hold
  · exact hsize

theorem returns_archiveWindow (hwindow : windowOf A.tz window.monthKey = .ok window)
    (hlists : A.Lists recorded v₀) (hfits : Fits A now window v₀) :
    Returns (fun w => Ready A w ∧ Seen (A.Keeping window v₀) w) (A.archiveWindow now window)
      fun _ => Ready A := by
  refine (Returns.retrying (returns_writeArtifacts hwindow) _).bind fun found =>
    .of_and fun hfound => ?_
  subst hfound
  refine (Returns.retrying ((returns_atomicWriteJson hfits.manifest
    (fitting_write parent_manifestPath)).and AuditArchiver.meets_writeManifest) _).bind
      fun _ => ?_
  refine (returns_artifactOf fun _ hv => hv.manifest).bind fun manifest =>
    .of_and fun hfound => ?_
  subst hfound
  have hentry : ∀ kind text, Returns
      (fun w => Ready A w ∧ Seen (A.Verifiable now window v₀) w)
      (A.updateEntry now (A.artifact window v₀ kind) text)
      fun _ w => Ready A w ∧ Seen (A.Verifiable now window v₀) w := fun kind text =>
    ((returns_updateEntry text (fun _ hv => hv.written.wrote kind) (hfits.size kind)).and
      (AuditArchiver.keeps_updateEntry _ text)).mono (fun _ h => ⟨h, h.2⟩) (fun _ _ h => h)
        fun _ h => h
  refine (Returns.retrying ((hentry .csv _).bind fun _ => hentry .json _) _).bind fun _ => ?_
  refine (Returns.retrying ?_ _).bind fun _ => .pure fun _ h => h
  refine returns_recordPartitionMetadata _ ?_ (fun _ hv => hv.written.keeping.lists hlists)
    (printable_record hlists hfits.total)
  dsimp only

/-- Where nothing fails and nothing is in the way, a month is archived. -/
theorem returns_archiveMonth (hwindow : windowOf A.tz window.monthKey = .ok window)
    (hlists : A.Lists recorded v₀) (hfits : Fits A now window v₀) :
    Returns (fun w => Ready A w ∧ Seen (· = v₀) w) (A.archiveMonth now window.monthKey)
      fun _ => Ready A := by
  unfold AuditArchiver.archiveMonth
  rw [hwindow]
  have hpath : ∀ path, Returns (fun w => Ready A w ∧ Seen (A.Keeping window v₀) w)
      (A.artifactPath window path) fun _ w => Ready A w ∧ Seen (A.Keeping window v₀) w :=
    fun path => ((returns_artifactPath path).and (meets_artifactPath path)).mono (fun _ h => h)
      (fun _ _ h => ⟨h.1, h.2.1⟩) fun _ h => h
  refine Meets.mono (P := fun w => Ready A w ∧ Seen (A.Keeping window v₀) w) ?_ (fun w hw => ?_)
    (fun _ _ h => h) fun _ h => h
  · refine (hpath _).bind fun _ => (hpath _).bind fun _ => (hpath _).bind fun _ => ?_
    exact (returns_cleanupParts.and (meets_cleanupParts (fun _ hv => hv) fun _ hv =>
      hv.clean _)).bind fun _ => (returns_archiveWindow hwindow hlists hfits).tryCatch _
  · refine ⟨hw.1, ?_⟩
    have hsame : w.view = v₀ := hw.2
    rw [Seen, hsame]
    exact .refl

/-- Whether calls fail or not, the archive keeps its room. -/
def Roomy (A : AuditArchiver) (w : World) : Prop := w.disk.Apart A.Holds

theorem roomy_call (raised : Raised) : Keeps (Roomy A) (Act.call raised) :=
  keeps_call (fun _ _ h => h) raised

theorem roomy_onDisk {f : Disk → Option Disk} (h : Fitting A f) :
    Keeps (Roomy A) (Act.onDisk f) := by
  refine (roomy_call _).bind fun _ => .get fun w hw => ?_
  obtain ⟨e, hmade, he⟩ := h w.disk hw
  rw [hmade]
  exact .set he

theorem roomy_artifactPath (path : PurePath) : Keeps (Roomy A) (A.artifactPath window path) :=
  (roomy_onDisk fitting_mkdir).bind fun _ => .pure fun _ h => h

theorem roomy_cleanupParts : Keeps (Roomy A) (A.cleanupParts window) :=
  (roomy_artifactPath _).bind fun _ =>
    (roomy_onDisk (fitting_unlinkIn _)).tryCatch fun _ => .pure fun _ h => h

theorem roomy_artifactOf (path : PurePath) : Keeps (Roomy A) (A.artifactOf path) := by
  refine (roomy_call _).bind fun _ => .get fun w hw => ?_
  split
  · exact .pure fun _ h => h ▸ hw
  · exact .throw fun _ h => h ▸ hw

theorem roomy_atomicWriteJson {payload : Json}
    (h : ∀ contents, Fitting A fun disk => disk.atomicWrite path contents) :
    Keeps (Roomy A) (AuditArchiver.atomicWriteJson path payload) := by
  unfold AuditArchiver.atomicWriteJson
  split
  · exact .throw_bind fun _ hw => hw
  · exact (roomy_onDisk (h _)).bind fun _ => .pure fun _ hw => hw

theorem roomy_writeArtifacts : Keeps (Roomy A) (A.writeArtifacts window) := by
  refine (roomy_call _).bind fun _ => .get fun w hw => ?_
  refine ((roomy_onDisk (fitting_write (parent_pathOf .json) _)).here hw).bind fun _ => ?_
  exact (roomy_onDisk (fitting_write (parent_pathOf .csv) _)).bind fun _ =>
    (roomy_artifactOf _).bind fun _ => (roomy_artifactOf _).bind fun _ => .pure fun _ h => h

theorem roomy_updateEntry (artifact : AuditArchiveArtifact) (kind : String) :
    Keeps (Roomy A) (A.updateEntry now artifact kind) := by
  refine (roomy_artifactOf _).bind fun _ => (roomy_call _).bind fun _ => .get fun w hw => ?_
  exact ((keeps_ofExcept _).here hw).bind fun _ => .set hw

theorem roomy_recordPartitionMetadata (result : AuditArchiveResult) :
    Keeps (Roomy A) (A.recordPartitionMetadata result) := by
  refine (roomy_call _).bind fun _ => .get fun w hw => ?_
  refine ((keeps_ofExcept _).here hw).bind fun _ => (keeps_ofExcept _).bind fun _ =>
    (keeps_ofExcept _).bind fun _ => ?_
  exact (roomy_atomicWriteJson fitting_writePartitions).bind fun _ => .pure fun _ h => h

theorem roomy_archiveMonth (hwindow : windowOf A.tz window.monthKey = .ok window) :
    Keeps (Roomy A) (A.archiveMonth now window.monthKey) := by
  unfold AuditArchiver.archiveMonth
  rw [hwindow]
  have hrelease : ∀ result, Keeps (Roomy A) (A.updateRelease now result) := fun result =>
    (roomy_updateEntry _ _).bind fun _ => roomy_updateEntry _ _
  have harchive : Keeps (Roomy A) (A.archiveWindow now window) :=
    (roomy_writeArtifacts.retrying _).bind fun _ =>
      ((roomy_atomicWriteJson (fitting_write parent_manifestPath)).retrying _).bind fun _ =>
        (roomy_artifactOf _).bind fun _ => ((hrelease _).retrying _).bind fun _ =>
          ((roomy_recordPartitionMetadata _).retrying _).bind fun _ => .pure fun _ h => h
  refine (roomy_artifactPath _).bind fun _ => (roomy_artifactPath _).bind fun _ =>
    (roomy_artifactPath _).bind fun _ => roomy_cleanupParts.bind fun _ => ?_
  exact harchive.tryCatch fun _ => .throw fun _ h => h

theorem roomy_archiveMonthDry (hwindow : windowOf A.tz window.monthKey = .ok window) :
    Keeps (Roomy A) (A.archiveMonthDry now window.monthKey) := by
  unfold AuditArchiver.archiveMonthDry
  rw [hwindow]
  have hcount : Keeps (Roomy A) (AuditArchiver.countRows window) :=
    (roomy_call _).bind fun _ => .get fun w hw => .pure fun _ h => h ▸ hw
  have hpath : ∀ path, Meets (Roomy A) (A.artifactPath window path)
      (fun found w => Roomy A w ∧ found = path) (Roomy A) := fun path =>
    (roomy_onDisk fitting_mkdir).bind fun _ => .pure fun _ h => ⟨h, rfl⟩
  refine (roomy_artifactPath _).bind fun _ => (roomy_artifactPath _).bind fun _ =>
    (hpath _).bind fun manifestPath => .of_and fun hmanifest => ?_
  subst hmanifest
  refine roomy_cleanupParts.bind fun _ => (hcount.retrying _).bind fun _ => ?_
  exact ((roomy_atomicWriteJson (fitting_write parent_manifestPath)).retrying _).bind fun _ =>
    (roomy_artifactOf _).bind fun _ => .pure fun _ h => h

theorem roomy_verifyArchive {E : AuditRetentionEnforcer} (monthKey : MonthKey) :
    Keeps (Roomy E.archiver) (E.verifyArchive monthKey) := by
  unfold AuditRetentionEnforcer.verifyArchive
  cases monthKey with
  | text key =>
    refine (keeps_ofExcept _).bind fun window => (roomy_artifactPath _).bind fun _ =>
      (roomy_call _).bind fun _ => .get fun w hw => ?_
    dsimp only
    split
    · exact .pure fun _ h => h ▸ hw
    · exact .throw fun _ h => h ▸ hw
    · exact (keeps_ofExcept _).here hw
  | nan => exact .throw fun _ h => h
  | other dumped => exact .throw fun _ h => h

theorem roomy_dropPartition {E : AuditRetentionEnforcer} (entry : RetentionPlanEntry) :
    Keeps (Roomy E.archiver) (E.dropPartition entry) := by
  refine (roomy_call _).bind fun _ => .get fun w hw => ?_
  dsimp only
  split
  · exact .throw_bind fun _ h => h ▸ hw
  · exact .set hw

theorem roomy_enforce (E : AuditRetentionEnforcer) (now : DateTime) (dryRun : Bool) :
    Keeps (Roomy E.archiver) (E.enforce now dryRun) := by
  have hlist : Keeps (Roomy E.archiver) E.listPartitions := by
    refine (roomy_call _).bind fun _ => .get fun w hw => ?_
    split
    · exact .pure fun _ h => h ▸ hw
    · exact .throw fun _ h => h ▸ hw
    · exact (keeps_ofExcept _).here hw
  have hentries : ∀ entries, Keeps (Roomy E.archiver) (E.enforceEntries entries) := by
    intro entries
    induction entries with
    | nil => exact .pure fun _ h => h
    | cons entry rest ih =>
      refine ((roomy_verifyArchive _).retrying _).bind fun verified => ?_
      cases verified with
      | false => exact .throw_bind fun _ h => h
      | true => exact ((roomy_dropPartition entry).retrying _).bind fun _ => ih
  refine hlist.bind fun partitions => ?_
  dsimp only
  split
  · exact .pure fun _ h => h
  · exact (hentries _).bind fun _ => .pure fun _ h => h

end

namespace AuditLog
variable {A : AuditArchiver} {log : AuditLog} {window : AuditArchiveWindow} {now : DateTime}
  {monthKey : String}

theorem roomy_under {α : Type} {act : Act α} {w : World} (h : Keeps (Roomy A) act)
    (hw : Roomy A w) (faults : List Bool) : Roomy A (under faults act w).2 :=
  h.exec (s := { w with faults }) hw

theorem roomy_next (h : Roomy A log.world) (op : Operation) : Roomy A (log.next A op).world := by
  cases op with
  | insert event => exact h
  | archive faults now monthKey =>
    cases hkey : windowOf A.tz monthKey with
    | error e =>
      rw [AuditLog.next, (invalid_key hkey faults now log.world).1]
      exact h
    | ok window =>
      obtain ⟨rfl, -⟩ := windowOf_eq_ok hkey
      exact roomy_under (roomy_archiveMonth hkey) h faults
  | dryRun faults now monthKey =>
    cases hkey : windowOf A.tz monthKey with
    | error e =>
      rw [AuditLog.next, (invalid_key hkey faults now log.world).2]
      exact h
    | ok window =>
      obtain ⟨rfl, -⟩ := windowOf_eq_ok hkey
      exact roomy_under (roomy_archiveMonthDry hkey) h faults
  | enforce faults config now dryRun =>
    exact roomy_under (A := A) (roomy_enforce ⟨A, config⟩ now dryRun) h faults

theorem archive_events {disk : Disk} {release : Option (List UInt8)}
    {trace : List (AuditLog × Operation)} (hdisk : disk.read A.partitionsPath = none)
    (run : Run (fun log op after => after = log.next A op) (start disk release) trace log)
    (hwindow : windowOf A.tz monthKey = .ok window) (faults : List Bool) (now : DateTime) :
    (log.next A (.archive faults now monthKey)).world.events = log.world.events := by
  obtain ⟨rfl, -⟩ := windowOf_eq_ok hwindow
  obtain ⟨recorded, hcatalogued⟩ := (catalogued_run hdisk run).2
  obtain ⟨recorded', -, harchived⟩ := hcatalogued.archive hwindow faults now
  exact harchived.events

/-- Whatever has failed before, a month is archived once nothing fails, and the release manifest
can be updated again. -/
theorem archive_returns {disk : Disk} {release : Option (List UInt8)}
    {trace : List (AuditLog × Operation)} (hroom : disk.Apart A.Holds)
    (hdisk : disk.read A.partitionsPath = none)
    (run : Run (fun log op after => after = log.next A op) (start disk release) trace log)
    (hwindow : windowOf A.tz monthKey = .ok window)
    (hrelease : Releasable A.lib log.world.release) (hfits : Fits A now window log.world.view) :
    (under [] (A.archiveMonth now monthKey) log.world).1.isOk = true ∧
      Releasable A.lib (log.next A (.archive [] now monthKey)).world.release := by
  obtain ⟨rfl, -⟩ := windowOf_eq_ok hwindow
  obtain ⟨recorded, hcatalogued⟩ := (catalogued_run hdisk run).2
  have hroomy : Throughout (fun log => Roomy A log.world) trace log :=
    run.invariant (C := fun _ _ => True) hroom
      (fun _ op _ h _ hstep => hstep ▸ roomy_next h op) fun _ _ => trivial
  have hready : Ready A { log.world with faults := [] } := ⟨rfl, hroomy.2, hrelease⟩
  obtain ⟨result, after, hexec, hafter⟩ :=
    (returns_archiveMonth hwindow hcatalogued.lists hfits).exec ⟨hready, rfl⟩
  rw [AuditLog.next, under, hexec]
  exact ⟨rfl, hafter.release⟩

def january : AuditArchiveWindow := ⟨"2024_01", ⟨2024, 1, 1, 0, 0⟩, ⟨2024, 2, 1, 0, 0⟩⟩

def february : AuditArchiveWindow := ⟨"2024_02", ⟨2024, 2, 1, 0, 0⟩, ⟨2024, 3, 1, 0, 0⟩⟩

theorem windowOf_january : windowOf utcArchiver.tz "2024_01" = .ok january := by decide +kernel

theorem windowOf_february : windowOf utcArchiver.tz "2024_02" = .ok february := by decide +kernel

def bothMonths : View := ⟨fun _ => none, none, [login, exported]⟩

theorem encode_dumps (v : Json) : encode (Json.dumps .compact v) =
    (Json.chars .compact v).flatMap String.utf8EncodeChar := by
  rw [encode, Json.toList_dumps rfl]

theorem encode_jsonText (rows : List ArchiveRow) : encode (jsonText rows) =
    ("\r\r\n".toList.intercalate (rows.map fun row => Json.chars .compact row.json)).flatMap
      String.utf8EncodeChar := by
  have htexts : rows.map (String.toList ∘ fun row => Json.dumps .compact row.json) =
      rows.map fun row => Json.chars .compact row.json :=
    List.map_congr_left fun row _ => Json.toList_dumps rfl _
  rw [encode, jsonText, String.toList_intercalate, List.map_map, htexts]

theorem size_csv (A : AuditArchiver) (window : AuditArchiveWindow) (v : View) :
    (A.artifact window v .csv).sizeBytes =
      ((csvText A.config.csvBom (A.rowsOf window v.events)).flatMap
        String.utf8EncodeChar).length := by
  simp only [AuditArchiver.artifact, AuditArchiver.bytesOf, encode, String.toList_ofList]

theorem size_json (A : AuditArchiver) (window : AuditArchiveWindow) (v : View) :
    (A.artifact window v .json).sizeBytes =
      (("\r\r\n".toList.intercalate ((A.rowsOf window v.events).map fun row =>
        Json.chars .compact row.json)).flatMap String.utf8EncodeChar).length := by
  simp only [AuditArchiver.artifact, AuditArchiver.bytesOf, encode_jsonText]

def utcManifest (now : DateTime) (window : AuditArchiveWindow) (csv json rows : Nat) : Json :=
  utcArchiver.buildManifestPayload window ⟨utcArchiver.csvPath window, "d", csv⟩
    ⟨utcArchiver.jsonPath window, "d", json⟩ rows now

theorem fits_of_sizes {window : AuditArchiveWindow} {now : DateTime} {v : View}
    {csv json rows : Nat} (hcsv : (utcArchiver.artifact window v .csv).sizeBytes = csv)
    (hjson : (utcArchiver.artifact window v .json).sizeBytes = json)
    (hrows : (utcArchiver.rowsOf window v.events).length = rows)
    (hprints : printable (utcManifest now window csv json rows) = true)
    (htotal : (intStr (csv + json + ((Json.chars .compact (utcManifest now window csv json
      rows)).flatMap String.utf8EncodeChar).length : Nat)).isSome = true) :
    Fits utcArchiver now window v := by
  have hartifact : ∀ kind, utcArchiver.artifact window v kind =
      ⟨utcArchiver.pathOf kind window, "d", (utcArchiver.artifact window v kind).sizeBytes⟩ :=
    fun _ => rfl
  have hmanifest : utcArchiver.manifest now window v = utcManifest now window csv json rows := by
    rw [AuditArchiver.manifest, hartifact .csv, hartifact .json, hcsv, hjson, hrows]
    rfl
  refine ⟨hmanifest ▸ hprints, ?_⟩
  rw [encode_dumps, hmanifest, hcsv, hjson]
  exact htotal

theorem fits_january : Fits utcArchiver ⟨2026, 1, 1, 0, 0⟩ january bothMonths := by
  have hcsv : (utcArchiver.artifact january bothMonths .csv).sizeBytes = 193 := by
    rw [size_csv]
    decide +kernel
  have hjson : (utcArchiver.artifact january bothMonths .json).sizeBytes = 199 := by
    rw [size_json]
    decide +kernel
  have hrows : (utcArchiver.rowsOf january bothMonths.events).length = 1 := by decide +kernel
  exact fits_of_sizes hcsv hjson hrows (by decide +kernel) (by decide +kernel)

theorem fits_february : Fits utcArchiver ⟨2026, 1, 1, 0, 0⟩ february bothMonths := by
  have hcsv : (utcArchiver.artifact february bothMonths .csv).sizeBytes = 196 := by
    rw [size_csv]
    decide +kernel
  have hjson : (utcArchiver.artifact february bothMonths .json).sizeBytes = 202 := by
    rw [size_json]
    decide +kernel
  have hrows : (utcArchiver.rowsOf february bothMonths.events).length = 1 := by decide +kernel
  exact fits_of_sizes hcsv hjson hrows (by decide +kernel) (by decide +kernel)

/-- The events of both months are in the table, and the release manifest can be updated. -/
structure Stocked (log : AuditLog) : Prop where
  release : Releasable utcArchiver.lib log.world.release
  events : log.world.events = bothMonths.events

theorem stocked_missed : Stocked missedLog where
  release := by
    have hnone : missedLog.world.release = none := by decide +kernel
    rw [hnone]
    exact releasable_none _
  events := archive_events (Disk.read_empty _) run_filling windowOf_february csvFaults
    ⟨2026, 1, 1, 0, 0⟩

theorem stocked_archive {log : AuditLog} {trace : List (AuditLog × Operation)}
    {monthKey : String} {window : AuditArchiveWindow} (h : Stocked log)
    (run : Run (fun log op after => after = log.next utcArchiver op) emptyLog trace log)
    (hwindow : windowOf utcArchiver.tz monthKey = .ok window)
    (hfits : Fits utcArchiver ⟨2026, 1, 1, 0, 0⟩ window bothMonths) :
    (under [] (utcArchiver.archiveMonth ⟨2026, 1, 1, 0, 0⟩ monthKey) log.world).1.isOk = true ∧
      Stocked (log.next utcArchiver (archive2026 [] monthKey)) := by
  obtain ⟨hok, hrelease⟩ := archive_returns (apart_empty _) (Disk.read_empty _) run hwindow
    h.release (hfits.congr h.events)
  exact ⟨hok, hrelease, (archive_events (Disk.read_empty _) run hwindow [] _).trans h.events⟩

theorem january_archived :
    (under [] (utcArchiver.archiveMonth ⟨2026, 1, 1, 0, 0⟩ "2024_01") missedLog.world).1.isOk =
      true ∧ Stocked (missedLog.next utcArchiver (archive2026 [] "2024_01")) :=
  stocked_archive stocked_missed run_missing windowOf_january fits_january

theorem february_archived :
    (under [] (utcArchiver.archiveMonth ⟨2026, 1, 1, 0, 0⟩ "2024_02") januaryLog.world).1.isOk =
      true :=
  (stocked_archive january_archived.2 run_archivingJanuary windowOf_february fits_february).1

end AuditLog

end Audit

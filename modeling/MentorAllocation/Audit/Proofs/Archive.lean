import MentorAllocation.Audit.Proofs.Views
import MentorAllocation.Data.Except
import MentorAllocation.Text.JsonRoundTrip

namespace Audit
open Data Effects Files Text Sorting

inductive FileKind where
  | csv
  | json
  deriving DecidableEq

def FileKind.suffix : FileKind → String
  | .csv => ".csv"
  | .json => ".json"

def FileKind.last : FileKind → Char
  | .csv => 'v'
  | .json => 'n'

namespace AuditArchiver
variable {A : AuditArchiver} {window other : AuditArchiveWindow} {v v₀ : View}
  {kind kind' : FileKind} {event : AuditEvent}

def pathOf (A : AuditArchiver) (kind : FileKind) (window : AuditArchiveWindow) : PurePath :=
  match kind with
  | .csv => A.csvPath window
  | .json => A.jsonPath window

def bytesOf (A : AuditArchiver) (kind : FileKind) (rows : List ArchiveRow) : List UInt8 :=
  match kind with
  | .csv => encode (String.ofList (csvText A.config.csvBom rows))
  | .json => encode (jsonText rows)

theorem pathOf_eq (kind : FileKind) (window : AuditArchiveWindow) : A.pathOf kind window =
    (A.baseOf window).child ("audit_" ++ window.monthKey ++ kind.suffix) := by
  cases kind <;> rfl

theorem getLast?_name (key : String) (kind : FileKind) :
    ("audit_" ++ key ++ kind.suffix).toList.getLast? = some kind.last := by
  rw [String.toList_append, List.getLast?_append]
  cases kind <;> rfl

theorem pathOf_inj (h : A.pathOf kind window = A.pathOf kind' other) :
    kind = kind' ∧ window.monthKey = other.monthKey := by
  rw [pathOf_eq, pathOf_eq] at h
  have hname := congrArg String.toList (PurePath.child_inj h).2
  have hlast := congrArg List.getLast? hname
  rw [getLast?_name, getLast?_name] at hlast
  have hkind : kind = kind' := by
    cases kind <;> cases kind' <;> first | rfl | exact absurd hlast (by decide)
  subst hkind
  refine ⟨rfl, ?_⟩
  simp only [String.toList_append, List.append_cancel_right_eq, List.append_cancel_left_eq] at hname
  exact String.toList_inj.mp hname

theorem pathOf_ne_manifest : A.pathOf kind window ≠ A.manifestPath other := by
  intro h
  rw [pathOf_eq, manifestPath] at h
  have hname := congrArg (fun name => name.toList[1]?) (PurePath.child_inj h).2
  simp [String.toList_append] at hname

theorem pathOf_ne_partitions : A.pathOf kind window ≠ A.partitionsPath := by
  intro h
  rw [pathOf_eq, partitionsPath] at h
  have hname := congrArg (fun name => name.toList[0]?) (PurePath.child_inj h).2
  simp [String.toList_append] at hname

theorem manifest_ne_partitions : A.manifestPath window ≠ A.partitionsPath := by
  intro h
  have hname := (PurePath.child_inj h).2
  exact absurd hname (by decide)

theorem not_isPart_pathOf : isPart (A.pathOf kind window).name = false := by
  rw [pathOf_eq, PurePath.name_child, isPart, Bool.eq_false_iff, ne_eq,
    List.isSuffixOf_iff_suffix]
  rintro ⟨front, hfront⟩
  have hlast := congrArg List.getLast? hfront
  rw [getLast?_name, List.getLast?_append] at hlast
  cases kind <;> exact absurd hlast (by simp [FileKind.last])

/-- The row of an event is in a file of its month. -/
def InFile (A : AuditArchiver) (v : View) (kind : FileKind) (window : AuditArchiveWindow)
    (event : AuditEvent) : Prop :=
  ∃ rows, v.files (A.pathOf kind window) = some (A.bytesOf kind rows) ∧
    prepareRow A.lib event ∈ rows

theorem InFile.write {path : PurePath} {contents : List UInt8}
    (h : A.InFile v kind window event) (hpath : path ≠ A.pathOf kind window) :
    A.InFile (v.write path contents) kind window event := by
  obtain ⟨rows, hread, hrow⟩ := h
  exact ⟨rows, (if_neg hpath.symm).trans hread, hrow⟩

theorem InFile.clean (h : A.InFile v kind window event) (base : PurePath) :
    A.InFile (v.clean base) kind window event := by
  obtain ⟨rows, hread, hrow⟩ := h
  refine ⟨rows, (if_neg fun hpart => ?_).trans hread, hrow⟩
  rw [not_isPart_pathOf] at hpart
  exact absurd hpart.2 Bool.false_ne_true

theorem clean_partitions (v : View) (base : PurePath) :
    (v.clean base).files A.partitionsPath = v.files A.partitionsPath :=
  if_neg fun hpart => absurd hpart.2 (by rw [partitionsPath, PurePath.name_child]; decide)

theorem mem_rowsOf {events : List AuditEvent} (hmem : event ∈ events)
    (hin : inWindow window.start window.stop event = true) :
    prepareRow A.lib event ∈ A.rowsOf window events :=
  List.mem_map_of_mem ((sortedBy_perm _ _).mem_iff.mpr (List.mem_filter.mpr ⟨hmem, hin⟩))

/-- While a month is archived the table stays, other files stay, and the files of the month lose
no event that is in the table. -/
structure Keeping (A : AuditArchiver) (window : AuditArchiveWindow) (v₀ v : View) : Prop where
  events : v.events = v₀.events
  partitions : v.files A.partitionsPath = v₀.files A.partitionsPath
  files : ∀ kind other event, windowOf A.tz other.monthKey = .ok other →
    (other = window → event ∈ v₀.events ∧ inWindow window.start window.stop event = true) →
    A.InFile v₀ kind other event → A.InFile v kind other event

def Wrote (A : AuditArchiver) (window : AuditArchiveWindow) (v₀ : View) (kind : FileKind)
    (v : View) : Prop :=
  v.files (A.pathOf kind window) = some (A.bytesOf kind (A.rowsOf window v₀.events))

namespace Keeping

theorem refl : A.Keeping window v v := ⟨rfl, rfl, fun _ _ _ _ _ h => h⟩

theorem release {release : Option (List UInt8)} (h : A.Keeping window v₀ v) :
    A.Keeping window v₀ { v with release := release } :=
  ⟨h.events, h.partitions, h.files⟩

theorem write {path : PurePath} {contents : List UInt8} (h : A.Keeping window v₀ v)
    (hpartitions : path ≠ A.partitionsPath) (hpath : ∀ kind other, path ≠ A.pathOf kind other) :
    A.Keeping window v₀ (v.write path contents) where
  events := h.events
  partitions := (if_neg hpartitions.symm).trans h.partitions
  files kind other event hother hkept hin :=
    (h.files kind other event hother hkept hin).write (hpath kind other)

theorem writeRows (h : A.Keeping window v₀ v) (hwindow : windowOf A.tz window.monthKey = .ok window)
    (kind : FileKind) : A.Keeping window v₀ (v.write (A.pathOf kind window)
      (A.bytesOf kind (A.rowsOf window v₀.events))) where
  events := h.events
  partitions := (if_neg pathOf_ne_partitions.symm).trans h.partitions
  files kind' other event hother hkept hin := by
    by_cases hpath : A.pathOf kind' other = A.pathOf kind window
    · obtain ⟨rfl, hkey⟩ := pathOf_inj hpath
      rw [hkey, hwindow] at hother
      obtain rfl := Except.ok.inj hother
      obtain ⟨hmem, hevent⟩ := hkept rfl
      exact ⟨_, if_pos rfl, mem_rowsOf hmem hevent⟩
    · exact (h.files kind' other event hother hkept hin).write (Ne.symm hpath)

theorem clean (h : A.Keeping window v₀ v) (base : PurePath) :
    A.Keeping window v₀ (v.clean base) where
  events := h.events
  partitions := (clean_partitions v base).trans h.partitions
  files kind other event hother hkept hin :=
    (h.files kind other event hother hkept hin).clean base

end Keeping

theorem Wrote.write {path : PurePath} {contents : List UInt8} (h : A.Wrote window v₀ kind v)
    (hpath : path ≠ A.pathOf kind window) : A.Wrote window v₀ kind (v.write path contents) :=
  (if_neg hpath.symm).trans h

structure Written (A : AuditArchiver) (window : AuditArchiveWindow) (v₀ v : View) : Prop where
  keeping : A.Keeping window v₀ v
  wrote : ∀ kind, A.Wrote window v₀ kind v

theorem Written.write {path : PurePath} {contents : List UInt8} (h : A.Written window v₀ v)
    (hpartitions : path ≠ A.partitionsPath) (hpath : ∀ kind other, path ≠ A.pathOf kind other) :
    A.Written window v₀ (v.write path contents) :=
  ⟨h.keeping.write hpartitions hpath, fun kind => (h.wrote kind).write (hpath kind window)⟩

theorem Written.release {release : Option (List UInt8)} (h : A.Written window v₀ v) :
    A.Written window v₀ { v with release := release } :=
  ⟨h.keeping.release, h.wrote⟩

def artifact (A : AuditArchiver) (window : AuditArchiveWindow) (v₀ : View) (kind : FileKind) :
    AuditArchiveArtifact :=
  let bytes := A.bytesOf kind (A.rowsOf window v₀.events)
  ⟨A.pathOf kind window, A.lib.sha256 bytes, bytes.length⟩

/-- The JSON file comes first. -/
theorem meets_writeJson (hwindow : windowOf A.tz window.monthKey = .ok window) :
    Meets (Seen (A.Keeping window v₀)) (Act.onDisk fun disk =>
      disk.atomicWrite (A.jsonPath window) (encode (jsonText (A.rowsOf window v₀.events))))
      (fun _ => Seen fun v => A.Keeping window v₀ v ∧ A.Wrote window v₀ .json v)
      (Seen (A.Keeping window v₀)) :=
  meets_atomicWrite fun _ hv => ⟨hv.writeRows hwindow .json, if_pos rfl⟩

theorem meets_writeCsv (hwindow : windowOf A.tz window.monthKey = .ok window) :
    Meets (Seen fun v => A.Keeping window v₀ v ∧ A.Wrote window v₀ .json v)
      (Act.onDisk fun disk => disk.atomicWrite (A.csvPath window)
        (encode (String.ofList (csvText A.config.csvBom (A.rowsOf window v₀.events)))))
      (fun _ => Seen (A.Written window v₀)) (Seen (A.Keeping window v₀)) := by
  refine (meets_atomicWrite fun v hv =>
    ⟨hv.1.writeRows hwindow .csv, fun kind => ?_⟩).weaken fun _ h => h.1
  cases kind with
  | csv => exact if_pos rfl
  | json =>
    exact hv.2.write fun (hpath : A.pathOf .csv window = _) =>
      absurd (pathOf_inj hpath).1 (by decide)

theorem meets_writeArtifacts (hwindow : windowOf A.tz window.monthKey = .ok window) :
    Meets (Seen (A.Keeping window v₀)) (A.writeArtifacts window)
      (fun found w => Seen (A.Written window v₀) w ∧
        found = ((A.rowsOf window v₀.events).length, A.artifact window v₀ .csv,
          A.artifact window v₀ .json))
      (Seen (A.Keeping window v₀)) := by
  refine (meets_call _).bind fun _ => .get fun w hw => ?_
  have hevents : w.events = v₀.events := hw.events
  rw [hevents]
  refine ((meets_writeJson hwindow).here hw).bind fun _ => ?_
  refine (meets_writeCsv hwindow).bind fun _ => ?_
  have hartifact : ∀ kind, Meets (Seen (A.Written window v₀)) (A.artifactOf (A.pathOf kind window))
      (fun found w => Seen (A.Written window v₀) w ∧ found = A.artifact window v₀ kind)
      (Seen (A.Keeping window v₀)) := by
    intro kind
    refine (meets_artifactOf _).mono (fun _ h => h) (fun found w h => ?_) fun _ h => h.keeping
    obtain ⟨hwritten, bytes, hread, rfl⟩ := h
    have := hread.symm.trans (hwritten.wrote kind)
    obtain rfl := Option.some.inj this
    exact ⟨hwritten, rfl⟩
  refine (hartifact .csv).bind fun csv => .of_and fun hcsv => ?_
  refine (hartifact .json).bind fun json => .of_and fun hjson => ?_
  subst hcsv hjson
  exact .pure fun _ h => ⟨h, rfl⟩

def manifest (A : AuditArchiver) (now : DateTime) (window : AuditArchiveWindow) (v₀ : View) :
    Json :=
  A.buildManifestPayload window (A.artifact window v₀ .csv) (A.artifact window v₀ .json)
    (A.rowsOf window v₀.events).length now

theorem meets_updateEntry {P : View → Prop} {now : DateTime} {artifact : AuditArchiveArtifact}
    {text : String} (h : ∀ v release, P v → P { v with release := release }) :
    Keeps (Seen P) (A.updateEntry now artifact text) := by
  refine (meets_artifactOf _).fst.bind fun found => (meets_call _).bind fun _ => .get fun w hw => ?_
  exact ((keeps_ofExcept _).here hw).bind fun release => .set (h w.view _ hw)

/-- Partitions as `partitions.json` has them: a window and the bytes of its files. -/
def partitionsJson (recorded : List (AuditArchiveWindow × Nat)) : List Json :=
  recorded.map fun entry => partitionJson entry.1 entry.2

def partitionsBytes (recorded : List (AuditArchiveWindow × Nat)) : List UInt8 :=
  encode (Json.dumps .compact (.arr (partitionsJson recorded)))

/-- The file lists these partitions; there is none as long as none is listed. -/
def Lists (A : AuditArchiver) (recorded : List (AuditArchiveWindow × Nat)) (v : View) : Prop :=
  (v.files A.partitionsPath = none ∧ recorded = []) ∨
    (v.files A.partitionsPath = some (partitionsBytes recorded) ∧
      printable (.arr (partitionsJson recorded)) = true)

def record (window : AuditArchiveWindow) (size : Nat)
    (recorded : List (AuditArchiveWindow × Nat)) : List (AuditArchiveWindow × Nat) :=
  sortedBy (fun entry => entry.1.start.isoformat)
    ((recorded.filter fun entry => decide (entry.1.monthKey ≠ window.monthKey)) ++ [(window, size)])

variable {recorded : List (AuditArchiveWindow × Nat)}

theorem printable_partitions : printable (.arr (partitionsJson recorded)) = true ↔
    ∀ entry ∈ recorded, (intStr entry.2).isSome = true := by
  rw [printable]
  induction recorded with
  | nil => exact iff_of_true rfl fun _ h => absurd h List.not_mem_nil
  | cons entry rest ih =>
    rw [partitionsJson, List.map_cons, printableItems, Bool.and_eq_true,
      ← partitionsJson, ih, List.forall_mem_cons]
    simp [partitionJson, printable, printableMembers]

theorem valid_partitions (h : printable (.arr (partitionsJson recorded)) = true) :
    Json.Valid A.lib.floatRepr (.arr (partitionsJson recorded)) := by
  rw [Json.Valid, Json.validItems_iff, partitionsJson, List.forall_mem_map]
  intro entry hentry
  have hsize := printable_partitions.mp h entry hentry
  simp [partitionJson, Json.Valid, Json.ValidMembers, hsize]

/-- What is read of the file is what it lists. -/
theorem loads_partitions (h : printable (.arr (partitionsJson recorded)) = true) :
    Json.loads A.lib.floatRepr (Json.dumps .compact (.arr (partitionsJson recorded))) =
      some (.arr (partitionsJson recorded)) :=
  Json.loads_dumps rfl Json.separators_compact (valid_partitions h)

theorem withoutText_partitions (key : String) (recorded : List (AuditArchiveWindow × Nat)) :
    withoutText "month" key (partitionsJson recorded) = .ok (partitionsJson
      (recorded.filter fun entry => decide (entry.1.monthKey ≠ key))) := by
  unfold withoutText
  induction recorded with
  | nil => rfl
  | cons entry rest ih =>
    have hentry : unlessText "month" key (partitionJson entry.1 entry.2) =
        .ok (if entry.1.monthKey = key then none else some (partitionJson entry.1 entry.2)) := rfl
    rw [partitionsJson, List.map_cons, List.filterMapM_cons, ← partitionsJson, ih, hentry,
      ok_bind, List.filter_cons]
    by_cases hkey : entry.1.monthKey = key
    · rw [if_pos hkey, if_neg (by simp [hkey])]
    · rw [if_neg hkey, if_pos (by simp [hkey])]
      rfl

theorem sortByText_partitions (recorded : List (AuditArchiveWindow × Nat)) :
    sortByText "start" (partitionsJson recorded) = .ok (partitionsJson
      (sortedBy (fun entry => entry.1.start.isoformat) recorded)) := by
  have hkeyed : (partitionsJson recorded).mapM (textUnder "start") = Except.ok
      (recorded.map fun entry => (entry.1.start.isoformat, partitionJson entry.1 entry.2)) := by
    induction recorded with
    | nil => rfl
    | cons entry rest ih =>
      rw [partitionsJson, List.map_cons, List.mapM_cons, ← partitionsJson, ih]
      rfl
  rw [sortByText, hkeyed, ok_bind, sortedBy_map, List.map_map]
  rfl

theorem existingPartitions_of_lists (h : A.Lists recorded v) :
    existingPartitions A.lib (v.files A.partitionsPath) = .ok (partitionsJson recorded) := by
  rcases h with ⟨hnone, rfl⟩ | ⟨hsome, hprints⟩
  · rw [hnone]
    rfl
  · rw [hsome, partitionsBytes]
    dsimp only [existingPartitions]
    rw [decode_encode]
    dsimp only
    rw [loads_partitions hprints]
    rfl

/-- What is written once the list of partitions has been read. -/
theorem record_eq (h : A.Lists recorded v) (result : AuditArchiveResult) {size : Nat}
    (hsize : size = result.csv.sizeBytes + result.json.sizeBytes + result.manifest.sizeBytes) :
    (do
      let existing ← Act.ofExcept (existingPartitions A.lib (v.files A.partitionsPath))
      let entry := partitionJson result.window
        (result.csv.sizeBytes + result.json.sizeBytes + result.manifest.sizeBytes)
      let others ← Act.ofExcept (withoutText "month" result.window.monthKey existing)
      let partitions ← Act.ofExcept (sortByText "start" (others ++ [entry]))
      let _ ← atomicWriteJson A.partitionsPath (.arr partitions) : Act Unit) = (do
      let _ ← atomicWriteJson A.partitionsPath
        (.arr (partitionsJson (record result.window size recorded)))) := by
  have hentries : ∀ others, partitionsJson others ++ [partitionJson result.window size] =
      partitionsJson (others ++ [(result.window, size)]) := by
    intro others
    rw [partitionsJson, partitionsJson, List.map_append, List.map_singleton]
  rw [existingPartitions_of_lists h, ← hsize]
  change (do
    let others ← Act.ofExcept (withoutText "month" result.window.monthKey
      (partitionsJson recorded))
    let partitions ← Act.ofExcept (sortByText "start"
      (others ++ [partitionJson result.window size]))
    let _ ← atomicWriteJson A.partitionsPath (.arr partitions) : Act Unit) = _
  rw [withoutText_partitions]
  change (do
    let partitions ← Act.ofExcept (sortByText "start" (partitionsJson _ ++
      [partitionJson result.window size]))
    let _ ← atomicWriteJson A.partitionsPath (.arr partitions) : Act Unit) = _
  rw [hentries, sortByText_partitions]
  rfl

theorem meets_recordPartitionMetadata {P Q : View → Prop} (result : AuditArchiveResult)
    {size : Nat} (hsize : size = result.csv.sizeBytes + result.json.sizeBytes +
      result.manifest.sizeBytes) (hlists : ∀ v, P v → A.Lists recorded v)
    (h : ∀ v, P v → printable (.arr (partitionsJson (record result.window size recorded))) = true →
      Q (v.write A.partitionsPath (partitionsBytes (record result.window size recorded)))) :
    Meets (Seen P) (A.recordPartitionMetadata result) (fun _ => Seen Q) (Seen P) := by
  refine (meets_call _).bind fun _ => .get fun w hw => ?_
  have hcode := record_eq (hlists _ hw) result hsize
  dsimp only [World.view] at hcode
  dsimp only
  rw [hcode]
  exact ((meets_atomicWriteJson fun v hprints hv => h v hv hprints).fst.here hw).bind fun _ =>
    .pure fun _ hs => hs

theorem Keeping.lists (h : A.Keeping window v₀ v) (hlists : A.Lists recorded v₀) :
    A.Lists recorded v := by
  rw [Lists, h.partitions]
  exact hlists

/-- The files of the month are there, and the manifest that names them. -/
structure Verifiable (A : AuditArchiver) (now : DateTime) (window : AuditArchiveWindow)
    (v₀ v : View) : Prop where
  written : A.Written window v₀ v
  manifest : v.files (A.manifestPath window) =
    some (encode (Json.dumps .compact (A.manifest now window v₀)))
  printable : printable (A.manifest now window v₀) = true

def Recorded (A : AuditArchiver) (now : DateTime) (window : AuditArchiveWindow)
    (recorded : List (AuditArchiveWindow × Nat)) (v₀ v : View) : Prop :=
  ∃ size before, A.Verifiable now window v₀ before ∧
    Audit.printable (.arr (partitionsJson (record window size recorded))) = true ∧
    v = before.write A.partitionsPath (partitionsBytes (record window size recorded))

theorem meets_writeManifest {now : DateTime} : Meets (Seen (A.Written window v₀))
    (atomicWriteJson (A.manifestPath window) (A.manifest now window v₀))
    (fun _ => Seen (A.Verifiable now window v₀)) (Seen (A.Written window v₀)) := by
  refine (meets_atomicWriteJson fun v hprints hv => ?_).fst
  exact ⟨hv.write manifest_ne_partitions fun _ _ => pathOf_ne_manifest.symm, if_pos rfl, hprints⟩

theorem keeps_updateEntry {now : DateTime} (artifact : AuditArchiveArtifact) (text : String) :
    Keeps (Seen (A.Verifiable now window v₀)) (A.updateEntry now artifact text) :=
  meets_updateEntry fun _ _ h => ⟨h.written.release, h.manifest, h.printable⟩

/-- Whatever recording the partition makes of it, archiving a month makes of it. -/
theorem meets_archiveWindow {now : DateTime} {Q : World → Prop}
    (hwindow : windowOf A.tz window.monthKey = .ok window)
    (hrecord : ∀ manifest, Meets (Seen (A.Verifiable now window v₀))
      (A.recordPartitionMetadata ⟨window, A.artifact window v₀ .csv, A.artifact window v₀ .json,
        manifest, (A.rowsOf window v₀.events).length⟩)
      (fun _ => Q) (Seen (A.Verifiable now window v₀))) :
    Meets (Seen (A.Keeping window v₀)) (A.archiveWindow now window) (fun _ => Q)
      (Seen (A.Keeping window v₀)) := by
  refine ((meets_writeArtifacts hwindow).retrying _).bind fun found => .of_and fun hfound => ?_
  subst hfound
  refine ((meets_writeManifest.retrying _).weaken fun _ h => h.keeping).bind fun _ => ?_
  refine ((meets_artifactOf _).fst.weaken fun _ h => h.written.keeping).bind fun manifest => ?_
  have hrelease : ∀ result, Keeps (Seen (A.Verifiable now window v₀))
      (A.updateRelease now result) :=
    fun result => (keeps_updateEntry _ _).bind fun _ => keeps_updateEntry _ _
  refine (((hrelease _).retrying _).weaken fun _ h => h.written.keeping).bind fun _ => ?_
  exact (((hrecord manifest).retrying _).weaken fun _ h => h.written.keeping).bind fun _ =>
    .pure fun _ h => h

theorem meets_archiveMonth_of (now : DateTime) (v₀ : View) {Q : World → Prop}
    (hwindow : windowOf A.tz window.monthKey = .ok window)
    (hrecord : ∀ manifest, Meets (Seen (A.Verifiable now window v₀))
      (A.recordPartitionMetadata ⟨window, A.artifact window v₀ .csv, A.artifact window v₀ .json,
        manifest, (A.rowsOf window v₀.events).length⟩)
      (fun _ => Q) (Seen (A.Verifiable now window v₀))) :
    Meets (Seen (· = v₀)) (A.archiveMonth now window.monthKey) (fun _ => Q)
      (Seen (A.Keeping window v₀)) := by
  unfold archiveMonth
  rw [hwindow]
  have hpath : ∀ path, Meets (Seen (A.Keeping window v₀)) (A.artifactPath window path)
      (fun _ => Seen (A.Keeping window v₀)) (Seen (A.Keeping window v₀)) := fun path =>
    (meets_artifactPath path).fst
  refine Meets.mono (P := Seen (A.Keeping window v₀)) (R := Seen (A.Keeping window v₀))
    (Q := fun _ => Q) ?_ (fun w hw => ?_) (fun _ _ h => h) fun _ h => h
  · refine (hpath _).bind fun _ => (hpath _).bind fun _ => (hpath _).bind fun _ => ?_
    refine (meets_cleanupParts (fun _ hv => hv) fun v hv => hv.clean _).bind fun _ => ?_
    exact (meets_archiveWindow hwindow hrecord).tryCatch fun _ => .throw fun _ h => h
  · rw [Seen] at hw ⊢
    rw [hw]
    exact .refl

/-- Archiving a month records it, or raises with the month as it was or half written. -/
theorem meets_archiveMonth (now : DateTime)
    (hwindow : windowOf A.tz window.monthKey = .ok window) (hlists : A.Lists recorded v₀) :
    Meets (Seen (· = v₀)) (A.archiveMonth now window.monthKey)
      (fun _ => Seen (A.Recorded now window recorded v₀)) (Seen (A.Keeping window v₀)) :=
  meets_archiveMonth_of now v₀ hwindow fun _ => meets_recordPartitionMetadata _ rfl
    (fun _ hv => hv.written.keeping.lists hlists) fun v hv hprints => ⟨_, v, hv, hprints, rfl⟩

def dryManifest (A : AuditArchiver) (now : DateTime) (window : AuditArchiveWindow) (v₀ : View) :
    Json :=
  A.buildManifestPayload window ⟨A.csvPath window, "", 0⟩ ⟨A.jsonPath window, "", 0⟩
    (v₀.events.countP (inWindow window.start window.stop)) now

/-- The month with or without the parts that were left in it. -/
def Cleaned (A : AuditArchiver) (window : AuditArchiveWindow) (v₀ v : View) : Prop :=
  v = v₀ ∨ v = v₀.clean (A.baseOf window)

/-- The month once a dry run has written its manifest. -/
def DryRun (A : AuditArchiver) (now : DateTime) (window : AuditArchiveWindow) (v₀ v : View) :
    Prop :=
  ∃ before, A.Cleaned window v₀ before ∧ v = before.write (A.manifestPath window)
      (encode (Json.dumps .compact (A.dryManifest now window v₀))) ∧
    printable (A.dryManifest now window v₀) = true

theorem Cleaned.events (h : A.Cleaned window v₀ v) : v.events = v₀.events := by
  rcases h with rfl | rfl <;> rfl

/-- A dry run keeps the month as it is but for its manifest. -/
theorem meets_archiveMonthDry (now : DateTime) (v₀ : View)
    (hwindow : windowOf A.tz window.monthKey = .ok window) :
    Meets (Seen (· = v₀)) (A.archiveMonthDry now window.monthKey)
      (fun _ => Seen (A.DryRun now window v₀))
      (Seen fun v => A.Cleaned window v₀ v ∨ A.DryRun now window v₀ v) := by
  unfold archiveMonthDry
  rw [hwindow]
  have hpath : ∀ path, Meets (Seen (· = v₀)) (A.artifactPath window path)
      (fun found w => Seen (· = v₀) w ∧ found = path)
      (Seen fun v => A.Cleaned window v₀ v ∨ A.DryRun now window v₀ v) := fun path =>
    (meets_artifactPath path).weaken fun _ h => .inl (.inl h)
  refine (hpath _).bind fun _ => .of_and fun hcsv => ?_
  refine (hpath _).bind fun _ => .of_and fun hjson => ?_
  refine (hpath _).bind fun _ => .of_and fun hmanifest => ?_
  subst hcsv hjson hmanifest
  have hclean : Meets (Seen (· = v₀)) (A.cleanupParts window)
      (fun _ => Seen (A.Cleaned window v₀)) (Seen (· = v₀)) :=
    meets_cleanupParts (fun v hv => .inl hv) fun v hv => .inr (by rw [hv])
  refine (hclean.weaken fun _ h => .inl (.inl h)).bind fun _ => ?_
  have hcount : Meets (Seen (A.Cleaned window v₀)) (A.runWithRetry (countRows window))
      (fun count w => Seen (A.Cleaned window v₀) w ∧
        count = v₀.events.countP (inWindow window.start window.stop))
      (Seen (A.Cleaned window v₀)) := by
    refine Meets.retrying ?_ _
    refine (meets_call _).bind fun _ => .get fun w hw => .pure fun s hs => ⟨hs ▸ hw, ?_⟩
    have hevents : w.events = v₀.events := Cleaned.events hw
    rw [hevents]
  refine (hcount.weaken fun _ h => .inl h).bind fun count =>
    .of_and fun hcount => ?_
  subst hcount
  have hwrite : Meets (Seen (A.Cleaned window v₀))
      (A.runWithRetry (atomicWriteJson (A.manifestPath window) (A.dryManifest now window v₀)))
      (fun _ => Seen (A.DryRun now window v₀)) (Seen (A.Cleaned window v₀)) := by
    refine Meets.retrying ?_ _
    exact (meets_atomicWriteJson fun v hprints hv => ⟨v, hv, rfl, hprints⟩).fst
  refine (hwrite.weaken fun _ h => .inl h).bind fun _ => ?_
  exact ((meets_artifactOf _).fst.weaken fun _ h => .inr h).bind
    fun _ => .pure fun _ h => h

end AuditArchiver

end Audit

import MentorAllocation.Concurrency.Protocol
import MentorAllocation.Xlsx.Workflow

namespace Xlsx
open Text Concurrency

/-- One process at a time over a storage directory and a job store, and the exports ever
taken up: the id each got and the record it ended in, if it ended well. -/
structure Service where
  world : World Unit := {}
  taken : List (String × Option ExportRecord) := []

inductive ServiceCall where
  | createUpload (profile : String) (year : Int)
  | createExport (year : Int) (center : Option Int) (fileFormat : String)
  | getExport (exportId : String)
  | restart
  | expire (exportId : String)

def answerAlone (ch : Choice) : (r : Request) → World Unit → Option (r.Response × World Unit) :=
  World.answer ch ()

section
variable (W : ImportToSabtWorkflow)

/-- One call after the other; each comes with what its surroundings decide. -/
def Service.next (v : Service) : ServiceCall × List Choice → Option Service
  | (.createUpload profile year, choices) =>
    ((W.createUpload profile year).played answerAlone choices v.world).map fun (_, world) =>
      { v with world }
  | (.createExport year center fileFormat, choices) =>
    ((W.createExport year center fileFormat).played answerAlone choices v.world).map
      fun (result, world) => {
        world
        taken := v.taken ++ [(W.idOf "export" (v.world.memory ()).counter, result.toOption)] }
  | (.getExport exportId, choices) =>
    ((getExport exportId).played answerAlone choices v.world).map fun (_, world) =>
      { v with world }
  | (.restart, _) => some { v with world := v.world.setMemory () {} }
  | (.expire exportId, _) => some { v with world := v.world.setJob exportId none }

/-- The export is still found under its id with its own manifest, and its files have the
contents that the manifest records. -/
def Preserved (s : World Unit) (exportId : String) (record : ExportRecord) : Prop :=
  ∃ manifest, record.manifest = some manifest ∧
    (∃ r t, (getExport exportId).played answerAlone (List.replicate 3 {}) s =
      some (.ok (some r), t) ∧ r.manifest = some manifest) ∧
    ∀ file ∈ manifest.files, ∃ content, s.files file.name = some content ∧
      W.library.sha256 content = file.sha256

/-- No id was given twice, and no export that succeeded is lost. -/
structure Service.Lasting (v : Service) : Prop where
  distinct : (v.taken.map Prod.fst).Nodup
  preserved : ∀ id record, (id, some record) ∈ v.taken → Preserved W v.world id record

/-- The id made of the counter is new, no restart comes after a record of a finished export
has expired, and none expires that the process does not remember. -/
def Service.Undisturbed (v : Service) (l : ServiceCall × List Choice) : Prop :=
  match l.1 with
  | .createExport _ _ _ =>
    W.idOf "export" (v.world.memory ()).counter ∉ v.taken.map Prod.fst
  | .restart => ∀ id record, (id, some record) ∈ v.taken → (v.world.jobs id).isSome = true
  | .expire id => ∀ record, (id, some record) ∈ v.taken →
    ((v.world.memory ()).exports id).isSome = true
  | _ => True

end

/-- What `get_export` gives when the job store answers. -/
def lookup (s : World Unit) (exportId : String) : Option ExportRecord :=
  ((s.memory ()).exports exportId).or ((s.jobs exportId).map (recordOf exportId))

theorem getExport_played (s : World Unit) (exportId : String) :
    ∃ t, (getExport exportId).played answerAlone (List.replicate 3 {}) s =
      some (.ok (lookup s exportId), t) := by
  unfold lookup
  cases hcached : (s.memory ()).exports exportId with
  | some record =>
    have hanswer : answerAlone {} (.cached exportId) s = some (some record, s) := by
      rw [← hcached]
      rfl
    exact ⟨s, Program.played_ask hanswer⟩
  | none =>
    have hanswer : answerAlone {} (.cached exportId) s = some (none, s) := by
      rw [← hcached]
      rfl
    cases hjob : s.jobs exportId with
    | none =>
      have hload : answerAlone {} (.load exportId) s = some (.ok none, s) := by
        rw [← hjob]
        rfl
      exact ⟨s, (Program.played_ask hanswer).trans (Program.played_ask hload)⟩
    | some payload =>
      have hload : answerAlone {} (.load exportId) s = some (.ok (some payload), s) := by
        rw [← hjob]
        rfl
      have hcache : answerAlone {} (.cache exportId (recordOf exportId payload)) s =
          some ((), s.cacheExport () exportId (recordOf exportId payload)) := rfl
      exact ⟨_, (Program.played_ask hanswer).trans
        ((Program.played_ask hload).trans (Program.played_ask hcache))⟩

section
variable {W : ImportToSabtWorkflow} {s : World Unit} {exportId : String} {record : ExportRecord}

theorem preserved_iff : Preserved W s exportId record ↔
    ∃ manifest, record.manifest = some manifest ∧
      (∃ r, lookup s exportId = some r ∧ r.manifest = some manifest) ∧
      ∀ file ∈ manifest.files, ∃ content, s.files file.name = some content ∧
        W.library.sha256 content = file.sha256 := by
  obtain ⟨t, ht⟩ := getExport_played s exportId
  refine exists_congr fun manifest => and_congr_right fun _ => and_congr_left fun _ => ?_
  rw [ht]
  constructor
  · rintro ⟨r, t', he, hr⟩
    exact ⟨r, Except.ok.inj (Prod.mk.inj (Option.some.inj he)).1, hr⟩
  · rintro ⟨r, he, hr⟩
    exact ⟨r, t, by rw [he], hr⟩

end

section
variable {inv : World Unit → Prop} {s : World Unit} {α : Type}

theorem returns_unchanged {r : Request} {k : r.Response → Except Raised α}
    {M : α → Prop} (hr : ∀ ch x t, answerAlone ch r s = some (x, t) →
      t = s ∧ ∀ a, k x = .ok a → M a) :
    (Protocol.sequential answerAlone inv).Returns () (fun a t => t = s ∧ M a)
      (Program.ask r fun x => Program.ret (k x)) s := by
  rintro _ rfl hinv ch x t _ hx
  obtain ⟨rfl, hm⟩ := hr ch x t hx
  exact ⟨hinv, trivial, fun a ha => ⟨rfl, hm a ha⟩⟩

theorem alone_nowIso :
    (Protocol.sequential answerAlone inv).Returns () (fun _ t => t = s ∧ True) nowIso s :=
  returns_unchanged (r := .now) (k := .ok) fun _ _ _ h =>
    ⟨(Prod.mk.inj (Option.some.inj h)).2.symm, fun _ _ => trivial⟩

theorem alone_cached (id : String) :
    (Protocol.sequential answerAlone inv).Returns () (fun _ t => t = s ∧ True)
      (Fallible.call (Request.cached id) : Call (Option ExportRecord)) s :=
  returns_unchanged (r := .cached id) (k := .ok) fun _ _ _ h =>
    ⟨(Prod.mk.inj (Option.some.inj h)).2.symm, fun _ _ => trivial⟩

theorem alone_load (id : String) :
    (Protocol.sequential answerAlone inv).Returns () (fun payload t => t = s ∧ payload = s.jobs id)
      (load id) s := by
  refine returns_unchanged (r := .load id) (k := fun x => x) fun ch x t h => ?_
  obtain ⟨rfl, rfl⟩ := Prod.mk.inj (Option.some.inj h)
  refine ⟨rfl, fun payload hpayload => ?_⟩
  simp only [Choice.verdict] at hpayload
  split at hpayload
  · exact (Except.ok.inj hpayload).symm
  · cases hpayload

theorem alone_fetchRows (year : Int) (center : Option Int) :
    (Protocol.sequential answerAlone inv).Returns () (fun _ t => t = s ∧ True)
      (fetchRows year center) s :=
  returns_unchanged (r := .fetchRows year center) (k := fun x => x) fun _ _ _ h =>
    ⟨(Prod.mk.inj (Option.some.inj h)).2.symm, fun _ _ => trivial⟩

theorem alone_readFile (name : String) :
    (Protocol.sequential answerAlone inv).Returns ()
      (fun content t => t = s ∧ s.files name = some content) (readFile name) s := by
  refine returns_unchanged (r := .read name) (k := fun x => x) fun ch x t h => ?_
  obtain ⟨rfl, rfl⟩ := Prod.mk.inj (Option.some.inj h)
  refine ⟨rfl, fun content hcontent => ?_⟩
  cases hfile : s.files name with
  | none => simp [hfile] at hcontent
  | some bytes =>
    simp only [hfile, Choice.verdict] at hcontent
    split at hcontent
    · exact congrArg some (Except.ok.inj hcontent)
    · cases hcontent

/-- A write that answers has been made. -/
theorem effect_of_verdict {ch : Choice} {a b : α} (h : ch.verdict a = .ok b) :
    ch.takesEffect = true := by
  cases hr : ch.raised with
  | none => simp [Choice.takesEffect, hr]
  | some e => simp [Choice.verdict, hr] at h

theorem alone_writeFile {name : String} {content : Bytes}
    (hkeep : inv s → inv (s.setFile name content)) :
    (Protocol.sequential answerAlone inv).Returns () (fun _ t => t = s.setFile name content)
      (writeFile name content) s := by
  rintro _ rfl hinv ch x t _ hx
  obtain ⟨rfl, rfl⟩ := Prod.mk.inj (Option.some.inj hx)
  refine ⟨?_, trivial, fun _ hok => if_pos (effect_of_verdict hok)⟩
  split
  · exact hkeep hinv
  · exact hinv

theorem alone_put {id : String} {payload : JobPayload}
    (hkeep : inv s → inv (s.setJob id (some payload))) :
    (Protocol.sequential answerAlone inv).Returns () (fun _ t => t = s.setJob id (some payload))
      (put id payload) s := by
  rintro _ rfl hinv ch x t _ hx
  obtain ⟨rfl, rfl⟩ := Prod.mk.inj (Option.some.inj hx)
  refine ⟨?_, trivial, fun _ hok => if_pos (effect_of_verdict hok)⟩
  split
  · exact hkeep hinv
  · exact hinv

end

def IsArtifact (id name : String) : Prop := name = id ++ ".xlsx" ∨ name = id ++ ".csv"

theorem isArtifact_ne_manifestName {id name : String} (h : IsArtifact id name) (other : String) :
    name ≠ manifestName other := by
  intro he
  have hlast := congrArg (fun text => text.toList.getLast?) he
  rcases h with rfl | rfl <;> simp [manifestName] at hlast

theorem isArtifact_inj {id id' name : String} (h : IsArtifact id name) (h' : IsArtifact id' name) :
    id = id' := by
  have hsuffix : ∀ a b c : String, a ++ c = b ++ c → a = b := by
    intro a b c he
    have hl := congrArg String.toList he
    simp only [String.toList_append] at hl
    exact String.toList_inj.mp (List.append_cancel_right hl)
  rcases h with rfl | rfl <;> rcases h' with he | he
  · exact hsuffix _ _ _ he
  · have hlast := congrArg (fun text => text.toList.getLast?) he
    simp at hlast
  · have hlast := congrArg (fun text => text.toList.getLast?) he
    simp at hlast
  · exact hsuffix _ _ _ he

/-- All but the things of one export are as they were. -/
structure Frame (id : String) (s t : World Unit) : Prop where
  jobs : ∀ other, other ≠ id → t.jobs other = s.jobs other
  exports : ∀ other, other ≠ id → (t.memory ()).exports other = (s.memory ()).exports other
  files : ∀ name, ¬ IsArtifact id name → name ≠ manifestName id → t.files name = s.files name

/-- Job records are all that may have changed. -/
structure SameFiles (s t : World Unit) : Prop where
  files : t.files = s.files
  memory : t.memory = s.memory

section
variable {id : String} {s₀ s : World Unit}

theorem Frame.setJob (h : Frame id s₀ s) (payload : Option JobPayload) :
    Frame id s₀ (s.setJob id payload) where
  jobs := fun other hne => by simpa [World.setJob, hne] using h.jobs other hne
  exports := h.exports
  files := h.files

theorem Frame.setFile (h : Frame id s₀ s) {name : String} (content : Bytes)
    (hname : IsArtifact id name ∨ name = manifestName id) :
    Frame id s₀ (s.setFile name content) where
  jobs := h.jobs
  exports := h.exports
  files := fun other hartifact hmanifest => by
    have hne : other ≠ name := by
      rintro rfl
      rcases hname with hname | hname
      · exact hartifact hname
      · exact hmanifest hname
    simpa [World.setFile, hne] using h.files other hartifact hmanifest

theorem Frame.cacheExport (h : Frame id s₀ s) (record : ExportRecord) :
    Frame id s₀ (s.cacheExport () id record) where
  jobs := h.jobs
  exports := fun other hne => by
    simpa [World.cacheExport, World.setMemory, hne] using h.exports other hne
  files := h.files

theorem alone_begin (fileFormat : String) (filters : Option Filters) :
    (Protocol.sequential answerAlone (Frame id s₀)).Returns () (fun _ t => SameFiles s t)
      (ExportJobStore.begin id fileFormat filters) s := by
  refine .bind alone_nowIso ?_
  rintro _ _ ⟨rfl, -⟩
  refine .bind alone_nowIso ?_
  rintro _ _ ⟨rfl, -⟩
  refine .bind (alone_put fun h => h.setJob _) ?_
  rintro _ _ rfl
  exact .ok ⟨rfl, rfl⟩

theorem alone_loadOrBegin :
    (Protocol.sequential answerAlone (Frame id s₀)).Returns () (fun _ t => SameFiles s t)
      (ExportJobStore.loadOrBegin id) s := by
  refine .bind (alone_load id) ?_
  rintro payload _ ⟨rfl, -⟩
  cases payload with
  | none => exact alone_begin _ _
  | some payload => exact .ok ⟨rfl, rfl⟩

theorem alone_complete (artifactPath manifestPath : String) (files : List FileMetadata)
    (excelSafety : ExcelSafety) (manifest : Manifest) :
    (Protocol.sequential answerAlone (Frame id s₀)).Returns ()
      (fun payload t => SameFiles s t ∧ t.jobs id = some payload ∧
        payload.manifest = some manifest)
      (ExportJobStore.complete id artifactPath manifestPath files excelSafety manifest) s := by
  refine .bind alone_loadOrBegin fun payload t hsame => ?_
  refine .bind alone_nowIso ?_
  rintro _ _ ⟨rfl, -⟩
  refine .bind (alone_put fun h => h.setJob _) ?_
  rintro _ _ rfl
  exact .ok ⟨⟨hsame.files, hsame.memory⟩, by simp [World.setJob], rfl⟩

theorem alone_fail (error : JobError) :
    (Protocol.sequential answerAlone (Frame id s₀)).Returns () (fun _ _ => True)
      (ExportJobStore.fail id error) s := by
  refine .bind alone_loadOrBegin fun payload t _ => ?_
  refine .bind alone_nowIso ?_
  rintro _ _ ⟨rfl, -⟩
  exact .bind (alone_put fun h => h.setJob _) fun _ _ _ => .ok trivial

theorem alone_writeArtifact (W : ImportToSabtWorkflow) (rows : List Export.Row)
    (fileFormat : String) :
    (Protocol.sequential answerAlone (Frame id s₀)).Returns ()
      (fun artifact t => IsArtifact id artifact.1 ∧ t.memory = s.memory)
      (W.writeArtifact id rows fileFormat) s := by
  unfold ImportToSabtWorkflow.writeArtifact
  split
  · refine .bind (alone_writeFile fun h => h.setFile _ (.inl (.inl rfl))) ?_
    rintro _ _ rfl
    exact .ok ⟨.inl rfl, rfl⟩
  · split
    · refine .bind (alone_writeFile fun h => h.setFile _ (.inl (.inr rfl))) ?_
      rintro _ _ rfl
      exact .ok ⟨.inr rfl, rfl⟩
    · exact .raise

structure Finished (W : ImportToSabtWorkflow) (id : String) (s : World Unit)
    (record : ExportRecord) (manifest : Manifest) (t : World Unit) : Prop where
  own : record.manifest = some manifest
  files : ∀ file ∈ manifest.files, IsArtifact id file.name ∧
    ∃ content, t.files file.name = some content ∧ W.library.sha256 content = file.sha256
  job : ∃ payload, t.jobs id = some payload ∧ payload.manifest = some manifest
  remembered : (s.memory ()).exports id = none → (t.memory ()).exports id = some record

theorem alone_setDefault (record : ExportRecord) :
    (Protocol.sequential answerAlone (Frame id s₀)).Returns ()
      (fun _ t => t.files = s.files ∧ t.jobs = s.jobs ∧
        ((s.memory ()).exports id = none → (t.memory ()).exports id = some record))
      (Fallible.call (Request.setDefault id record) : Call Unit) s := by
  rintro _ rfl hinv ch x t _ hx
  obtain ⟨-, rfl⟩ := Prod.mk.inj (Option.some.inj hx)
  split
  · rename_i hsome
    refine ⟨hinv, trivial, fun _ _ => ⟨rfl, rfl, fun hnone => ?_⟩⟩
    rw [hnone] at hsome
    cases hsome
  · exact ⟨hinv.cacheExport record, trivial, fun _ _ =>
      ⟨rfl, rfl, fun _ => by simp [World.cacheExport, World.setMemory]⟩⟩

theorem alone_produce (W : ImportToSabtWorkflow) (fileFormat : String) (filters : Filters) :
    (Protocol.sequential answerAlone (Frame id s₀)).Returns ()
      (fun record t => ∃ manifest, Finished W id s record manifest t)
      (W.produce id fileFormat filters) s := by
  refine .bind (alone_fetchRows _ _) ?_
  rintro rows _ ⟨rfl, -⟩
  split
  · exact .raise
  refine .bind (alone_writeArtifact W _ fileFormat) ?_
  rintro ⟨name, counts⟩ t ⟨hname, hmemory⟩
  refine .bind (alone_readFile name) ?_
  rintro content _ ⟨rfl, hcontent⟩
  refine .bind alone_nowIso ?_
  rintro generatedAt _ ⟨rfl, -⟩
  refine .bind (alone_writeFile fun h => h.setFile _ (.inr rfl)) ?_
  rintro _ _ rfl
  refine .bind (alone_complete _ _ _ _ _) ?_
  rintro payload u ⟨hsame, hjob, hmanifest⟩
  refine .bind (alone_readFile name) ?_
  rintro _ _ ⟨rfl, -⟩
  refine .bind (alone_setDefault _) ?_
  rintro _ v ⟨hfiles, hjobs, hexports⟩
  refine .ok ⟨_, rfl, ?_, ⟨payload, by rw [hjobs]; exact hjob, hmanifest⟩, fun hnone => ?_⟩
  · rintro file hfile
    obtain rfl := List.mem_singleton.mp hfile
    refine ⟨hname, content, ?_, rfl⟩
    rw [hfiles, hsame.files]
    simpa [World.setFile, isArtifact_ne_manifestName hname] using hcontent
  · refine hexports ?_
    rw [hsame.memory, World.setFile, hmemory]
    exact hnone

theorem alone_exportAs (W : ImportToSabtWorkflow) (fileFormat : String) (filters : Filters) :
    (Protocol.sequential answerAlone (Frame id s₀)).Returns ()
      (fun record t => ∃ manifest, Finished W id s record manifest t)
      (W.exportAs id fileFormat filters) s := by
  refine .bind (alone_begin _ _) fun _ t hsame => ?_
  refine .handle (alone_produce W fileFormat filters) ?_ fun raised _ => ?_
  · rintro record u ⟨manifest, h⟩
    refine .ok ⟨manifest, h.own, h.files, h.job, fun hnone => h.remembered ?_⟩
    rw [hsame.memory]
    exact hnone
  · exact .bind (alone_fail _) fun _ _ _ => .raise

end

/-- Only a manifest of an upload may have changed. -/
structure UploadFrame (s t : World Unit) : Prop where
  jobs : t.jobs = s.jobs
  exports : (t.memory ()).exports = (s.memory ()).exports
  files : ∀ name, (∀ id, name ≠ manifestName id) → t.files name = s.files name

section
variable {W : ImportToSabtWorkflow} {s t : World Unit} {choices : List Choice} {id : String}

/-- All a call of `create_export` does. -/
theorem createExport_cases {year : Int} {center : Option Int} {fileFormat : String}
    {result : Except Raised ExportRecord}
    (h : (W.createExport year center fileFormat).played answerAlone choices s =
      some (result, t)) :
    Frame (W.idOf "export" (s.memory ()).counter) s t ∧ ∀ record, result = .ok record →
      ∃ manifest, Finished W (W.idOf "export" (s.memory ()).counter) s record manifest t := by
  cases choices with
  | nil => cases h
  | cons ch choices =>
    let drawn := s.setMemory () { s.memory () with counter := (s.memory ()).counter + 1 }
    have hrest : (W.exportAs (W.idOf "export" (s.memory ()).counter)
        (W.normalizedFormat fileFormat) ⟨year, center⟩).played answerAlone choices drawn =
        some (result, t) := h
    obtain ⟨hframe, hpost⟩ := (alone_exportAs W _ _).played (P := Protocol.sequential answerAlone
      (Frame (W.idOf "export" (s.memory ()).counter) drawn)) ⟨fun _ _ => rfl, fun _ _ => rfl,
        fun _ _ _ => rfl⟩ (fun _ _ _ => trivial) hrest
    refine ⟨⟨hframe.jobs, hframe.exports, hframe.files⟩, fun record hrecord => ?_⟩
    obtain ⟨manifest, hdone⟩ := hpost record hrecord
    exact ⟨manifest, hdone.own, hdone.files, hdone.job, hdone.remembered⟩

/-- All a call of `create_upload` does. -/
theorem createUpload_cases {profile : String} {year : Int} {result : Except Raised UploadRecord}
    (h : (W.createUpload profile year).played answerAlone choices s = some (result, t)) :
    UploadFrame s t := by
  have hsafe : (Protocol.sequential answerAlone (UploadFrame s)).Returns () (fun _ _ => True)
      (W.createUpload profile year) s := by
    refine .bind (M := fun _ _ => True) ?_ fun id u _ => ?_
    · refine .bind (M := fun _ _ => True) ?_ fun _ _ _ => .ok trivial
      rintro _ rfl hinv ch x t _ hx
      obtain ⟨-, rfl⟩ := Prod.mk.inj (Option.some.inj hx)
      exact ⟨⟨hinv.jobs, hinv.exports, hinv.files⟩, trivial, fun _ _ => trivial⟩
    refine .bind (M := fun _ _ => True) ?_ fun result u _ => ?_
    · rintro _ rfl hinv ch x t _ hx
      obtain ⟨-, rfl⟩ := Prod.mk.inj (Option.some.inj hx)
      exact ⟨hinv, trivial, fun _ _ => trivial⟩
    refine .bind alone_nowIso ?_
    rintro generatedAt _ ⟨rfl, -⟩
    refine .bind (alone_writeFile fun hinv => ⟨hinv.jobs, hinv.exports, fun name hname => ?_⟩)
      fun _ _ _ => .ok trivial
    simpa [World.setFile, hname id] using hinv.files name hname
  exact (hsafe.played ⟨rfl, rfl, fun _ _ => rfl⟩ (fun _ _ _ => trivial) h).1

/-- All a call of `get_export` does. -/
theorem getExport_cases {result : Except Raised (Option ExportRecord)}
    (h : (getExport id).played answerAlone choices s = some (result, t)) :
    t = s ∨ ∃ payload, s.jobs id = some payload ∧
      t = s.cacheExport () id (recordOf id payload) := by
  have hsafe : (Protocol.sequential answerAlone fun t => t = s ∨ ∃ payload,
      s.jobs id = some payload ∧ t = s.cacheExport () id (recordOf id payload)).Returns ()
      (fun _ _ => True) (getExport id) s := by
    refine .bind (alone_cached id) ?_
    rintro known _ ⟨rfl, -⟩
    cases known with
    | some record => exact .ok trivial
    | none =>
      refine .bind (alone_load id) ?_
      rintro payload _ ⟨rfl, hjob⟩
      cases payload with
      | none => exact .ok trivial
      | some payload =>
        refine .bind (M := fun _ _ => True) ?_ fun _ _ _ => .ok trivial
        rintro _ rfl - ch x t _ hx
        obtain ⟨-, rfl⟩ := Prod.mk.inj (Option.some.inj hx)
        exact ⟨.inr ⟨payload, hjob.symm, rfl⟩, trivial, fun _ _ => trivial⟩
  exact (hsafe.played (.inl rfl) (fun _ _ _ => trivial) h).1

end

/-- What is left of an export that succeeded, wherever it is looked up. -/
structure Held (W : ImportToSabtWorkflow) (s : World Unit) (id : String) (record : ExportRecord)
    (manifest : Manifest) : Prop where
  own : record.manifest = some manifest
  files : ∀ file ∈ manifest.files, IsArtifact id file.name ∧
    ∃ content, s.files file.name = some content ∧ W.library.sha256 content = file.sha256
  recorded : ∀ payload, s.jobs id = some payload → payload.manifest = some manifest
  remembered : ∀ r, (s.memory ()).exports id = some r → r.manifest = some manifest
  there : ((s.memory ()).exports id).isSome = true ∨ (s.jobs id).isSome = true

/-- Ids differ, only they are known, and every export that succeeded is held. -/
structure Service.Sound (W : ImportToSabtWorkflow) (v : Service) : Prop where
  distinct : (v.taken.map Prod.fst).Nodup
  recorded : ∀ id, (v.world.jobs id).isSome = true → id ∈ v.taken.map Prod.fst
  remembered : ∀ id, ((v.world.memory ()).exports id).isSome = true → id ∈ v.taken.map Prod.fst
  held : ∀ id record, (id, some record) ∈ v.taken → ∃ manifest, Held W v.world id record manifest

section
variable {W : ImportToSabtWorkflow} {s t : World Unit} {id : String} {record : ExportRecord}
  {manifest : Manifest} {v v' : Service}

theorem Held.preserved (h : Held W s id record manifest) : Preserved W s id record := by
  refine preserved_iff.mpr ⟨manifest, h.own, ?_, fun file hfile => (h.files file hfile).2⟩
  unfold lookup
  cases hexport : (s.memory ()).exports id with
  | some r => exact ⟨r, rfl, h.remembered r hexport⟩
  | none =>
    cases hjob : s.jobs id with
    | some payload => exact ⟨_, rfl, h.recorded payload hjob⟩
    | none =>
      have hthere := h.there
      simp [hexport, hjob] at hthere

/-- Whatever leaves an export's things alone leaves it held. -/
theorem Held.congr (h : Held W s id record manifest) (hjobs : t.jobs id = s.jobs id)
    (hexports : (t.memory ()).exports id = (s.memory ()).exports id)
    (hfiles : ∀ name, IsArtifact id name → t.files name = s.files name) :
    Held W t id record manifest where
  own := h.own
  files := fun file hfile => by
    obtain ⟨hname, content, hcontent, hsha⟩ := h.files file hfile
    exact ⟨hname, content, (hfiles _ hname).trans hcontent, hsha⟩
  recorded := fun payload hp => h.recorded payload (hjobs ▸ hp)
  remembered := fun r hr => h.remembered r (hexports ▸ hr)
  there := by
    rw [hjobs, hexports]
    exact h.there

theorem Finished.held (h : Finished W id s record manifest t)
    (hnone : (s.memory ()).exports id = none) : Held W t id record manifest := by
  have hexport := h.remembered hnone
  obtain ⟨payload, hjob, hmanifest⟩ := h.job
  refine ⟨h.own, h.files, fun p hp => ?_, fun r hr => ?_, .inl (by simp [hexport])⟩
  · obtain rfl := Option.some.inj (hjob.symm.trans hp)
    exact hmanifest
  · obtain rfl := Option.some.inj (hexport.symm.trans hr)
    exact h.own

theorem Held.cached (h : Held W s id record manifest) {payload : JobPayload}
    (hjob : s.jobs id = some payload) :
    Held W (s.cacheExport () id (recordOf id payload)) id record manifest where
  own := h.own
  files := h.files
  recorded := h.recorded
  remembered := fun r hr => by
    obtain rfl : recordOf id payload = r := by
      simpa [World.cacheExport, World.setMemory] using hr
    exact h.recorded payload hjob
  there := .inr (by simp [World.cacheExport, World.setMemory, hjob])

theorem Service.Sound.lasting (h : v.Sound W) : v.Lasting W where
  distinct := h.distinct
  preserved := fun id record hmem => by
    obtain ⟨manifest, hheld⟩ := h.held id record hmem
    exact hheld.preserved

theorem Service.Sound.export (h : v.Sound W) {result : Except Raised ExportRecord}
    (hnew : id ∉ v.taken.map Prod.fst) (hframe : Frame id v.world t)
    (hdone : ∀ record, result = .ok record →
      ∃ manifest, Finished W id v.world record manifest t) :
    Service.Sound W ⟨t, v.taken ++ [(id, result.toOption)]⟩ := by
  have hother : ∀ x ∈ v.taken, x.1 ≠ id := fun x hx he => hnew (he ▸ List.mem_map_of_mem hx)
  constructor
  · rw [List.map_append]
    refine List.nodup_append.mpr ⟨h.distinct, List.nodup_singleton _, fun a ha b hb he => ?_⟩
    obtain rfl : b = id := List.mem_singleton.mp hb
    exact hnew (he ▸ ha)
  · intro other hsome
    by_cases hid : other = id
    · simp [hid]
    · rw [hframe.jobs other hid] at hsome
      rw [List.map_append]
      exact List.mem_append_left _ (h.recorded other hsome)
  · intro other hsome
    by_cases hid : other = id
    · simp [hid]
    · rw [hframe.exports other hid] at hsome
      rw [List.map_append]
      exact List.mem_append_left _ (h.remembered other hsome)
  · intro other record hmem
    rcases List.mem_append.mp hmem with hmem | hmem
    · have hne := hother _ hmem
      obtain ⟨manifest, hheld⟩ := h.held other record hmem
      refine ⟨manifest, hheld.congr (hframe.jobs other hne) (hframe.exports other hne)
        fun name hname => hframe.files name (fun hid => hne (isArtifact_inj hname hid))
          (isArtifact_ne_manifestName hname id)⟩
    · obtain ⟨rfl, hrecord⟩ := Prod.mk.inj (List.mem_singleton.mp hmem)
      cases result with
      | error e => cases hrecord
      | ok r =>
        obtain rfl : record = r := Option.some.inj hrecord
        obtain ⟨manifest, hfin⟩ := hdone record rfl
        refine ⟨manifest, hfin.held ?_⟩
        cases hexport : (v.world.memory ()).exports other with
        | none => rfl
        | some r => exact absurd (h.remembered other (by simp [hexport])) hnew

theorem Service.Sound.next (h : v.Sound W) {l : ServiceCall × List Choice}
    (hl : v.Undisturbed W l) (hnext : v.next W l = some v') : v'.Sound W := by
  obtain ⟨call, choices⟩ := l
  cases call with
  | createUpload profile year =>
    obtain ⟨⟨result, t⟩, hplayed, rfl⟩ := Option.map_eq_some_iff.mp hnext
    have hframe := createUpload_cases hplayed
    refine ⟨h.distinct, fun id hid => h.recorded id (hframe.jobs ▸ hid),
      fun id hid => h.remembered id (hframe.exports ▸ hid), fun id record hmem => ?_⟩
    obtain ⟨manifest, hheld⟩ := h.held id record hmem
    exact ⟨manifest, hheld.congr (congrFun hframe.jobs id) (congrFun hframe.exports id)
      fun name hname => hframe.files name (isArtifact_ne_manifestName hname)⟩
  | createExport year center fileFormat =>
    obtain ⟨⟨result, t⟩, hplayed, rfl⟩ := Option.map_eq_some_iff.mp hnext
    obtain ⟨hframe, hdone⟩ := createExport_cases hplayed
    exact h.export hl hframe hdone
  | getExport id =>
    obtain ⟨⟨result, t⟩, hplayed, rfl⟩ := Option.map_eq_some_iff.mp hnext
    rcases getExport_cases hplayed with rfl | ⟨payload, hjob, rfl⟩
    · exact h
    · refine ⟨h.distinct, h.recorded, fun other hsome => ?_, fun other record hmem => ?_⟩
      · by_cases hid : other = id
        · subst hid
          exact h.recorded other (by simp [hjob])
        · refine h.remembered other ?_
          simpa [World.cacheExport, World.setMemory, hid] using hsome
      · obtain ⟨manifest, hheld⟩ := h.held other record hmem
        refine ⟨manifest, ?_⟩
        by_cases hid : other = id
        · subst hid
          exact hheld.cached hjob
        · refine hheld.congr rfl ?_ fun _ _ => rfl
          simp [World.cacheExport, World.setMemory, hid]
  | restart =>
    obtain rfl := Option.some.inj hnext
    refine ⟨h.distinct, h.recorded, fun id hsome => ?_, fun id record hmem => ?_⟩
    · simp [World.setMemory] at hsome
    · obtain ⟨manifest, hheld⟩ := h.held id record hmem
      refine ⟨manifest, hheld.own, hheld.files, hheld.recorded, fun r hr => ?_,
        .inr (hl id record hmem)⟩
      simp [World.setMemory] at hr
  | expire id =>
    obtain rfl := Option.some.inj hnext
    refine ⟨h.distinct, fun other hsome => h.recorded other ?_, h.remembered,
      fun other record hmem => ?_⟩
    · by_cases hid : other = id
      · simp [World.setJob, hid] at hsome
      · simpa [World.setJob, hid] using hsome
    · obtain ⟨manifest, hheld⟩ := h.held other record hmem
      refine ⟨manifest, ?_⟩
      by_cases hid : other = id
      · subst hid
        refine ⟨hheld.own, hheld.files, fun payload hp => ?_, hheld.remembered,
          .inl (hl record hmem)⟩
        simp [World.setJob] at hp
      · exact hheld.congr (by simp [World.setJob, hid]) rfl fun _ _ => rfl

/-- A step after which nothing is lost was undisturbed. -/
theorem undisturbed_of_lasting {l : ServiceCall × List Choice} (hnext : v.next W l = some v')
    (h : v'.Lasting W) : v.Undisturbed W l := by
  obtain ⟨call, choices⟩ := l
  cases call with
  | createUpload profile year => trivial
  | getExport id => trivial
  | createExport year center fileFormat =>
    obtain ⟨⟨result, t⟩, -, rfl⟩ := Option.map_eq_some_iff.mp hnext
    have hnodup := h.distinct
    rw [List.map_append] at hnodup
    intro hmem
    exact (List.nodup_append.mp hnodup).2.2 _ hmem _ (List.mem_singleton_self _) rfl
  | restart =>
    obtain rfl := Option.some.inj hnext
    intro id record hmem
    obtain ⟨manifest, -, ⟨r, hr, -⟩, -⟩ := preserved_iff.mp (h.preserved id record hmem)
    cases hjob : v.world.jobs id with
    | some payload => rfl
    | none => simp [lookup, World.setMemory, hjob] at hr
  | expire id =>
    obtain rfl := Option.some.inj hnext
    intro record hmem
    obtain ⟨manifest, -, ⟨r, hr, -⟩, -⟩ := preserved_iff.mp (h.preserved id record hmem)
    cases hexport : (v.world.memory ()).exports id with
    | some payload => rfl
    | none => simp [lookup, World.setJob, hexport] at hr

/-- No export is ever overwritten or lost exactly when the counters of the processes never
give an id again and no record is missed once it has expired. -/
theorem lasting_iff {trace : List (Service × (ServiceCall × List Choice))}
    (h : Run (fun v l v' => v.next W l = some v') {} trace v) :
    Throughout (Service.Lasting W) trace v ↔ EachStep (Service.Undisturbed W) trace := by
  constructor
  · rintro ⟨hall, hend⟩ ⟨u, l⟩ hmem
    obtain ⟨before, rest, rfl⟩ := List.append_of_mem hmem
    obtain ⟨-, hstep⟩ := h.split
    refine undisturbed_of_lasting hstep ?_
    cases rest with
    | nil => exact hend
    | cons q rest => exact hall q (by simp)
  · intro hc
    refine (h.invariant (I := Service.Sound W) ?_ (fun _ _ _ hs hl => hs.next hl) hc).imp
      fun _ hs => hs.lasting
    constructor <;> simp

end

/-- What an export meets that finds so many rows and no trouble. -/
def calmExport (rows : Nat) : List Choice :=
  let calm : Choice := {}
  List.replicate 4 calm ++ { calm with rows := List.replicate rows [] } :: List.replicate 9 calm

def exportAgain : List (ServiceCall × List Choice) :=
  [(.createExport 1403 none "csv", calmExport 1), (.restart, []),
    (.createExport 1404 none "csv", calmExport 2)]

theorem lasting_iff_again : ∃ v, replay (Service.next plainFlow) {} exportAgain = some v ∧
    (Throughout (Service.Lasting plainFlow)
        (trail (Service.next plainFlow) {} exportAgain) v ↔
      EachStep (Service.Undisturbed plainFlow)
        (trail (Service.next plainFlow) {} exportAgain)) := by
  have hsome : (replay (Service.next plainFlow) {} exportAgain).isSome = true := by
    decide +kernel
  obtain ⟨v, hv⟩ := Option.isSome_iff_exists.mp hsome
  exact ⟨v, hv, lasting_iff (run_of_replay hv)⟩

/-- After a restart the counter starts again, and the first export gets the id and the
files of an earlier one. -/
theorem export_overwritten : ∃ trace v,
    Run (fun v l v' => Service.next plainFlow v l = some v') {} trace v ∧
    ¬ Throughout (Service.Lasting plainFlow) trace v := by
  have hids : (replay (Service.next plainFlow) {} exportAgain).map
      (fun v : Service => v.taken.map Prod.fst) = some ["export-export:1", "export-export:1"] := by
    decide +kernel
  obtain ⟨v, hv, hids⟩ := Option.map_eq_some_iff.mp hids
  refine ⟨_, v, run_of_replay hv, fun hlasting => ?_⟩
  have hnodup := hlasting.2.distinct
  rw [hids] at hnodup
  exact absurd hnodup (by decide)

end Xlsx

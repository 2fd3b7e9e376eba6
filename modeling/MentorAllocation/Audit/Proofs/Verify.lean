import MentorAllocation.Audit.Proofs.Enforce

namespace Audit
open Data Effects Files Text

variable {L : Library} {A : AuditArchiver} {E : AuditRetentionEnforcer} {v : View} {disk : Disk}
  {monthKey : MonthKey}

/-- The file of an artifact is there with the digest that the manifest gives. -/
def Intact (L : Library) (v : View) (artifact : Json) : Prop :=
  ∃ name contents, (member? "name" artifact).map (·.getD (.str "")) = .ok (.str name) ∧
    v.files (PurePath.ofText name) = some contents ∧
    member? "sha256" artifact = .ok (some (.str (L.sha256 contents)))

/-- No file is in the way of a directory. -/
def Reachable (base : PurePath) (v : View) : Prop :=
  ∀ parts ∈ base.parts.inits, v.files ⟨base.absolute, parts⟩ = none

/-- A month has a manifest, and all its artifacts are intact. -/
def Verified (A : AuditArchiver) (v : View) (monthKey : MonthKey) : Prop :=
  ∃ key window bytes payload artifacts, monthKey = .text key ∧ windowOf A.tz key = .ok window ∧
    Reachable (A.baseOf window) v ∧ v.files (A.manifestPath window) = some bytes ∧
    loadsBytes A.lib bytes = .ok payload ∧ artifactsOf A.lib payload = .ok artifacts ∧
    ∀ artifact ∈ artifacts, Intact A.lib v artifact

theorem mkdir_isSome_iff {base : PurePath} {w : World} :
    (w.disk.mkdir base).isSome ↔ Reachable base w.view := by
  unfold Disk.mkdir Reachable
  split
  · next hfile =>
    obtain ⟨parts, hparts, hread⟩ := List.any_eq_true.mp hfile
    refine iff_of_false (by simp) fun h => ?_
    have hnone : w.disk.read ⟨base.absolute, parts⟩ = none := h parts hparts
    rw [hnone] at hread
    cases hread
  · next hfree =>
    refine iff_of_true rfl fun parts hparts => ?_
    by_contra hsome
    exact hfree (List.any_eq_true.mpr ⟨parts, hparts, Option.isSome_iff_ne_none.mpr hsome⟩)

theorem intact_eq_ok_true {artifact : Json} {w : World} :
    AuditRetentionEnforcer.intact L w.disk artifact = .ok true ↔ Intact L w.view artifact := by
  unfold AuditRetentionEnforcer.intact
  constructor
  · intro h
    obtain ⟨found, hfound, h⟩ := bind_eq_ok.mp h
    split at h
    · next name hname =>
      split at h
      · cases h
      · cases h
      · next contents hget =>
        obtain ⟨digest, hdigest, h⟩ := bind_eq_ok.mp h
        split at h
        · next text =>
          obtain rfl := beq_iff_eq.mp (Except.ok.inj h)
          refine ⟨name, contents, ?_, Disk.read_eq_some.mpr hget, hdigest⟩
          rw [hfound]
          exact congrArg Except.ok hname
        · cases h
    · cases h
  · rintro ⟨name, contents, hname, hread, hdigest⟩
    cases hfound : member? "name" artifact with
    | error e =>
      rw [hfound] at hname
      cases hname
    | ok found =>
      rw [hfound] at hname
      have hname : found.getD (.str "") = .str name := Except.ok.inj hname
      have hget : w.disk.get (PurePath.ofText name) = some (.file contents) :=
        Disk.read_eq_some.mp hread
      rw [ok_bind, hname]
      dsimp only
      rw [hget, hdigest]
      exact congrArg Except.ok (beq_self_eq_true _)

theorem allIntact_eq_ok_true {artifacts : List Json} {w : World} :
    AuditRetentionEnforcer.allIntact L w.disk artifacts = .ok true ↔
      ∀ artifact ∈ artifacts, Intact L w.view artifact := by
  induction artifacts with
  | nil => exact iff_of_true rfl fun _ h => absurd h List.not_mem_nil
  | cons artifact rest ih =>
    rw [List.forall_mem_cons, ← intact_eq_ok_true, ← ih, AuditRetentionEnforcer.allIntact,
      bind_eq_ok]
    constructor
    · rintro ⟨found, hfound, h⟩
      cases found with
      | true => exact ⟨hfound, h⟩
      | false => cases h
    · rintro ⟨hfirst, hrest⟩
      exact ⟨true, hfirst, hrest⟩

/-- `_verify_archive` passes a verified month, if none of its calls fails. -/
theorem exec_verifyArchive {w : World} (h : Verified E.archiver w.view monthKey)
    (hcalm : w.faults = []) : ∃ after, exec (E.verifyArchive monthKey) w = (.ok true, after) ∧
      after.view = w.view ∧ after.faults = [] := by
  obtain ⟨key, window, bytes, payload, artifacts, rfl, hwindow, hreachable, hmanifest, hloads,
    hartifacts, hintact⟩ := h
  obtain ⟨made, hmade⟩ := Option.isSome_iff_exists.mp (mkdir_isSome_iff.mpr hreachable)
  have hfiles := funext (Disk.mkdir_spec hmade).2
  have hview : World.view { w with disk := made } = w.view := by
    rw [World.view, World.view, hfiles]
  have hmkdir : exec (Act.onDisk fun disk => disk.mkdir (E.archiver.baseOf window)) w =
      (.ok (), { w with disk := made }) := by
    rw [exec_onDisk hcalm, hmade]
  have hpath : exec (E.archiver.artifactPath window (E.archiver.manifestPath window)) w =
      (.ok (E.archiver.manifestPath window), { w with disk := made }) := exec_bind_ok hmkdir
  have hkey : exec (Act.ofExcept (windowOf E.archiver.tz key)) w = (.ok window, w) := by
    rw [exec_ofExcept, hwindow]
  have hread : made.read (E.archiver.manifestPath window) = some bytes := by
    rw [hfiles]
    exact hmanifest
  have hcheck : AuditRetentionEnforcer.checkManifest E.archiver.lib made bytes = .ok true := by
    rw [AuditRetentionEnforcer.checkManifest, hloads, ok_bind, hartifacts, ok_bind]
    refine (allIntact_eq_ok_true (w := { w with disk := made })).mpr ?_
    rw [hview]
    exact hintact
  refine ⟨_, ?_, hview, hcalm⟩
  rw [AuditRetentionEnforcer.verifyArchive]
  dsimp only
  rw [exec_bind_ok hkey, exec_bind_ok hpath,
    exec_bind_ok (exec_call (w := { w with disk := made }) hcalm _), exec_bind_ok (exec_get _)]
  dsimp only
  rw [Disk.read_eq_some.mp hread]
  dsimp only
  rw [exec_ofExcept, hcheck]

/-- Where a directory can be made, nothing is in its way. -/
theorem meets_reachable (base : PurePath) : Meets (Seen (· = v))
    (Act.onDisk fun disk => disk.mkdir base) (fun _ w => Seen (· = v) w ∧ Reachable base v)
      (Seen (· = v)) := by
  refine (meets_call _).bind fun _ => .get fun w hw => ?_
  have hview : w.view = v := hw
  split
  · next disk hdisk =>
    have hdisk : w.disk.mkdir base = some disk := hdisk
    have hreachable : Reachable base v := by
      rw [← hview, ← mkdir_isSome_iff, hdisk]
      rfl
    refine .set ⟨?_, hreachable⟩
    have hfiles := funext (Disk.mkdir_spec hdisk).2
    rw [Seen, World.view, hfiles]
    exact hview
  · exact .throw fun s hs => hs ▸ hw

theorem meets_artifactPath_reachable {window : AuditArchiveWindow} (path : PurePath) :
    Meets (Seen (· = v)) (A.artifactPath window path)
      (fun found w => (Seen (· = v) w ∧ found = path) ∧ Reachable (A.baseOf window) v)
      (Seen (· = v)) :=
  (meets_reachable _).bind fun _ => .of_and fun hreachable => .pure fun _ hw =>
    ⟨⟨hw, rfl⟩, hreachable⟩

/-- It passes no other month, whichever of its calls fail. -/
theorem meets_verifyArchive_of_not (h : ¬Verified E.archiver v monthKey) :
    Meets (Seen (· = v)) (E.verifyArchive monthKey)
      (fun found w => Seen (· = v) w ∧ found = false) (Seen (· = v)) := by
  unfold AuditRetentionEnforcer.verifyArchive
  split
  swap
  · exact .throw fun _ h => h
  next key =>
  refine ((meets_ofExcept _).mono (fun _ h => h) (fun _ _ h => h) fun _ h => h).bind
    fun window => .of_and fun hwindow => ?_
  refine (meets_artifactPath_reachable _).bind fun path => .of_and fun hreachable =>
    .of_and fun hpath => (meets_call _).bind fun _ => .get fun w hw => ?_
  subst hpath
  have hview : w.view = v := hw
  dsimp only
  split
  · exact .pure fun s hs => ⟨hs ▸ hw, rfl⟩
  · exact .throw fun s hs => hs ▸ hw
  · next bytes hget =>
    refine ((meets_ofExcept _).mono (fun s hs => hs ▸ hw) (fun found s hs => ⟨hs.1, ?_⟩)
      fun _ h => h)
    cases found with
    | false => rfl
    | true =>
      have hcheck := hs.2
      rw [AuditRetentionEnforcer.checkManifest] at hcheck
      obtain ⟨payload, hloads, hcheck⟩ := bind_eq_ok.mp hcheck
      obtain ⟨artifacts, hartifacts, hcheck⟩ := bind_eq_ok.mp hcheck
      rw [allIntact_eq_ok_true, hview] at hcheck
      have hmanifest : w.view.files (E.archiver.manifestPath window) = some bytes :=
        Disk.read_eq_some.mpr hget
      exact absurd ⟨key, window, bytes, payload, artifacts, rfl, hwindow, hreachable,
        hview ▸ hmanifest, hloads, hartifacts, hcheck⟩ h

namespace AuditRetentionEnforcer
variable {entry : RetentionPlanEntry} {w : World}

def dropAll (v : View) (entries : List RetentionPlanEntry) : View :=
  { v with events := v.events.filter fun event =>
      !entries.any fun entry => AuditArchiver.inWindow entry.start entry.stop event }

theorem dropAll_cons (v : View) (entry : RetentionPlanEntry) (entries : List RetentionPlanEntry) :
    dropAll v (entry :: entries) = dropAll (v.drop entry.start entry.stop) entries := by
  simp only [dropAll, View.drop, List.filter_filter, List.any_cons, Bool.not_or]
  simp only [Bool.and_comm]

/-- The database lets the events of a window go. -/
def Deletable (dialect : Dialect) (v : View) (entry : RetentionPlanEntry) : Prop :=
  dialect = .postgresql → ∀ event ∈ v.events,
    AuditArchiver.inWindow entry.start entry.stop event = false

/-- What the loop gets past: a verified month whose events can be deleted. -/
structure Passes (E : AuditRetentionEnforcer) (v : View) (entry : RetentionPlanEntry) : Prop where
  verified : Verified E.archiver v entry.monthKey
  deletable : Deletable E.archiver.dialect v entry

/-- What is deleted does not matter to the entries behind it. -/
theorem passes_drop (h : Deletable E.archiver.dialect v entry) {other : RetentionPlanEntry} :
    E.Passes (v.drop entry.start entry.stop) other ↔ E.Passes v other := by
  cases hdialect : E.archiver.dialect with
  | sqlite =>
    have hany : ∀ v other, Deletable E.archiver.dialect v other := by
      intro v other hpostgresql
      rw [hdialect] at hpostgresql
      cases hpostgresql
    exact ⟨fun h => ⟨h.verified, hany _ _⟩, fun h => ⟨h.verified, hany _ _⟩⟩
  | postgresql =>
    have hall : v.events.filter
        (fun event => !AuditArchiver.inWindow entry.start entry.stop event) = v.events :=
      List.filter_eq_self.mpr fun event hevent => by rw [h hdialect event hevent]; rfl
    rw [View.drop, hall]

/-- The check of a month, and what comes of it where no call fails. -/
theorem verify_outcome {result : Except Raised Bool} {after : World}
    (h : exec (E.runWithRetry (E.verifyArchive monthKey)) w = (result, after)) :
    after.view = w.view ∧ (result = .ok true → Verified E.archiver w.view monthKey) ∧
      (w.faults = [] → Verified E.archiver w.view monthKey →
        result = .ok true ∧ after.faults = []) := by
  refine ⟨?_, ?_, ?_⟩
  · have hkeeps : Keeps (Seen (· = w.view)) (E.runWithRetry (E.verifyArchive monthKey)) :=
      (meets_verifyArchive monthKey).retrying _
    have hafter := hkeeps.exec (s := w) rfl
    rw [h] at hafter
    exact hafter
  · rintro rfl
    by_contra hnot
    cases (((meets_verifyArchive_of_not hnot).retrying _).ok rfl h).2
  · intro hcalm hverified
    obtain ⟨checked, hexec, -, hfaults⟩ := exec_verifyArchive hverified hcalm
    have hsame := h.symm.trans (exec_retrying_ok hexec _)
    cases hsame
    exact ⟨rfl, hfaults⟩

theorem drop_outcome {result : Except Raised Unit} {after : World}
    (h : exec (E.runWithRetry (E.dropPartition entry)) w = (result, after)) :
    (result = .ok () → Deletable E.archiver.dialect w.view entry ∧
      after.view = w.view.drop entry.start entry.stop) ∧
    (result ≠ .ok () → after.view = w.view) ∧
    (w.faults = [] → Deletable E.archiver.dialect w.view entry →
      result = .ok () ∧ after.faults = []) := by
  have hmeets : Meets (Seen (· = w.view)) (E.dropPartition entry)
      (fun _ s => Deletable E.archiver.dialect w.view entry ∧
        s.view = w.view.drop entry.start entry.stop) (Seen (· = w.view)) := by
    refine (meets_call _).bind fun _ => .get fun s hs => ?_
    have hview : s.view = w.view := hs
    dsimp only
    split
    · exact .throw_bind fun _ ht => ht ▸ hs
    · next hnone =>
      refine .set ⟨fun hpostgresql event hevent => ?_, ?_⟩
      · rw [← hview] at hevent
        by_contra hin
        exact hnone ⟨hpostgresql, List.any_eq_true.mpr ⟨event, hevent, by simpa using hin⟩⟩
      · rw [← hview]
        rfl
  have hretried := hmeets.retrying (E.config.retryAttempts.toNat - 1)
  refine ⟨?_, ?_, ?_⟩
  · rintro rfl
    exact hretried.ok rfl h
  · intro hfailed
    cases result with
    | error e => exact hretried.error rfl h
    | ok u => exact absurd rfl hfailed
  · intro hcalm hdeletable
    have hnone : ¬(E.archiver.dialect = .postgresql ∧
        w.events.any (AuditArchiver.inWindow entry.start entry.stop) = true) := by
      rintro ⟨hpostgresql, hany⟩
      obtain ⟨event, hevent, hin⟩ := List.any_eq_true.mp hany
      rw [hdeletable hpostgresql event hevent] at hin
      cases hin
    have hexec : ∃ dropped, exec (E.dropPartition entry) w = (.ok (), dropped) ∧
        dropped.faults = [] := by
      rw [dropPartition, exec_bind_ok (exec_call hcalm _), exec_bind_ok (exec_get w)]
      dsimp only
      rw [if_neg hnone]
      exact ⟨_, rfl, hcalm⟩
    obtain ⟨dropped, hexec, hfaults⟩ := hexec
    cases h.symm.trans (exec_retrying_ok hexec _)
    exact ⟨rfl, hfaults⟩

/-- How far a loop over entries gets: it deletes the events of those in front, all of which it gets
past, and of these alone. Where no call fails it ends only before an entry that it does not get
past. -/
structure Clears (E : AuditRetentionEnforcer) {α : Type} (w : World)
    (entries dropped rest : List RetentionPlanEntry) (outcome : Except Raised α × World) :
    Prop where
  split : entries = dropped ++ rest
  passes : ∀ entry ∈ dropped, E.Passes w.view entry
  view : outcome.2.view = dropAll w.view dropped
  whole : outcome.1.isOk = true → rest = []
  stuck : w.faults = [] → ∀ entry ∈ rest.head?, ¬E.Passes w.view entry

theorem Clears.here {α : Type} {entries : List RetentionPlanEntry} {e : Raised} {after : World}
    (hview : after.view = w.view) (hnot : w.faults = [] → ¬E.Passes w.view entry) :
    E.Clears w (entry :: entries) [] (entry :: entries)
      ((.error e, after) : Except Raised α × World) where
  split := rfl
  passes _ h := absurd h List.not_mem_nil
  view := by simpa [dropAll] using hview
  whole h := by cases h
  stuck hcalm first hfirst := by
    cases hfirst
    exact hnot hcalm

theorem Clears.past {α : Type} {entries dropped rest : List RetentionPlanEntry} {next : World}
    {outcome : Except Raised α × World} (h : E.Clears next entries dropped rest outcome)
    (hpasses : E.Passes w.view entry) (hnext : next.view = w.view.drop entry.start entry.stop)
    (hcalm : w.faults = [] → next.faults = []) :
    E.Clears w (entry :: entries) (entry :: dropped) rest outcome where
  split := by rw [h.split, List.cons_append]
  passes := by
    refine List.forall_mem_cons.mpr ⟨hpasses, fun other hother => ?_⟩
    exact (passes_drop hpasses.deletable).mp (hnext ▸ h.passes other hother)
  view := by rw [h.view, hnext, dropAll_cons]
  whole := h.whole
  stuck hfaults other hother hpassed :=
    h.stuck (hcalm hfaults) other hother (hnext ▸ (passes_drop hpasses.deletable).mpr hpassed)

/-- Without a schedule the loop returns once it has cleared all entries. -/
theorem enforceEntries_clears (entries : List RetentionPlanEntry) (w : World) :
    ∃ dropped rest, E.Clears w entries dropped rest (exec (E.enforceEntries entries) w) ∧
      (w.faults = [] → rest = [] → (exec (E.enforceEntries entries) w).1.isOk = true) := by
  induction entries generalizing w with
  | nil =>
    refine ⟨[], [], ⟨rfl, fun _ h => absurd h List.not_mem_nil, ?_, fun _ => rfl,
      fun _ _ h => (by cases h)⟩, fun _ _ => rfl⟩
    simp [enforceEntries, dropAll]
  | cons entry entries ih =>
    rcases hverify : exec (E.runWithRetry (E.verifyArchive entry.monthKey)) w with
      ⟨result, checked⟩
    obtain ⟨hchecked, hverified, hcalm⟩ := verify_outcome hverify
    have hstop : ∀ e after, after.view = w.view →
        (w.faults = [] → ¬E.Passes w.view entry) →
        exec (E.enforceEntries (entry :: entries)) w = (.error e, after) →
        ∃ dropped rest, E.Clears w (entry :: entries) dropped rest
            (exec (E.enforceEntries (entry :: entries)) w) ∧
          (w.faults = [] → rest = [] →
            (exec (E.enforceEntries (entry :: entries)) w).1.isOk = true) := by
      intro e after hview hnot hexec
      rw [hexec]
      exact ⟨_, _, .here hview hnot, fun _ h => absurd h (List.cons_ne_nil _ _)⟩
    by_cases hpassed : result = .ok true
    · subst hpassed
      rcases hdrop : exec (E.runWithRetry (E.dropPartition entry)) checked with ⟨result, next⟩
      obtain ⟨hdone, hundone, hcalmDrop⟩ := drop_outcome hdrop
      rw [hchecked] at hdone hundone hcalmDrop
      cases result with
      | ok u =>
        have hrest : exec (E.enforceEntries (entry :: entries)) w =
            exec (E.enforceEntries entries) next := by
          rw [enforceEntries, exec_bind_ok hverify]
          exact exec_bind_ok hdrop
        obtain ⟨hdeletable, hnext⟩ := hdone rfl
        have hpasses : E.Passes w.view entry := ⟨hverified rfl, hdeletable⟩
        have hnextCalm : w.faults = [] → next.faults = [] := fun hfaults =>
          (hcalmDrop (hcalm hfaults hpasses.verified).2 hdeletable).2
        obtain ⟨dropped, rest, hclears, hreturns⟩ := ih next
        rw [hrest]
        exact ⟨_, _, hclears.past hpasses hnext hnextCalm, fun hfaults =>
          hreturns (hnextCalm hfaults)⟩
      | error e =>
        refine hstop e next (hundone fun h => by cases h) (fun hfaults hpasses => ?_) ?_
        · cases (hcalmDrop (hcalm hfaults hpasses.verified).2 hpasses.deletable).1
        · rw [enforceEntries, exec_bind_ok hverify]
          exact exec_bind_error hdrop
    · have hnot : w.faults = [] → ¬E.Passes w.view entry := fun hfaults hpasses =>
        hpassed (hcalm hfaults hpasses.verified).1
      cases result with
      | error e => exact hstop e checked hchecked hnot (exec_bind_error hverify)
      | ok found =>
        cases found with
        | true => exact absurd rfl hpassed
        | false =>
          refine hstop (.archiveFailure retentionError) checked hchecked hnot ?_
          rw [enforceEntries, exec_bind_ok hverify]
          rfl

def listing (E : AuditRetentionEnforcer) (disk : Disk) : Except Raised (List PartitionInfo) :=
  match disk.get E.archiver.partitionsPath with
  | none => .ok []
  | some .directory => .error .osError
  | some (.file bytes) => do
    (← iterate (← loadsBytes E.archiver.lib bytes)).mapM (partitionOf E.archiver.lib)

/-- The partitions are listed, unless the call fails, and nothing else happens. -/
theorem exec_listPartitions_eq (w : World) :
    exec E.listPartitions w = (E.listing w.disk, { w with faults := w.faults.tail }) ∨
      (exec E.listPartitions w = (.error .osError, { w with faults := w.faults.tail }) ∧
        w.faults ≠ []) := by
  rcases exec_call_cases .osError w with hcall | hcall
  · left
    rw [listPartitions, exec_bind_ok hcall, exec_bind_ok (exec_get _), listing]
    dsimp only
    cases w.disk.get E.archiver.partitionsPath with
    | none => rfl
    | some found =>
      cases found with
      | directory => rfl
      | file bytes => exact exec_ofExcept _ _
  · right
    refine ⟨exec_bind_error hcall, fun hcalm => ?_⟩
    cases hcall.symm.trans (exec_call hcalm _)

theorem listPartitions_calm (hcalm : w.faults = []) :
    exec E.listPartitions w = (E.listing w.disk, w) := by
  rcases exec_listPartitions_eq (E := E) w with h | ⟨-, hne⟩
  · rw [h, hcalm, List.tail_nil, ← hcalm]
  · exact absurd hcalm hne

/-- What a dry run of which no call fails says that would be deleted. -/
def planned (E : AuditRetentionEnforcer) (now : DateTime) (w : World) : List RetentionPlanEntry :=
  ((exec (E.enforce now true) { w with faults := [] }).1.toOption.map Prod.fst).getD []

theorem exec_dryRun (hcalm : w.faults = []) (now : DateTime) : exec (E.enforce now true) w =
    ((E.listing w.disk).map fun partitions => (E.config.plan now partitions, []), w) := by
  have hlist := listPartitions_calm (E := E) hcalm
  cases hlisting : E.listing w.disk with
  | error e =>
    rw [hlisting] at hlist
    exact exec_bind_error hlist
  | ok partitions =>
    rw [hlisting] at hlist
    exact exec_bind_ok hlist

theorem planned_eq (now : DateTime) (w : World) :
    E.planned now w = ((E.listing w.disk).toOption.map (E.config.plan now)).getD [] := by
  rw [planned, exec_dryRun rfl]
  cases E.listing w.disk with
  | error e => rfl
  | ok partitions => rfl

/-- Where the listing fails nothing is cleared. -/
theorem clears_nothing {α : Type} {entries : List RetentionPlanEntry} {e : Raised} {after : World}
    (hview : after.view = w.view) (hcalm : w.faults = [] → entries = []) :
    E.Clears w entries [] entries ((.error e, after) : Except Raised α × World) where
  split := rfl
  passes _ h := absurd h List.not_mem_nil
  view := by simpa [dropAll] using hview
  whole h := by cases h
  stuck hfaults other hother := by
    rw [hcalm hfaults] at hother
    cases hother

/-- A dry run changes nothing. Whichever calls fail, `enforce` deletes the events of some months
in front of what the dry run plans, all of them verified, and of these alone; it returns only if
these are all. Where no call fails it stops at the first month that it cannot delete, and reports
the plan if there is none. -/
theorem enforce_exact (E : AuditRetentionEnforcer) (now : DateTime) (w : World) :
    (exec (E.enforce now true) w).2 = { w with faults := w.faults.tail } ∧
    ∃ dropped rest, E.Clears w (E.planned now w) dropped rest (exec (E.enforce now false) w) ∧
      (w.faults = [] → rest = [] → (exec (E.enforce now false) w).1 =
        (exec (E.enforce now true) w).1.map fun found => (found.1, found.1)) := by
  have hraises : ∀ e, exec E.listPartitions w = (.error e, { w with faults := w.faults.tail }) →
      (w.faults = [] → E.planned now w = []) →
      (exec (E.enforce now true) w).2 = { w with faults := w.faults.tail } ∧
      ∃ dropped rest, E.Clears w (E.planned now w) dropped rest (exec (E.enforce now false) w) ∧
        (w.faults = [] → rest = [] → (exec (E.enforce now false) w).1 =
          (exec (E.enforce now true) w).1.map fun found => (found.1, found.1)) := by
    intro e hlist hnone
    have hraise : ∀ dryRun, exec (E.enforce now dryRun) w =
        (.error e, { w with faults := w.faults.tail }) := fun _ => exec_bind_error hlist
    rw [hraise, hraise]
    exact ⟨rfl, _, _, clears_nothing rfl hnone, fun _ _ => rfl⟩
  rcases exec_listPartitions_eq (E := E) w with hlist | ⟨hlist, hfaults⟩
  · cases hlisting : E.listing w.disk with
    | error e =>
      rw [hlisting] at hlist
      exact hraises e hlist fun _ => by rw [planned_eq, hlisting]; rfl
    | ok partitions =>
      rw [hlisting] at hlist
      have hdry : exec (E.enforce now true) w =
        (.ok (E.config.plan now partitions, []), { w with faults := w.faults.tail }) :=
        exec_bind_ok hlist
      have hreal : exec (E.enforce now false) w = exec (do
          E.enforceEntries (E.config.plan now partitions)
          return (E.config.plan now partitions, E.config.plan now partitions))
            { w with faults := w.faults.tail } := exec_bind_ok hlist
      have hplanned : E.planned now w = E.config.plan now partitions := by
        rw [planned_eq, hlisting]
        rfl
      have htail : w.faults = [] → w.faults.tail = [] := fun h => by rw [h]; rfl
      obtain ⟨dropped, rest, hclears, hreturns⟩ := enforceEntries_clears (E := E)
        (E.config.plan now partitions) { w with faults := w.faults.tail }
      rw [hdry, hreal, hplanned]
      refine ⟨rfl, dropped, rest, ?_⟩
      rcases hexec : exec (E.enforceEntries (E.config.plan now partitions))
        { w with faults := w.faults.tail } with ⟨e | u, last⟩
      · rw [hexec] at hclears hreturns
        rw [exec_bind_error hexec]
        exact ⟨⟨hclears.split, hclears.passes, hclears.view, fun h => (by cases h),
          fun h => hclears.stuck (htail h)⟩,
          fun h hnil => absurd (hreturns (htail h) hnil) Bool.false_ne_true⟩
      · rw [hexec] at hclears
        rw [exec_bind_ok hexec]
        exact ⟨⟨hclears.split, hclears.passes, hclears.view, fun _ => hclears.whole rfl,
          fun h => hclears.stuck (htail h)⟩, fun _ _ => rfl⟩
  · exact hraises _ hlist fun h => absurd h hfaults

end AuditRetentionEnforcer

end Audit

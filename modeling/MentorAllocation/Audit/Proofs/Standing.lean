import MentorAllocation.Audit.Proofs.Returns

namespace Audit
open Concurrency Data Effects Files Text

namespace AuditLog
variable {A : AuditArchiver} {log : AuditLog} {window : AuditArchiveWindow} {op : Operation}
  {faults : List Bool}

theorem around_next (log : AuditLog) {monthKey : String} {other : AuditArchiveWindow}
    {now : DateTime}
    (hop : op = .archive faults now monthKey ∨ op = .dryRun faults now monthKey)
    (hother : windowOf A.tz monthKey = .ok other) :
    Around A other log.world.view (log.next A op).world.view := by
  obtain ⟨rfl, -⟩ := windowOf_eq_ok hother
  have hself : Around A other log.world.view log.world.view := fun _ _ => rfl
  rcases hop with rfl | rfl
  · exact keeps_under (keeps_archiveMonth log.world.view hother) hself faults
  · have hcleaned : ∀ v, A.Cleaned other log.world.view v → Around A other log.world.view v := by
      rintro v (rfl | rfl)
      · exact hself
      · exact hself.clean
    rcases dryRun_outcome log hother faults now with hview | ⟨before, hbefore, hview, -⟩
    · exact hcleaned _ hview
    · rw [AuditLog.next, hview]
      exact (hcleaned before hbefore).write (.inl parent_manifestPath)

theorem enforce_files (faults : List Bool) (config : AuditArchiveConfig) (now : DateTime)
    (dryRun : Bool) : (log.next A (.enforce faults config now dryRun)).world.view.files =
      log.world.view.files :=
  keeps_under (P := fun v => v.files = log.world.view.files)
    (AuditRetentionEnforcer.keeps_enforce now dryRun fun _ _ h => h) rfl faults

theorem invalid_next {monthKey : String} {now : DateTime} {e : Raised}
    (hop : op = .archive faults now monthKey ∨ op = .dryRun faults now monthKey)
    (hkey : windowOf A.tz monthKey = .error e) :
    (log.next A op).world.view = log.world.view := by
  rcases hop with rfl | rfl
  · rw [AuditLog.next, (invalid_key hkey faults now log.world).1]
    rfl
  · rw [AuditLog.next, (invalid_key hkey faults now log.world).2]
    rfl

def otherMonths (window : AuditArchiveWindow) (months : List AuditArchiveWindow) :
    List AuditArchiveWindow :=
  months.filter fun other => other.start.year ≠ window.start.year ∨
    other.start.month ≠ window.start.month

/-- The months whose files are those of their last archiving: it succeeded, and no call for the
month came after it. -/
def standingAfter (A : AuditArchiver) (months : List AuditArchiveWindow) (log : AuditLog) :
    Operation → List AuditArchiveWindow
  | .archive faults now monthKey => match windowOf A.tz monthKey with
    | .ok window =>
      if (under faults (A.archiveMonth now monthKey) log.world).1.isOk
      then window :: otherMonths window months else otherMonths window months
    | .error _ => months
  | .dryRun _ _ monthKey => match windowOf A.tz monthKey with
    | .ok window => otherMonths window months
    | .error _ => months
  | .insert _ | .enforce _ _ _ _ => months

def standing (A : AuditArchiver) (trace : List (AuditLog × Operation)) : List AuditArchiveWindow :=
  trace.foldl (fun months p => standingAfter A months p.1 p.2) []

theorem standing_snoc (trace : List (AuditLog × Operation)) (log : AuditLog) (op : Operation) :
    standing A (trace ++ [(log, op)]) = standingAfter A (standing A trace) log op := by
  rw [standing, List.foldl_append]
  rfl

/-- A month stands once it has been archived, -/
theorem mem_standing_archived {trace : List (AuditLog × Operation)} {monthKey : String}
    {now : DateTime} (hwindow : windowOf A.tz monthKey = .ok window)
    (hok : (under faults (A.archiveMonth now monthKey) log.world).1.isOk = true) :
    window ∈ standing A (trace ++ [(log, .archive faults now monthKey)]) := by
  rw [standing_snoc]
  simp only [standingAfter, hwindow, hok, if_true]
  exact List.mem_cons_self

/-- and goes on standing while others are archived. -/
theorem mem_standing_other {trace : List (AuditLog × Operation)} {monthKey : String}
    {now : DateTime} {other : AuditArchiveWindow} (h : window ∈ standing A trace)
    (hother : windowOf A.tz monthKey = .ok other)
    (hmonth : window.start.year ≠ other.start.year ∨ window.start.month ≠ other.start.month) :
    window ∈ standing A (trace ++ [(log, .archive faults now monthKey)]) := by
  have hmem : window ∈ otherMonths other (standing A trace) :=
    List.mem_filter.mpr ⟨h, decide_eq_true hmonth⟩
  rw [standing_snoc]
  simp only [standingAfter, hother]
  split
  · exact List.mem_cons_of_mem _ hmem
  · exact hmem

/-- The files of a month are those of an archiving, and no failure is left to come. -/
def Stands (A : AuditArchiver) (log : AuditLog) (window : AuditArchiveWindow) : Prop :=
  windowOf A.tz window.monthKey = .ok window ∧ log.world.faults = [] ∧
    ∃ now v₀, Standing A now window v₀ log.world.view

theorem Stands.congr {log' : AuditLog} (h : Stands A log window)
    (hcalm : log.world.faults = [] → log'.world.faults = [])
    (hreachable : Reachable (A.baseOf window) log.world.view →
      Reachable (A.baseOf window) log'.world.view)
    (hfiles : ∀ path, path.parent = A.baseOf window →
      log'.world.view.files path = log.world.view.files path) : Stands A log' window := by
  obtain ⟨hwindow, hfaults, now, v₀, hstanding⟩ := h
  exact ⟨hwindow, hcalm hfaults, now, v₀, hstanding.congr (hreachable hstanding.reachable) hfiles⟩

/-- Calls for one month leave the files of another. -/
theorem Stands.other {monthKey : String} {other : AuditArchiveWindow} {now : DateTime}
    (h : Stands A log window) (hother : windowOf A.tz monthKey = .ok other)
    (hop : op = .archive faults now monthKey ∨ op = .dryRun faults now monthKey)
    (hmonth : window.start.year ≠ other.start.year ∨ window.start.month ≠ other.start.month) :
    Stands A (log.next A op) window := by
  have hbase : A.baseOf window ≠ A.baseOf other := fun hsame =>
    hmonth.elim (fun hne => hne (baseOf_inj hsame).1) fun hne => hne (baseOf_inj hsame).2
  have haround := around_next log hop hother
  have hcalm : (log.next A op).world.faults = [] := by rcases hop with rfl | rfl <;> rfl
  exact h.congr (fun _ => hcalm) haround.reachable fun path hpath =>
    haround path (elsewhere_of_parent hbase hpath)

theorem stands_next {months : List AuditArchiveWindow}
    (h : ∀ window ∈ months, Stands A log window) (op : Operation) :
    ∀ window ∈ standingAfter A months log op, Stands A (log.next A op) window := by
  have hsame : ∀ log' : AuditLog, log'.world.view.files = log.world.view.files →
      (log.world.faults = [] → log'.world.faults = []) →
      ∀ window ∈ months, Stands A log' window := by
    intro log' hfiles hcalm window hwindow
    refine (h window hwindow).congr hcalm (fun hreachable parts hparts => ?_)
      fun path _ => by rw [hfiles]
    rw [hfiles]
    exact hreachable parts hparts
  have hothers : ∀ {monthKey other now faults}, windowOf A.tz monthKey = .ok other →
      (op = .archive faults now monthKey ∨ op = .dryRun faults now monthKey) →
      ∀ window ∈ otherMonths other months, Stands A (log.next A op) window := by
    intro monthKey other now faults hother hop window hwindow
    obtain ⟨hmem, hmonth⟩ := List.mem_filter.mp hwindow
    exact (h window hmem).other hother hop (of_decide_eq_true hmonth)
  cases op with
  | insert event => exact hsame _ rfl id
  | archive faults now monthKey =>
    cases hkey : windowOf A.tz monthKey with
    | error e =>
      simp only [standingAfter, hkey]
      exact hsame _ (congrArg View.files (invalid_next (.inl rfl) hkey)) fun _ => rfl
    | ok other =>
      have hrest := hothers hkey (.inl rfl)
      simp only [standingAfter, hkey]
      split
      · next hok =>
        refine List.forall_mem_cons.mpr ⟨?_, hrest⟩
        obtain ⟨rfl, -⟩ := windowOf_eq_ok hkey
        unfold under at hok
        rcases hexec : exec (A.archiveMonth now other.monthKey) { log.world with faults } with
          ⟨e | result, after⟩
        · rw [hexec] at hok
          cases hok
        · have hstanding : Standing A now other log.world.view after.view :=
            standing_of_archiveMonth (w := { log.world with faults }) hkey hexec
          refine ⟨hkey, rfl, now, log.world.view, ?_⟩
          rw [AuditLog.next, under, hexec]
          exact hstanding
      · exact hrest
  | dryRun faults now monthKey =>
    cases hkey : windowOf A.tz monthKey with
    | error e =>
      simp only [standingAfter, hkey]
      exact hsame _ (congrArg View.files (invalid_next (.inr rfl) hkey)) fun _ => rfl
    | ok other =>
      simp only [standingAfter, hkey]
      exact hothers hkey (.inr rfl)
  | enforce faults config now dryRun =>
    exact hsame _ (enforce_files faults config now dryRun) fun _ => rfl

theorem stands_of_run {first : AuditLog} {trace : List (AuditLog × Operation)}
    (run : Run (fun log op after => after = log.next A op) first trace log) :
    ∀ window ∈ standing A trace, Stands A log window := by
  induction run with
  | nil => exact fun _ h => absurd h List.not_mem_nil
  | snoc _ last ih =>
    rw [standing_snoc]
    subst last
    exact stands_next ih _

theorem standing_january : january ∈ standing utcArchiver archiving :=
  mem_standing_other (mem_standing_archived windowOf_january january_archived.1) windowOf_february
    (by decide)

theorem standing_february : february ∈ standing utcArchiver archiving :=
  mem_standing_archived windowOf_february february_archived

theorem archived_next {monthKey : String} {now : DateTime}
    (hwindow : windowOf A.tz monthKey = .ok window) :
    (log.next A (.archive faults now monthKey)).archived = window :: log.archived := by
  simp only [AuditLog.next, hwindow]

theorem standing_archived : ∀ window ∈ archivedLog.archived,
    window ∈ standing utcArchiver archiving := by
  have hmissed : missedLog.archived = [february] := archived_next windowOf_february
  have hjanuary : januaryLog.archived = january :: missedLog.archived :=
    archived_next windowOf_january
  have hboth : archivedLog.archived = february :: januaryLog.archived :=
    archived_next windowOf_february
  rw [hboth, hjanuary, hmissed]
  simp [standing_january, standing_february]

/-- Along every run, `_verify_archive` holds for the months whose last call archived them. -/
theorem standing_verified {first : AuditLog} {trace : List (AuditLog × Operation)}
    (hroot : A.config.archiveRoot.Normal)
    (run : Run (fun log op after => after = log.next A op) first trace log)
    (config : AuditArchiveConfig) :
    ∀ window ∈ standing A trace, ∃ after,
      exec (AuditRetentionEnforcer.verifyArchive ⟨A, config⟩ (.text window.monthKey)) log.world =
        (.ok true, after) := by
  intro window hmem
  obtain ⟨hwindow, hcalm, now, v₀, hstanding⟩ := stands_of_run run window hmem
  obtain ⟨after, hexec, -⟩ := exec_verifyArchive (E := ⟨A, config⟩)
    (hstanding.verified hroot hwindow) hcalm
  exact ⟨after, hexec⟩

/-- January passes, also once February has been archived after it. -/
theorem standing_verified_sample : ∃ after,
    exec (AuditRetentionEnforcer.verifyArchive ⟨utcArchiver, utcArchiver.config⟩
      (.text "2024_01")) archivedLog.world = (.ok true, after) :=
  standing_verified (by decide) run_archiving utcArchiver.config january standing_january

/-- The months that are planned are months that were archived. -/
theorem archived_of_planned {disk : Disk} {release : Option (List UInt8)}
    {trace : List (AuditLog × Operation)} (hdisk : disk.read A.partitionsPath = none)
    (run : Run (fun log op after => after = log.next A op) (start disk release) trace log)
    (config : AuditArchiveConfig) (now : DateTime) :
    ∀ entry ∈ AuditRetentionEnforcer.planned ⟨A, config⟩ now log.world,
      ∃ window ∈ log.archived, windowOf A.tz window.monthKey = .ok window ∧
        entry.monthKey = .text window.monthKey := by
  intro entry hentry
  obtain ⟨recorded, hcatalogued⟩ := (catalogued_run hdisk run).2
  have hlisting := AuditRetentionEnforcer.listPartitions_calm (E := ⟨A, config⟩) hcatalogued.calm
  rw [AuditRetentionEnforcer.planned_eq] at hentry
  rcases hcatalogued.listsReliably config with ⟨partitions, hlist, hreliable⟩ | ⟨hlist, -⟩
  · have hsame := congrArg Prod.fst (hlisting.symm.trans hlist)
    dsimp only at hsame
    rw [hsame] at hentry
    obtain ⟨p, hp, reason, rfl⟩ := AuditArchiveConfig.entryOf_plan hentry
    obtain ⟨window, harchived, hkey, hwindow, -⟩ := hreliable.windows p hp
    exact ⟨window, harchived, hwindow, hkey⟩
  · have hsame := congrArg Prod.fst (hlisting.symm.trans hlist)
    dsimp only at hsame
    rw [hsame] at hentry
    cases hentry

/-- Where the last call for every month archived it, the retention is enforced on SQLite as it is
planned. -/
theorem enforce_complete {disk : Disk} {release : Option (List UInt8)}
    {trace : List (AuditLog × Operation)} (hroot : A.config.archiveRoot.Normal)
    (hdialect : A.dialect = .sqlite) (hdisk : disk.read A.partitionsPath = none)
    (run : Run (fun log op after => after = log.next A op) (start disk release) trace log)
    (hstanding : ∀ window ∈ log.archived, window ∈ standing A trace)
    (config : AuditArchiveConfig) (now : DateTime) :
    let E : AuditRetentionEnforcer := ⟨A, config⟩
    (exec (E.enforce now false) log.world).1 =
        (exec (E.enforce now true) log.world).1.map (fun found => (found.1, found.1)) ∧
      (exec (E.enforce now false) log.world).2.view =
        AuditRetentionEnforcer.dropAll log.world.view (E.planned now log.world) := by
  intro E
  obtain ⟨-, dropped, rest, hclears, hdone⟩ :=
    AuditRetentionEnforcer.enforce_exact E now log.world
  have hcalm : log.world.faults = [] := by
    obtain ⟨recorded, hcatalogued⟩ := (catalogued_run hdisk run).2
    exact hcatalogued.calm
  have hall : rest = [] := by
    cases rest with
    | nil => rfl
    | cons entry rest =>
      have hentry : entry ∈ E.planned now log.world := by
        rw [hclears.split]
        exact List.mem_append_right _ List.mem_cons_self
      obtain ⟨window, harchived, hwindow, hkey⟩ :=
        archived_of_planned hdisk run config now entry hentry
      obtain ⟨-, -, at', v₀, hstands⟩ := stands_of_run run window (hstanding window harchived)
      have hverified := hstands.verified hroot hwindow
      rw [← hkey] at hverified
      refine absurd ⟨hverified, fun hpostgresql => ?_⟩ (hclears.stuck hcalm entry rfl)
      cases hdialect.symm.trans hpostgresql
  subst hall
  have hplanned := hclears.split
  rw [List.append_nil] at hplanned
  exact ⟨hdone hcalm rfl, by rw [hclears.view, hplanned]⟩

theorem enforce_complete_sample :
    let E : AuditRetentionEnforcer := ⟨utcArchiver, utcArchiver.config⟩
    (exec (E.enforce ⟨2026, 1, 1, 0, 0⟩ false) archivedLog.world).1 =
        (exec (E.enforce ⟨2026, 1, 1, 0, 0⟩ true) archivedLog.world).1.map
          (fun found => (found.1, found.1)) ∧
      (exec (E.enforce ⟨2026, 1, 1, 0, 0⟩ false) archivedLog.world).2.view =
        AuditRetentionEnforcer.dropAll archivedLog.world.view
          (E.planned ⟨2026, 1, 1, 0, 0⟩ archivedLog.world) :=
  enforce_complete (by decide) rfl (Disk.read_empty _) run_archiving standing_archived
    utcArchiver.config ⟨2026, 1, 1, 0, 0⟩

end AuditLog

end Audit

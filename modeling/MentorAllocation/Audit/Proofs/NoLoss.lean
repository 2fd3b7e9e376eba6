import MentorAllocation.Audit.Proofs.Catalogue

namespace Audit
open Concurrency Data Effects Files

namespace AuditLog
variable {A : AuditArchiver} {log : AuditLog} {recorded : List (AuditArchiveWindow × Nat)}
  {event : AuditEvent}

/-- The row of an event is in both files of a window that has it. -/
structure Kept (A : AuditArchiver) (v : View) (window : AuditArchiveWindow) (event : AuditEvent) :
    Prop where
  inWindow : AuditArchiver.inWindow window.start window.stop event = true
  files : ∀ kind, A.InFile v kind window event

/-- An event is in the table or in the files of a month. -/
def Present (A : AuditArchiver) (log : AuditLog) (event : AuditEvent) : Prop :=
  event ∈ log.world.events ∨ ∃ window ∈ log.archived, Kept A log.world.view window event

/-- Events of listed months are in their files, and what has left the table is kept by months that
the retention was enforced on. -/
structure Sealed (A : AuditArchiver) (log : AuditLog)
    (recorded : List (AuditArchiveWindow × Nat)) : Prop where
  catalogued : Catalogued A log recorded
  enforced : ∀ window ∈ log.enforced, window ∈ log.archived
  listed : ∀ entry ∈ recorded, ∀ event ∈ log.world.events,
    AuditArchiver.inWindow entry.1.start entry.1.stop event = true →
    Kept A log.world.view entry.1 event
  gone : ∀ event ∈ log.inserted, event ∉ log.world.events →
    ∃ window ∈ log.enforced, Kept A log.world.view window event

theorem Sealed.present (h : Sealed A log recorded) (hevent : event ∈ log.inserted) :
    Present A log event := by
  by_cases hmem : event ∈ log.world.events
  · exact .inl hmem
  · obtain ⟨window, hwindow, hkept⟩ := h.gone event hevent hmem
    exact .inr ⟨window, h.enforced window hwindow, hkept⟩

theorem Sealed.insert (h : Sealed A log recorded)
    (hnew : ∀ window ∈ log.archived,
      AuditArchiver.inWindow window.start window.stop event = false) :
    Sealed A (log.next A (.insert event)) recorded := by
  have hcatalogued : Catalogued A (log.next A (.insert event)) recorded :=
    ⟨h.catalogued.lists, h.catalogued.windows, h.catalogued.archived, h.catalogued.nodup,
      h.catalogued.sorted, h.catalogued.calm⟩
  have hkept : ∀ window other, Kept A log.world.view window other →
      Kept A (log.next A (.insert event)).world.view window other := fun _ _ hother =>
    ⟨hother.inWindow, hother.files⟩
  refine ⟨hcatalogued, h.enforced, ?_, ?_⟩
  · intro entry hentry other hother hin
    rcases List.mem_append.mp hother with hold | hlast
    · exact hkept _ _ (h.listed entry hentry other hold hin)
    · rw [List.mem_singleton] at hlast
      subst hlast
      rw [hnew _ (h.catalogued.archived entry hentry)] at hin
      cases hin
  · intro other hother hnot
    rcases List.mem_cons.mp hother with rfl | hold
    · exact absurd (List.mem_append_right _ List.mem_cons_self) hnot
    · obtain ⟨window, hwindow, hin⟩ := h.gone other hold fun hmem =>
        hnot (List.mem_append_left _ hmem)
      exact ⟨window, hwindow, hkept _ _ hin⟩

theorem Sealed.archive {window : AuditArchiveWindow} (h : Sealed A log recorded)
    (hwindow : windowOf A.tz window.monthKey = .ok window) (hnew : window ∉ log.enforced)
    (faults : List Bool) (now : DateTime) :
    ∃ recorded', Sealed A (log.next A (.archive faults now window.monthKey)) recorded' := by
  obtain ⟨recorded', hcatalogued, hafter⟩ := h.catalogued.archive hwindow faults now
  have hevents : (log.next A (.archive faults now window.monthKey)).world.events =
    log.world.events := hafter.events
  refine ⟨recorded', hcatalogued, ?_, ?_, ?_⟩
  · intro other hother
    simp only [AuditLog.next, hwindow]
    exact List.mem_cons_of_mem _ (h.enforced other hother)
  · intro entry hentry event hevent hin
    rw [hevents] at hevent
    refine ⟨hin, fun kind => ?_⟩
    rcases hafter.listed entry hentry with hold | ⟨hsame, hwrote⟩
    · refine hafter.files kind entry.1 event
        (h.catalogued.windows _ (h.catalogued.archived entry hold)) (fun hsame => ?_)
        ((h.listed entry hold event hevent hin).files kind)
      rw [hsame] at hin
      exact ⟨hevent, hin⟩
    · rw [hsame] at hin ⊢
      exact ⟨_, hwrote kind, AuditArchiver.mem_rowsOf hevent hin⟩
  · intro event hevent hnot
    rw [hevents] at hnot
    obtain ⟨other, hother, hin, hfiles⟩ := h.gone event hevent hnot
    refine ⟨other, hother, hin, fun kind => ?_⟩
    refine hafter.files kind other event (h.catalogued.windows _ (h.enforced other hother))
      (fun hsame => ?_) (hfiles kind)
    rw [hsame] at hother
    exact absurd hother hnew

theorem Sealed.untouched {log' : AuditLog} (h : Sealed A log recorded)
    (huntouched : Untouched A log.world.view log'.world.view)
    (hinserted : log'.inserted = log.inserted) (harchived : log'.archived = log.archived)
    (henforced : log'.enforced = log.enforced) (hcalm : log'.world.faults = []) :
    Sealed A log' recorded := by
  have hkept : ∀ window other, Kept A log.world.view window other →
      Kept A log'.world.view window other := fun _ _ hother =>
    ⟨hother.inWindow, fun kind => huntouched.files kind _ _ (hother.files kind)⟩
  have hevents : log'.world.events = log.world.events := huntouched.events
  refine ⟨⟨?_, ?_, ?_, h.catalogued.nodup, h.catalogued.sorted, hcalm⟩, ?_, ?_, ?_⟩
  · rw [AuditArchiver.Lists, huntouched.partitions]
    exact h.catalogued.lists
  · rw [harchived]
    exact h.catalogued.windows
  · rw [harchived]
    exact h.catalogued.archived
  · rw [harchived, henforced]
    exact h.enforced
  · intro entry hentry event hevent hin
    rw [hevents] at hevent
    exact hkept _ _ (h.listed entry hentry event hevent hin)
  · intro event hevent hnot
    rw [hinserted] at hevent
    rw [hevents] at hnot
    obtain ⟨window, hwindow, hin⟩ := h.gone event hevent hnot
    rw [henforced]
    exact ⟨window, hwindow, hkept _ _ hin⟩

theorem Sealed.enforce (h : Sealed A log recorded) (faults : List Bool)
    (config : AuditArchiveConfig) (now : DateTime) (dryRun : Bool) :
    Sealed A (log.next A (.enforce faults config now dryRun)) recorded := by
  have hpurged := enforce_outcome h.catalogued faults config now dryRun
  have hkept : ∀ window other, Kept A log.world.view window other →
      Kept A (log.next A (.enforce faults config now dryRun)).world.view window other := by
    rintro window other ⟨hin, hfiles⟩
    refine ⟨hin, fun kind => ?_⟩
    rw [AuditArchiver.InFile, AuditLog.next, hpurged.files]
    exact hfiles kind
  refine ⟨⟨?_, h.catalogued.windows, h.catalogued.archived, h.catalogued.nodup,
    h.catalogued.sorted, rfl⟩, ?_, ?_, ?_⟩
  · rw [AuditArchiver.Lists, AuditLog.next, hpurged.files]
    exact h.catalogued.lists
  · cases dryRun with
    | true => exact h.enforced
    | false => exact fun _ hwindow => hwindow
  · intro entry hentry event hevent hin
    exact hkept _ _ (h.listed entry hentry event (hpurged.sub event hevent) hin)
  · intro event hevent hnot
    by_cases hmem : event ∈ log.world.events
    · -- it goes now, from a month that is listed
      obtain ⟨rfl, entry, hentry, hin⟩ := hpurged.gone event hmem hnot
      exact ⟨entry.1, h.catalogued.archived entry hentry,
        hkept _ _ (h.listed entry hentry event hmem hin)⟩
    · obtain ⟨window, hwindow, hin⟩ := h.gone event hevent hmem
      refine ⟨window, ?_, hkept _ _ hin⟩
      cases dryRun with
      | true => exact hwindow
      | false => exact h.enforced window hwindow

theorem Sealed.next (h : Sealed A log recorded) {op : Operation} (horderly : Orderly A log op) :
    ∃ recorded', Sealed A (log.next A op) recorded' := by
  cases op with
  | insert event => exact ⟨recorded, h.insert horderly⟩
  | archive faults now monthKey =>
    cases hkey : windowOf A.tz monthKey with
    | error e =>
      refine ⟨recorded, h.untouched ?_ rfl ?_ rfl rfl⟩
      · rw [AuditLog.next, (invalid_key hkey faults now log.world).1]
        exact ⟨rfl, rfl, fun _ _ _ h => h⟩
      · simp only [AuditLog.next, hkey]
    | ok window =>
      obtain ⟨rfl, -⟩ := windowOf_eq_ok hkey
      exact h.archive hkey (horderly window hkey) faults now
  | dryRun faults now monthKey =>
    exact ⟨recorded, h.untouched (dryRun_untouched log faults now monthKey) rfl rfl rfl rfl⟩
  | enforce faults config now dryRun => exact ⟨recorded, h.enforce faults config now dryRun⟩

/-- No event that came in is ever lost. -/
theorem no_event_lost {disk : Disk} {release : Option (List UInt8)}
    {trace : List (AuditLog × Operation)} (hdisk : disk.read A.partitionsPath = none)
    (run : Run (fun log op after => after = log.next A op) (start disk release) trace log)
    (orderly : EachStep (Orderly A) trace) :
    Throughout (fun log => ∀ event ∈ log.inserted, Present A log event) trace log := by
  have hstart : Sealed A (start disk release) [] :=
    ⟨catalogued_start hdisk, fun _ h => h, fun _ h => absurd h List.not_mem_nil,
      fun _ h => absurd h List.not_mem_nil⟩
  have hsealed : Throughout (fun log => ∃ recorded, Sealed A log recorded) trace log :=
    run.invariant ⟨[], hstart⟩ (fun _ _ _ ⟨_, h⟩ horderly hstep => hstep ▸ h.next horderly) orderly
  exact hsealed.imp fun log ⟨_, h⟩ _ hevent => h.present hevent

def enforceAge : Operation := .enforce [] utcArchiver.config ⟨2026, 1, 1, 0, 0⟩ false

theorem no_event_lost_sample :
    Throughout (fun log => ∀ event ∈ log.inserted, Present utcArchiver log event)
      (archiving ++ [(archivedLog, enforceAge)]) (archivedLog.next utcArchiver enforceAge) := by
  refine no_event_lost (Disk.read_empty _) (run_archiving.snoc rfl) ?_
  have hnew : ∀ log : AuditLog, log.archived = [] → ∀ event,
      Orderly utcArchiver log (.insert event) := by
    intro log hnone event window hwindow
    rw [hnone] at hwindow
    cases hwindow
  have honce : ∀ log : AuditLog, log.enforced = [] → ∀ faults monthKey,
      Orderly utcArchiver log (archive2026 faults monthKey) := by
    intro log hnone faults monthKey window _ hwindow
    rw [hnone] at hwindow
    cases hwindow
  simp only [archiving, archivingJanuary, missing, filling, eachStep_snoc]
  exact ⟨⟨⟨⟨⟨⟨fun _ h => absurd h List.not_mem_nil, hnew _ rfl _⟩, hnew _ rfl _⟩,
    honce _ rfl _ _⟩, honce _ rfl _ _⟩, honce _ rfl _ _⟩, trivial⟩

end AuditLog

end Audit

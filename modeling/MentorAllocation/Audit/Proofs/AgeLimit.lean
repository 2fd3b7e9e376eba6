import MentorAllocation.Audit.Proofs.Standing

namespace Audit
open Concurrency Effects Files Sorting

def World.withEvents (w : World) (events : List AuditEvent) : World := { w with events := events }

section
variable {E : AuditRetentionEnforcer} {now : DateTime} {days : Int} {w : World}
  {partitions : List PartitionInfo} {entry : RetentionPlanEntry}

/-- Without limits on months and on size, the partitions older than the days are planned. -/
theorem mem_plan_days {config : AuditArchiveConfig} (hdays : config.retentionAgeDays = some days)
    (hmonths : config.retentionAgeMonths = none) (hsize : config.retentionSizeBytes = none) :
    entry ∈ config.plan now partitions ↔
      ∃ p ∈ partitions, days < now.daysSince p.start ∧ entry = p.entry .age := by
  have hpass : ∀ (some : List PartitionInfo) findings,
      config.monthPass now some findings = findings := by
    intro some findings
    induction some with
    | nil => rfl
    | cons p rest ih =>
      rw [AuditArchiveConfig.monthPass, List.foldl_cons, if_neg]
      · exact ih
      · simp [AuditArchiveConfig.olderInMonths, hmonths]
  rw [AuditArchiveConfig.plan, hsize, hpass, (sortedBy_perm _ _).mem_iff,
    AuditArchiveConfig.dayPass, List.mem_map]
  constructor
  · rintro ⟨p, hp, rfl⟩
    obtain ⟨hmem, holder⟩ := List.mem_filter.mp hp
    refine ⟨p, hmem, ?_, rfl⟩
    simpa [AuditArchiveConfig.olderInDays, hdays] using holder
  · rintro ⟨p, hmem, holder, rfl⟩
    refine ⟨p, List.mem_filter.mpr ⟨hmem, ?_⟩, rfl⟩
    simpa [AuditArchiveConfig.olderInDays, hdays] using holder

/-- Where the planned months are verified, SQLite deletes their events, and all others stay. -/
theorem mem_enforce {events : List AuditEvent} {event : AuditEvent}
    (hdialect : E.archiver.dialect = .sqlite) (hcalm : w.faults = [])
    (hlisting : E.listing w.disk = .ok partitions)
    (hverified : ∀ entry ∈ E.config.plan now partitions,
      Verified E.archiver w.view entry.monthKey) :
    event ∈ (exec (E.enforce now false) (w.withEvents events)).2.events ↔
      event ∈ events ∧ ∀ entry ∈ E.config.plan now partitions,
        AuditArchiver.inWindow entry.start entry.stop event = false := by
  obtain ⟨-, dropped, rest, hclears, -⟩ :=
    AuditRetentionEnforcer.enforce_exact E now (w.withEvents events)
  have hplanned : E.planned now (w.withEvents events) = E.config.plan now partitions := by
    have hdisk : (w.withEvents events).disk = w.disk := rfl
    rw [AuditRetentionEnforcer.planned_eq, hdisk, hlisting]
    rfl
  rw [hplanned] at hclears
  have hsplit := hclears.split
  have hall : rest = [] := by
    cases rest with
    | nil => rfl
    | cons entry rest =>
      have hentry : entry ∈ E.config.plan now partitions := by
        rw [hsplit]
        exact List.mem_append_right _ List.mem_cons_self
      refine absurd ⟨hverified entry hentry, fun hpostgresql => ?_⟩ (hclears.stuck hcalm entry rfl)
      cases hdialect.symm.trans hpostgresql
  rw [hall, List.append_nil] at hsplit
  have hevents : (exec (E.enforce now false) (w.withEvents events)).2.events =
      events.filter fun event => !(E.config.plan now partitions).any fun entry =>
        AuditArchiver.inWindow entry.start entry.stop event := by
    rw [hsplit]
    exact congrArg View.events hclears.view
  rw [hevents, List.mem_filter, Bool.not_eq_true', List.any_eq_false]
  simp only [Bool.not_eq_true]

theorem daysSince_mono (now : DateTime) {a b : Int} (h : a ≤ b) :
    (now.instant - b) / dayLength ≤ (now.instant - a) / dayLength :=
  Int.ediv_le_ediv (by decide) (by omega)

/-- Young events are spared exactly if each month that goes is old to its last microsecond. -/
theorem young_spared_iff (hdays : E.config.retentionAgeDays = some days)
    (hmonths : E.config.retentionAgeMonths = none) (hsize : E.config.retentionSizeBytes = none)
    (hdialect : E.archiver.dialect = .sqlite) (hcalm : w.faults = [])
    (hlisting : E.listing w.disk = .ok partitions)
    (hverified : ∀ p ∈ partitions, Verified E.archiver w.view p.monthKey) :
    (∀ events : List AuditEvent, ∀ event ∈ events,
      (now.instant - event.ts) / dayLength ≤ days →
        event ∈ (exec (E.enforce now false) (w.withEvents events)).2.events) ↔
      ∀ p ∈ partitions, p.start.instant < p.stop.instant → days < now.daysSince p.start →
        days < (now.instant - (p.stop.instant - 1)) / dayLength := by
  have hplan : ∀ entry ∈ E.config.plan now partitions,
      Verified E.archiver w.view entry.monthKey := by
    intro entry hentry
    obtain ⟨p, hp, -, rfl⟩ := (mem_plan_days hdays hmonths hsize).mp hentry
    exact hverified p hp
  constructor
  · intro hspared p hp hnonempty holder
    by_contra hyoung
    -- an event in the last microsecond of the month
    let event : AuditEvent :=
      ⟨0, p.stop.instant - 1, "", none, "", "", "", none, "", "", none, none⟩
    have hstays := hspared [event] event List.mem_cons_self (Int.not_lt.mp hyoung)
    rw [mem_enforce hdialect hcalm hlisting hplan] at hstays
    have hout := hstays.2 _ ((mem_plan_days hdays hmonths hsize).mpr ⟨p, hp, holder, rfl⟩)
    have hin : AuditArchiver.inWindow p.start p.stop event = true := by
      simp only [AuditArchiver.inWindow, event, Bool.and_eq_true, decide_eq_true_eq]
      omega
    exact absurd (hin.symm.trans hout) Bool.noConfusion
  · intro hold events event hevent hyoung
    refine (mem_enforce hdialect hcalm hlisting hplan).mpr ⟨hevent, fun entry hentry => ?_⟩
    obtain ⟨p, hp, holder, rfl⟩ := (mem_plan_days hdays hmonths hsize).mp hentry
    by_contra hin
    have hin : AuditArchiver.inWindow p.start p.stop event = true := by
      simpa [PartitionInfo.entry] using hin
    simp only [AuditArchiver.inWindow, Bool.and_eq_true, decide_eq_true_eq] at hin
    have hlast := hold p hp (by omega) holder
    have := daysSince_mono now (show event.ts ≤ p.stop.instant - 1 by omega)
    omega

end

namespace AuditLog
variable {A : AuditArchiver} {log : AuditLog}

/-- With a limit in days alone, `enforce` spares on SQLite every event that is not older than the
limit exactly if no month that begins before the limit ends after it. -/
theorem age_retention_exact {disk : Disk} {release : Option (List UInt8)}
    {trace : List (AuditLog × Operation)} {config : AuditArchiveConfig} {days : Int}
    (hroot : A.config.archiveRoot.Normal) (hdialect : A.dialect = .sqlite)
    (hdisk : disk.read A.partitionsPath = none)
    (run : Run (fun log op after => after = log.next A op) (start disk release) trace log)
    (hstanding : ∀ window ∈ log.archived, window ∈ standing A trace)
    (hdays : config.retentionAgeDays = some days) (hmonths : config.retentionAgeMonths = none)
    (hsize : config.retentionSizeBytes = none) (now : DateTime) :
    let E : AuditRetentionEnforcer := ⟨A, config⟩
    ∀ partitions, exec E.listPartitions log.world = (.ok partitions, log.world) →
      ((∀ events : List AuditEvent, ∀ event ∈ events,
        (now.instant - event.ts) / dayLength ≤ days →
          event ∈ (exec (E.enforce now false) (log.world.withEvents events)).2.events) ↔
      ∀ p ∈ partitions, days < now.daysSince p.start →
        days < (now.instant - (p.stop.instant - 1)) / dayLength) := by
  intro E partitions hlist
  obtain ⟨recorded, hcatalogued⟩ := (catalogued_run hdisk run).2
  have hlisting : E.listing log.world.disk = .ok partitions := congrArg Prod.fst
    ((AuditRetentionEnforcer.listPartitions_calm hcatalogued.calm).symm.trans hlist)
  have hreliable : Reliable A log partitions := by
    rcases hcatalogued.listsReliably config with ⟨found, hfound, hreliable⟩ | ⟨hraised, -⟩
    · cases hfound.symm.trans hlist
      exact hreliable
    · cases hraised.symm.trans hlist
  have hwindows : ∀ p ∈ partitions, Verified A log.world.view p.monthKey ∧
      p.start.instant < p.stop.instant := by
    intro p hp
    obtain ⟨window, harchived, hkey, hwindow, hstart, hstop⟩ := hreliable.windows p hp
    obtain ⟨hself, -, at', v₀, hstands⟩ := stands_of_run run window (hstanding window harchived)
    refine ⟨hkey ▸ hstands.verified hroot hself, ?_⟩
    rw [hstart, hstop]
    exact (windowOf_order hwindow hwindow).1
  rw [young_spared_iff (E := E) hdays hmonths hsize hdialect hcatalogued.calm hlisting
    fun p hp => (hwindows p hp).1]
  exact ⟨fun h p hp => h p hp (hwindows p hp).2, fun h p hp _ => h p hp⟩

theorem age_retention_exact_sample :
    let E : AuditRetentionEnforcer := ⟨utcArchiver, utcArchiver.config⟩
    ∀ partitions, exec E.listPartitions archivedLog.world = (.ok partitions, archivedLog.world) →
      ((∀ events : List AuditEvent, ∀ event ∈ events,
        (DateTime.instant ⟨2025, 1, 20, 0, 0⟩ - event.ts) / dayLength ≤ 365 →
          event ∈ (exec (E.enforce ⟨2025, 1, 20, 0, 0⟩ false)
            (archivedLog.world.withEvents events)).2.events) ↔
      ∀ p ∈ partitions, 365 < DateTime.daysSince ⟨2025, 1, 20, 0, 0⟩ p.start →
        365 < (DateTime.instant ⟨2025, 1, 20, 0, 0⟩ - (p.stop.instant - 1)) / dayLength) :=
  @age_retention_exact utcArchiver archivedLog ⟨fun _ => none⟩ none archiving
    utcArchiver.config 365 (by decide) rfl (Disk.read_empty _) run_archiving
    standing_archived rfl rfl rfl ⟨2025, 1, 20, 0, 0⟩

end AuditLog

end Audit

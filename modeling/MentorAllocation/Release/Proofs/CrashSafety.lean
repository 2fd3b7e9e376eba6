import MentorAllocation.Release.Proofs.Handoff

namespace Release
open Concurrency Files

namespace ZeroDowntimeHandoff
variable (H : ZeroDowntimeHandoff)

/-- The trees a script passes through; a crash can leave any of them. -/
def passed {α : Type} (p : Script α) (t : FileTree HandoffState) : List (FileTree HandoffState) :=
  Program.passed H.answer p t

def installs (t : FileTree HandoffState) : Call → Option Location
  | .promote _ source _ => H.names t source
  | .rollback _ => H.release t "previous"

/-- At every moment of every call `current` leads to the release from before the call
or to the one the call installs. -/
def CrashSafe (trace : List (FileTree HandoffState × Call)) : Prop :=
  ∀ p ∈ trace, ∀ u ∈ H.passed (H.script p.2) p.1, ∃ d, H.release u "current" = some d ∧
    (H.release p.1 "current" = some d ∨ H.installs p.1 p.2 = some d)

/-- A call that raises before it touches a link: a rollback that finds no `previous`. -/
def Refuses (t : FileTree HandoffState) : Call → Prop
  | .promote _ _ _ => False
  | .rollback _ => H.release t "previous" = none

/-- A release is in service behind the `current` link. -/
structure InService (t : FileTree HandoffState) : Prop where
  directory : t.isDirectory H.releasesDir = true
  linked : ∃ target, t.get (H.entry "current") = some (.link target)
  leads : (H.release t "current").isSome = true
  temporary_ne : t.get (H.entry "previous.tmp") ≠ some .directory

variable {H}
section
variable {α β : Type} {t t' u : FileTree HandoffState} {p : Script α} {f : α → Script β}

theorem passed_bind_left (h : u ∈ H.passed p t) : u ∈ H.passed (p >>= f) t :=
  Program.mem_passed_bind_left h

theorem passed_bind_right {a : α} (h : H.run p t = some (.ok a, t'))
    (hu : u ∈ H.passed (f a) t') : u ∈ H.passed (p >>= f) t :=
  Program.mem_passed_bind_right h hu

theorem lead_of_release {name : String} {d : Location} (h : H.release t name = some d) :
    H.lead t name = .ok d := by
  unfold release at h
  cases hl : H.lead t name with
  | error e => simp [hl, Except.toOption] at h
  | ok l => simpa [hl, Except.toOption] using h

/-- Between its first rename and its last, the swap leaves no `current` at all. -/
theorem swap_gap (h : H.InService t) (target : PurePath) :
    ∃ u ∈ H.passed (atomicSymlinkSwap "current" "previous" target) t,
      H.release u "current" = none := by
  obtain ⟨c, hc⟩ := h.linked
  obtain ⟨d, hd⟩ := Option.isSome_iff_exists.mp h.leads
  have hlead := lead_of_release hd
  set gap := (t.erase (H.entry "current")).put (H.entry "previous.tmp") (.link c) with hgap
  have hrename : t.rename (H.entry "current") (H.entry "previous.tmp") = .ok gap :=
    FileTree.rename_link (by simpa using h.directory) hc h.temporary_ne
  have hnone : gap.get (H.entry "current") = none := by
    simp [hgap, FileTree.get_put, FileTree.get_erase]
  refine ⟨gap, ?_, ?_⟩
  · simp only [atomicSymlinkSwap, String.reduceAppend]
    refine passed_bind_right (run_exists "current") ?_
    simp only [hlead, Except.isOk, Except.toBool, if_true]
    refine passed_bind_right (run_pure true) ?_
    simp only [if_true]
    refine passed_bind_right (run_resolve hlead) (passed_bind_left ?_)
    exact Program.end_mem_passed (run_replace hrename)
  · rw [release, lead_of_none (by decide) hnone]
    rfl

theorem run_some_resolve {name : String} {d : Location} (h : H.lead t name = .ok d) :
    H.run (some <$> Script.resolve name) t = some (.ok (some d), t) :=
  run_bind (run_resolve h)

/-- Every call that gets as far as the swap passes a tree without `current`. -/
theorem call_gap (h : H.InService t) {call : Call} (hcall : ¬ H.Refuses t call) :
    ∃ u ∈ H.passed (H.script call) t, H.release u "current" = none := by
  obtain ⟨d, hd⟩ := Option.isSome_iff_exists.mp h.leads
  have hlead := lead_of_release hd
  cases call with
  | promote id source now =>
    obtain ⟨u, hu, hnone⟩ := swap_gap h source
    refine ⟨u, ?_, hnone⟩
    unfold script promote
    refine passed_bind_right (run_exists "current") ?_
    simp only [hlead, Except.isOk, Except.toBool, if_true]
    exact passed_bind_right (run_some_resolve hlead) (passed_bind_left hu)
  | rollback now =>
    obtain ⟨l, hl⟩ := Option.ne_none_iff_exists'.mp hcall
    have hprev := lead_of_release hl
    obtain ⟨u, hu, hnone⟩ := swap_gap h ⟨true, l⟩
    refine ⟨u, ?_, hnone⟩
    unfold script rollback
    refine passed_bind_right (run_exists "previous") ?_
    simp only [hprev, Except.isOk, Except.toBool, Bool.not_true, Bool.false_eq_true, if_false]
    refine passed_bind_right (run_exists "current") ?_
    simp only [hlead, Except.isOk, Except.toBool, if_true]
    refine passed_bind_right (run_some_resolve hlead) ?_
    exact passed_bind_right (run_resolve hprev) (passed_bind_left hu)

theorem passed_exists (name : String) (f : Bool → Script β) :
    H.passed (Script.exists? name >>= f) t = t :: H.passed (f (H.lead t name).isOk) t := rfl

/-- A call that refuses leaves the tree as it is, from its first moment to its last. -/
theorem refuses_still {call : Call} (hcall : H.Refuses t call) :
    (∀ u ∈ H.passed (H.script call) t, u = t) ∧ ∀ t', H.Step t call t' → t' = t := by
  cases call with
  | promote id source now => exact hcall.elim
  | rollback now =>
    have hlead : (H.lead t "previous").isOk = false := by
      cases hl : H.lead t "previous" with
      | error e => rfl
      | ok l => simp [Refuses, release, hl, Except.toOption] at hcall
    have hpassed : H.passed (H.script (.rollback now)) t = [t, t] := by
      unfold script rollback
      rw [passed_exists, hlead]
      rfl
    constructor
    · intro u hu
      rw [hpassed] at hu
      simpa using hu
    · intro t' hstep
      have hrun : H.run (H.script (.rollback now)) t =
          some (.error (.runtimeError "ROLLBACK_UNAVAILABLE"), t) := by
        unfold script rollback
        rw [run_bind (run_exists "previous"), hlead]
        rfl
      unfold Step next at hstep
      rw [hrun] at hstep
      exact (Option.some.inj hstep).symm

theorem still_of_refuses {start s : FileTree HandoffState}
    {trace : List (FileTree HandoffState × Call)} (run : Run H.Step start trace s)
    (hall : EachStep H.Refuses trace) : Throughout (· = start) trace s :=
  run.invariant rfl (fun _ _ t' ht hc hstep => ((refuses_still hc).2 t' hstep).trans ht) hall

/-- The calls of a run keep `current` in place at every moment exactly when none of them
gets as far as touching a link. -/
theorem crashSafe_iff {start s : FileTree HandoffState}
    {trace : List (FileTree HandoffState × Call)}
    (service : H.InService start) (run : Run H.Step start trace s) :
    H.CrashSafe trace ↔ EachStep H.Refuses trace := by
  constructor
  · intro hsafe
    induction run with
    | nil => simp [EachStep]
    | @snoc trace t t' call before last ih =>
      have hrest := ih fun p hp => hsafe p (List.mem_append_left _ hp)
      refine (eachStep_snoc _).mpr ⟨hrest, ?_⟩
      obtain rfl : t = start := (still_of_refuses before hrest).2
      by_contra hcall
      obtain ⟨u, hu, hnone⟩ := call_gap service hcall
      obtain ⟨d, hd, -⟩ := hsafe (t, call) (by simp) u hu
      rw [hnone] at hd
      cases hd
  · intro hall p hp u hu
    have hstart : p.1 = start := (still_of_refuses run hall).1 p hp
    obtain ⟨d, hd⟩ := Option.isSome_iff_exists.mp service.leads
    rw [(refuses_still (hall p hp)).1 u hu, hstart]
    exact ⟨d, hd, .inl hd⟩

end

def served : FileTree HandoffState :=
  staged.put (host.entry "current") (.link ⟨true, ["releases", "a"]⟩)

theorem served_inService : host.InService served :=
  ⟨by decide, ⟨⟨true, ["releases", "a"]⟩, by decide⟩, by decide, by decide⟩

/-- A rollback is refused, since nothing came before `a`; then `b` is promoted. -/
def refusedThenPromoted : List (FileTree HandoffState × Call) :=
  [(served, .rollback 1), (served, .promote "b" ⟨true, ["builds", "b"]⟩ 1)]

theorem crashSafe_iff_served :
    ∃ s, Run host.Step served refusedThenPromoted s ∧
      (host.CrashSafe refusedThenPromoted ↔ EachStep host.Refuses refusedThenPromoted) := by
  cases hn : host.next served (.rollback 1) with
  | none => exact absurd hn (by decide +kernel)
  | some t =>
    have hrefused : EachStep host.Refuses [(served, Call.rollback 1)] := by
      intro p hp
      obtain rfl := List.mem_singleton.mp hp
      rfl
    have hsame : t = served := (still_of_refuses (Run.snoc .nil hn) hrefused).2
    subst hsame
    cases hn' : host.next served (.promote "b" ⟨true, ["builds", "b"]⟩ 1) with
    | none => exact absurd hn' (by decide +kernel)
    | some s =>
      have hrun : Run host.Step served refusedThenPromoted s := (Run.snoc .nil hn).snoc hn'
      exact ⟨s, hrun, crashSafe_iff served_inService hrun⟩

/-- A second promotion: after the first rename and until the last there is no
`current`. -/
theorem current_vanishes :
    ¬ ∀ (H : ZeroDowntimeHandoff) start trace s, H.InService start →
      Run H.Step start trace s → H.CrashSafe trace := by
  intro hall
  have hcall : ¬ host.Refuses served (.promote "b" ⟨true, ["builds", "b"]⟩ 1) := id
  obtain ⟨u, hu, hnone⟩ := call_gap served_inService hcall
  cases hn : host.next served (.promote "b" ⟨true, ["builds", "b"]⟩ 1) with
  | none => exact absurd hn (by decide +kernel)
  | some s =>
    obtain ⟨d, hd, -⟩ := hall host served [(served, _)] s served_inService (Run.snoc .nil hn)
      (served, _) (List.mem_singleton_self _) u hu
    rw [hnone] at hd
    cases hd

end ZeroDowntimeHandoff

end Release

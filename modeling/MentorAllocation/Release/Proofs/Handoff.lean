import MentorAllocation.Concurrency.Run
import MentorAllocation.Release.Proofs.Links

namespace Release
open Concurrency Files

/-- What a hand-off is for: the release in service and the one to go back to. -/
structure Slots where
  current : Option Location
  previous : Option Location
  deriving DecidableEq, Repr

namespace Slots

def promote (s : Slots) (d : Location) : Slots := ⟨some d, s.current⟩

def rollback (s : Slots) : Slots :=
  match s.previous with
  | none => s
  | some d => ⟨some d, s.current⟩

/-- Going back twice restores both. -/
theorem rollback_rollback {s : Slots} {c p : Location} (hc : s.current = some c)
    (hp : s.previous = some p) : s.rollback.rollback = s := by
  obtain ⟨current, previous⟩ := s
  obtain rfl : current = some c := hc
  obtain rfl : previous = some p := hp
  rfl

end Slots

namespace ZeroDowntimeHandoff
variable (H : ZeroDowntimeHandoff)

/-- The directory an entry of the releases directory leads to, if it leads anywhere. -/
def release (t : FileTree HandoffState) (name : String) : Option Location :=
  (H.lead t name).toOption

def outcome (t : FileTree HandoffState) (call : Call) : Option (Except Failure HandoffResult) :=
  (H.run (H.script call) t).map Prod.fst

def next (t : FileTree HandoffState) (call : Call) : Option (FileTree HandoffState) :=
  (H.run (H.script call) t).map Prod.snd

def Step (t : FileTree HandoffState) (call : Call) (t' : FileTree HandoffState) : Prop :=
  H.next t call = some t'

/-- The directory that a path names for the process that makes the call. -/
def names (t : FileTree HandoffState) (source : PurePath) : Option Location :=
  match t.resolve linkLimit (source.base H.workingDir) source.parts with
  | .ok d => if t.isDirectory d then some d else none
  | .error _ => none

def TargetExists (t : FileTree HandoffState) : Call → Prop
  | .promote _ source _ => (H.names t source).isSome
  | .rollback _ => True

/-- The path of a promotion leads from the releases directory where it leads from the
working directory, and not over the hand-off's own links. -/
def SameFromReleases (t : FileTree HandoffState) : Call → Prop
  | .promote _ source _ => ∃ d, H.names t source = some d ∧ H.Direct (H.outside t) source d
  | .rollback _ => True

/-- The call came to its end and so swapped the links. -/
def swapped (p : FileTree HandoffState × Call) : Bool :=
  match H.outcome p.1 p.2 with
  | some (.ok _) => true
  | _ => false

/-- The release that was current immediately before the last swap. -/
def replaced (trace : List (FileTree HandoffState × Call)) : Option Location :=
  (trace.filter H.swapped).getLast?.bind fun p => H.release p.1 "current"

structure Lawful (trace : List (FileTree HandoffState × Call)) (s : FileTree HandoffState) :
    Prop where
  promoted : ∀ before t id source now after d,
    trace = before ++ (t, .promote id source now) :: after → H.names t source = some d →
      H.release (following after s) "current" = some d ∧
        H.release (following after s) "previous" = H.release t "current"
  promotedTwice : ∀ before t id source now u id' source' now' after d e,
    trace = before ++ (t, .promote id source now) :: (u, .promote id' source' now') :: after →
      H.names t source = some d → H.names u source' = some e →
      H.release (following after s) "current" = some e ∧
        H.release (following after s) "previous" = some d
  rolledBack : ∀ before t now after d,
    trace = before ++ (t, .rollback now) :: after → H.replaced before = some d →
      H.release (following after s) "current" = some d ∧
        H.release (following after s) "previous" = H.release t "current"
  refused : ∀ before t now after,
    trace = before ++ (t, .rollback now) :: after → H.replaced before = none →
      following after s = t
  restored : ∀ before t now u now' after d,
    trace = before ++ (t, .rollback now) :: (u, .rollback now') :: after →
      H.replaced before = some d →
      H.release (following after s) "current" = H.release t "current" ∧
        H.release (following after s) "previous" = H.release t "previous"

/-- The releases directory as `__init__` leaves it before any call. -/
structure Fresh (t : FileTree HandoffState) : Prop where
  real : t.Real H.releasesDir
  vacant : ∀ l, H.isOwn l = true → t.get l = none

structure Orderly (base : FileTree HandoffState) (slots : Slots) (t : FileTree HandoffState) :
    Prop where
  links : ∃ c p, Option.Rel (H.Direct base) c slots.current ∧
    Option.Rel (H.Direct base) p slots.previous ∧ Standing H base c p t
  first : slots.current = none → slots.previous = none

variable {H}
section
variable {base t t' : FileTree HandoffState} {slots : Slots} {d : Location} {source : PurePath}

theorem release_of_rel {c p : Option PurePath} {name : String} {target : Option PurePath}
    {lead : Option Location} (h : Standing H base c p t) (hname : name ≠ "..")
    (hg : t.get (H.entry name) = target.map .link) (hrel : Option.Rel (H.Direct base) target lead) :
    H.release t name = lead := by
  cases hrel with
  | none => simp [release, lead_of_none hname hg, Except.toOption]
  | some hd => simp [release, h.lead hname hg hd, Except.toOption]

theorem Orderly.current (h : H.Orderly base slots t) :
    H.release t "current" = slots.current := by
  obtain ⟨c, p, hc, hp, hs⟩ := h.links
  exact release_of_rel hs (by decide) hs.current_eq hc

theorem Orderly.previous (h : H.Orderly base slots t) :
    H.release t "previous" = slots.previous := by
  obtain ⟨c, p, hc, hp, hs⟩ := h.links
  exact release_of_rel hs (by decide) hs.previous_eq hp

/-- A swap puts the target in service and keeps what was in service before it. -/
theorem swap_orderly (h : H.Orderly base slots t) (hd : H.Direct base source d) :
    ∃ t', H.run (atomicSymlinkSwap "current" "previous" source) t = some (.ok (), t') ∧
      H.Orderly base (slots.promote d) t' := by
  obtain ⟨⟨c, p, hc, hp, hs⟩, hfirst⟩ := h
  obtain ⟨current, previous⟩ := slots
  cases hc with
  | none =>
    obtain rfl : previous = none := hfirst rfl
    cases hp
    obtain ⟨t', hr, hs'⟩ := swap_vacant source hs
    exact ⟨t', hr, ⟨_, _, .some hd, .none, hs'⟩, fun hn => by cases hn⟩
  | some hcd =>
    obtain ⟨t', hr, hs'⟩ := swap_taken source hs hcd
    exact ⟨t', hr, ⟨_, _, .some hd, .some hcd, hs'⟩, fun hn => by cases hn⟩

theorem write_orderly (h : H.Orderly base slots t) (state : HandoffState) :
    ∃ t', H.run (Script.atomicWrite "handoff.json" state) t = some (.ok (), t') ∧
      H.Orderly base slots t' := by
  obtain ⟨⟨c, p, hc, hp, hs⟩, hfirst⟩ := h
  obtain ⟨t', hr, hs'⟩ := write_standing state hs
  exact ⟨t', hr, ⟨c, p, hc, hp, hs'⟩, hfirst⟩

/-- The reading of `current` that both calls report. -/
theorem run_previousTarget {β : Type} (h : H.Orderly base slots t)
    (f : Option Location → Script β) :
    H.run (Script.exists? "current" >>= fun b =>
      if b then some <$> Script.resolve "current" >>= f else pure none >>= f) t =
      H.run (f slots.current) t := by
  have hcur := h.current
  rw [run_bind (run_exists "current")]
  unfold release at hcur
  cases hl : H.lead t "current" with
  | error e =>
    rw [hl] at hcur
    simp only [Except.isOk, Except.toBool, Bool.false_eq_true, if_false]
    rw [run_bind (run_pure none), ← hcur]
    rfl
  | ok d =>
    rw [hl] at hcur
    have hmap : H.run (some <$> Script.resolve "current") t = some (.ok (some d), t) :=
      run_bind (run_resolve hl)
    simp only [Except.isOk, Except.toBool, if_true]
    rw [run_bind hmap, ← hcur]
    rfl

theorem promote_orderly (h : H.Orderly base slots t) (hd : H.Direct base source d)
    (id : String) (now : Int) :
    ∃ t', H.run (H.promote id source now) t = some (.ok ⟨id, slots.current, source⟩, t') ∧
      H.Orderly base (slots.promote d) t' := by
  obtain ⟨t1, hswap, ho⟩ := swap_orderly h hd
  obtain ⟨t2, hwrite, ho'⟩ := write_orderly ho
    { buildId := id, source, rollback := false, timestamp := now, rid := H.rid id }
  refine ⟨t2, ?_, ho'⟩
  unfold promote
  refine (run_previousTarget h _).trans ?_
  rw [run_bind hswap, run_bind hwrite]
  rfl

theorem rollback_refused (h : H.Orderly base slots t) (hp : slots.previous = none) (now : Int) :
    H.run (H.rollback now) t = some (.error (.runtimeError "ROLLBACK_UNAVAILABLE"), t) := by
  have hprev := h.previous
  rw [hp] at hprev
  unfold release at hprev
  cases hl : H.lead t "previous" with
  | ok d =>
    rw [hl] at hprev
    cases hprev
  | error e =>
    unfold rollback
    rw [run_bind (run_exists "previous"), hl]
    rfl

theorem rollback_orderly (h : H.Orderly base slots t) (hp : slots.previous = some d)
    (now : Int) :
    ∃ r t', H.run (H.rollback now) t = some (.ok r, t') ∧ H.Orderly base slots.rollback t' := by
  have hprev := h.previous
  rw [hp] at hprev
  unfold release at hprev
  cases hl : H.lead t "previous" with
  | error e =>
    rw [hl] at hprev
    cases hprev
  | ok l =>
    rw [hl] at hprev
    obtain rfl : l = d := Option.some.inj hprev
    obtain ⟨c, p, -, hpd, hs⟩ := h.links
    rw [hp] at hpd
    cases hpd with
    | some hdirect =>
      obtain ⟨t1, hswap, ho⟩ := swap_orderly h (hdirect.place hs.real)
      obtain ⟨t2, hwrite, ho'⟩ := write_orderly ho
        { buildId := l.getLast?.getD "", source := ⟨true, l⟩, rollback := true,
          timestamp := now, rid := H.rid (pathText l) }
      have hslots : slots.rollback = slots.promote l := by
        simp [Slots.rollback, Slots.promote, hp]
      refine ⟨⟨l.getLast?.getD "", slots.current, ⟨true, l⟩⟩, t2, ?_, hslots ▸ ho'⟩
      unfold rollback
      rw [run_bind (run_exists "previous"), hl]
      simp only [Except.isOk, Except.toBool, Bool.not_true, Bool.false_eq_true, if_false]
      refine (run_previousTarget h _).trans ?_
      rw [run_bind (run_resolve hl), run_bind hswap, run_bind hwrite]
      rfl

/-- Where a path leads outside the hand-off's links is the same in every tree of a run. -/
theorem Orderly.direct_iff (h : H.Orderly base slots t) :
    H.Direct (H.outside t) source d ↔ H.Direct base source d := by
  obtain ⟨c, p, -, -, hs⟩ := h.links
  have hget : ∀ l, (H.outside t).get l = base.get l := by
    intro l
    rw [get_outside]
    cases ho : H.isOwn l with
    | true => simp [hs.base_own l ho]
    | false => simp [hs.rest_eq l ho]
  have hto : (H.outside t).Within base := fun l n hn => by rw [← hget]; exact hn
  have hfrom : base.Within (H.outside t) := fun l n hn => by rw [hget]; exact hn
  constructor
  · rintro ⟨hr, hd⟩
    exact ⟨FileTree.resolve_within hto hr, FileTree.isDirectory_within hto hd⟩
  · rintro ⟨hr, hd⟩
    exact ⟨FileTree.resolve_within hfrom hr, FileTree.isDirectory_within hfrom hd⟩

/-- What a call does to the slots, seen from the tree it starts in. -/
def slotsAfter (H : ZeroDowntimeHandoff) (t : FileTree HandoffState) (slots : Slots) : Call → Slots
  | .promote _ source _ => ((H.names t source).map slots.promote).getD slots
  | .rollback _ => slots.rollback

/-- Each call does to the tree what it is for. -/
theorem step_orderly {call : Call} (h : H.Orderly base slots t)
    (hcall : H.SameFromReleases t call) (hstep : H.Step t call t') :
    H.Orderly base (H.slotsAfter t slots call) t' ∧
      (H.swapped (t, call) = true ∧ (H.slotsAfter t slots call).previous = slots.current ∨
        H.swapped (t, call) = false ∧ slots.previous = none ∧ t' = t ∧
          ∃ now, call = .rollback now) := by
  unfold Step next at hstep
  cases call with
  | promote id source now =>
    obtain ⟨d, hname, hdirect⟩ := hcall
    obtain ⟨t2, hrun, ho⟩ := promote_orderly h (h.direct_iff.mp hdirect) id now
    have hrun' : H.run (H.script (.promote id source now)) t = _ := hrun
    rw [hrun'] at hstep
    obtain rfl : t2 = t' := Option.some.inj hstep
    have hslots : H.slotsAfter t slots (.promote id source now) = slots.promote d := by
      simp [slotsAfter, hname]
    rw [hslots]
    refine ⟨ho, .inl ⟨?_, rfl⟩⟩
    simp only [swapped, outcome, hrun', Option.map_some]
  | rollback now =>
    cases hp : slots.previous with
    | none =>
      have hrun : H.run (H.script (.rollback now)) t = _ := rollback_refused h hp now
      rw [hrun] at hstep
      obtain rfl : t = t' := Option.some.inj hstep
      have hslots : H.slotsAfter t slots (.rollback now) = slots := by
        simp [slotsAfter, Slots.rollback, hp]
      rw [hslots]
      refine ⟨h, .inr ⟨?_, rfl, rfl, now, rfl⟩⟩
      simp only [swapped, outcome, hrun, Option.map_some]
    | some d =>
      obtain ⟨r, t2, hrun, ho⟩ := rollback_orderly h hp now
      have hrun' : H.run (H.script (.rollback now)) t = _ := hrun
      rw [hrun'] at hstep
      obtain rfl : t2 = t' := Option.some.inj hstep
      refine ⟨ho, .inl ⟨?_, ?_⟩⟩
      · simp only [swapped, outcome, hrun', Option.map_some]
      · simp [slotsAfter, Slots.rollback, hp]

theorem Fresh.orderly {start : FileTree HandoffState} (h : H.Fresh start) :
    H.Orderly (H.outside start) ⟨none, none⟩ start := by
  have hown : ∀ name ∈ ownNames, start.get (H.entry name) = none := fun name hn =>
    h.vacant _ (List.any_eq_true.mpr ⟨name, hn, beq_self_eq_true _⟩)
  have hwithin : start.Within (H.outside start) := by
    intro l n hn
    rw [get_outside]
    cases ho : H.isOwn l with
    | true => simp [h.vacant l ho] at hn
    | false => simpa using hn
  refine ⟨⟨none, none, .none, .none, ?_⟩, fun _ => rfl⟩
  constructor
  · exact hown "current" (by decide)
  · exact hown "previous" (by decide)
  · exact hown "current.new" (by decide)
  · exact hown "previous.tmp" (by decide)
  · simp [hown "handoff.json" (by decide)]
  · intro l hl
    simp [get_outside, hl]
  · intro l hl
    simp [get_outside, hl]
  · exact h.real.within hwithin

theorem replaced_snoc (trace : List (FileTree HandoffState × Call)) (call : Call) :
    H.replaced (trace ++ [(t, call)]) =
      if H.swapped (t, call) then H.release t "current" else H.replaced trace := by
  cases hs : H.swapped (t, call) <;> simp [replaced, List.filter_append, hs]

/-- Every state of an allowed run realises slots, and `previous` is the release that
the last swap replaced. -/
theorem run_orderly {start : FileTree HandoffState} {trace : List (FileTree HandoffState × Call)}
    (fresh : H.Fresh start) (run : Run H.Step start trace t)
    (met : EachStep H.SameFromReleases trace) :
    ∃ slots, H.Orderly (H.outside start) slots t ∧ slots.previous = H.replaced trace := by
  induction run with
  | nil => exact ⟨_, fresh.orderly, rfl⟩
  | @snoc trace t t' call before last ih =>
    obtain ⟨htrace, hcall⟩ := (eachStep_snoc _).mp met
    obtain ⟨slots, ho, hp⟩ := ih htrace
    obtain ⟨ho', hcase⟩ := step_orderly ho hcall last
    refine ⟨_, ho', ?_⟩
    rw [replaced_snoc]
    rcases hcase with ⟨hs, hprev⟩ | ⟨hs, hprev, -, now, rfl⟩
    · rw [if_pos hs, hprev, ho.current]
    · rw [hs, ← hp]
      simp [slotsAfter, Slots.rollback, hprev]

/-- One call of an allowed run: the slots it finds and the slots it leaves. -/
theorem run_call {start : FileTree HandoffState}
    {before after : List (FileTree HandoffState × Call)}
    {call : Call} {s : FileTree HandoffState} (fresh : H.Fresh start)
    (run : Run H.Step start (before ++ (t, call) :: after) s)
    (met : EachStep H.SameFromReleases (before ++ (t, call) :: after)) :
    ∃ slots, H.Orderly (H.outside start) slots t ∧ slots.previous = H.replaced before ∧
      H.Orderly (H.outside start) (H.slotsAfter t slots call) (following after s) := by
  obtain ⟨hrun, hstep⟩ := run.split
  obtain ⟨hbefore, hcall⟩ := met.split
  obtain ⟨slots, ho, hp⟩ := run_orderly fresh hrun hbefore
  exact ⟨slots, ho, hp, (step_orderly ho hcall hstep).1⟩

/-- Two calls in a row. -/
theorem run_calls {start : FileTree HandoffState}
    {before after : List (FileTree HandoffState × Call)}
    {call call' : Call} {u s : FileTree HandoffState} (fresh : H.Fresh start)
    (run : Run H.Step start (before ++ (t, call) :: (u, call') :: after) s)
    (met : EachStep H.SameFromReleases (before ++ (t, call) :: (u, call') :: after)) :
    ∃ slots, H.Orderly (H.outside start) slots t ∧ slots.previous = H.replaced before ∧
      H.Orderly (H.outside start) (H.slotsAfter u (H.slotsAfter t slots call) call')
        (following after s) := by
  obtain ⟨slots, ho, hp, hu⟩ := run_call fresh run met
  have hsplit : before ++ (t, call) :: (u, call') :: after =
      (before ++ [(t, call)]) ++ (u, call') :: after := by simp
  rw [hsplit] at run met
  exact ⟨slots, ho, hp, (step_orderly hu met.split.2 run.split.2).1⟩

/-- When every promoted path names from the releases directory the directory it names
for the caller, the calls obey the algebra of the hand-off in every run. -/
theorem handoff_lawful {start s : FileTree HandoffState}
    {trace : List (FileTree HandoffState × Call)}
    (fresh : H.Fresh start) (run : Run H.Step start trace s)
    (met : EachStep H.SameFromReleases trace) : H.Lawful trace s := by
  constructor
  · rintro before t id source now after d rfl hd
    obtain ⟨slots, ho, hp, ho'⟩ := run_call fresh run met
    rw [ho'.current, ho'.previous, ho.current]
    simp [slotsAfter, hd, Slots.promote]
  · rintro before t id source now u id' source' now' after d e rfl hd he
    obtain ⟨slots, ho, hp, ho'⟩ := run_calls fresh run met
    rw [ho'.current, ho'.previous]
    simp [slotsAfter, hd, he, Slots.promote]
  · rintro before t now after d rfl hd
    obtain ⟨slots, ho, hp, ho'⟩ := run_call fresh run met
    rw [ho'.current, ho'.previous, ho.current]
    simp [slotsAfter, Slots.rollback, hp, hd]
  · rintro before t now after rfl hd
    obtain ⟨hrun, hstep⟩ := run.split
    obtain ⟨hbefore, hcall⟩ := met.split
    obtain ⟨slots, ho, hp⟩ := run_orderly fresh hrun hbefore
    have hrefused := rollback_refused ho (hp.trans hd) now
    unfold Step next script at hstep
    rw [hrefused] at hstep
    exact (Option.some.inj hstep).symm
  · rintro before t now u now' after d rfl hd
    obtain ⟨slots, ho, hp, ho'⟩ := run_calls fresh run met
    have hprev : slots.previous = some d := hp.trans hd
    rw [ho'.current, ho'.previous, ho.current, ho.previous]
    cases hc : slots.current with
    | none => simp [ho.first hc] at hprev
    | some c => simp [slotsAfter, Slots.rollback_rollback hc hprev, hc]

end

instance (base : FileTree HandoffState) (target : PurePath) (d : Location) :
    Decidable (H.Direct base target d) := inferInstanceAs (Decidable (_ ∧ _))

/-- A host whose working directory is the root and whose releases are kept in
`releases`, as the command line has it when nothing is said. -/
def host : ZeroDowntimeHandoff :=
  { releasesDir := ["releases"], workingDir := [], sha256 := id }

def staged : FileTree HandoffState :=
  ⟨[(["releases"], .directory), (["releases", "a"], .directory), (["builds"], .directory),
    (["builds", "b"], .directory)]⟩

theorem staged_fresh : host.Fresh staged := by
  constructor
  · exact FileTree.real_nil.append (by decide : "releases" ≠ "..") (by decide)
  · intro l hl
    simp only [isOwn, ownNames, List.any_cons, List.any_nil, Bool.or_false, Bool.or_eq_true,
      beq_iff_eq] at hl
    rcases hl with rfl | rfl | rfl | rfl | rfl <;> decide

def goodCalls : List Call :=
  [.promote "a" ⟨true, ["releases", "a"]⟩ 1, .promote "b" ⟨true, ["builds", "b"]⟩ 2,
    .rollback 3, .rollback 4]

theorem handoff_lawful_staged :
    ∃ s, replay host.next staged goodCalls = some s ∧
      host.Lawful (trail host.next staged goodCalls) s := by
  have hmet : EachStep host.SameFromReleases (trail host.next staged goodCalls) :=
    eachStep_of_all (show List.all _ (fun p => match p.2 with
      | .promote _ source _ => match host.names p.1 source with
        | some d => decide (host.Direct (host.outside p.1) source d)
        | none => false
      | .rollback _ => true) = true by decide +kernel) (by
        intro t call hc
        cases call with
        | rollback now => trivial
        | promote id source now =>
          simp only at hc
          split at hc
          · rename_i d hd
            exact ⟨d, hd, of_decide_eq_true hc⟩
          · cases hc)
  cases hr : replay host.next staged goodCalls with
  | none => exact absurd hr (by decide +kernel)
  | some s => exact ⟨s, rfl, handoff_lawful staged_fresh (run_of_replay hr) hmet⟩

/-- The command line's `deploy` with its default directory: the path is relative. -/
def relativeDeploy : Call := .promote "a" ⟨false, ["releases", "a"]⟩ 1

/-- The link is read from the directory that holds it, so a relative path, though it
names an existing build for the caller, leaves `current` dangling. -/
theorem relative_release_dangles :
    ¬ ∀ (H : ZeroDowntimeHandoff) start trace s, H.Fresh start → Run H.Step start trace s →
      EachStep H.TargetExists trace → H.Lawful trace s := by
  intro hall
  cases hn : host.next staged relativeDeploy with
  | none => exact absurd hn (by decide +kernel)
  | some t =>
    have hexists : host.TargetExists staged relativeDeploy := by
      show (host.names staged _).isSome = true
      decide
    have hlawful := hall host staged [(staged, relativeDeploy)] t staged_fresh
      (Run.snoc .nil hn) (by simpa [EachStep] using hexists)
    have hcurrent := (hlawful.promoted [] staged "a" ⟨false, ["releases", "a"]⟩ 1 []
      ["releases", "a"] rfl (by decide)).1
    have hdangling : (host.next staged relativeDeploy).bind (host.release · "current") = none := by
      decide +kernel
    rw [hn] at hdangling
    rw [following, show host.release t "current" = none from hdangling] at hcurrent
    cases hcurrent

end ZeroDowntimeHandoff

end Release

namespace Concurrency

/-- A finite run, kept as the states it left together with the labels taken there. -/
inductive Run {σ κ : Type} (step : σ → κ → σ → Prop) (start : σ) : List (σ × κ) → σ → Prop where
  | nil : Run step start [] start
  | snoc {trace : List (σ × κ)} {s t : σ} {l : κ} (before : Run step start trace s)
      (last : step s l t) : Run step start (trace ++ [(s, l)]) t

/-- A property of every state of a run, the one it stopped in included. -/
def Throughout {σ κ : Type} (P : σ → Prop) (trace : List (σ × κ)) (s : σ) : Prop :=
  (∀ p ∈ trace, P p.1) ∧ P s

/-- A condition on every step of a run: the state it started from and its label. -/
def EachStep {σ κ : Type} (C : σ → κ → Prop) (trace : List (σ × κ)) : Prop :=
  ∀ p ∈ trace, C p.1 p.2

section
variable {σ κ : Type} {step : σ → κ → σ → Prop} {start s t : σ} {trace : List (σ × κ)} {l : κ}

theorem throughout_nil (P : σ → Prop) : Throughout P ([] : List (σ × κ)) s ↔ P s := by
  simp [Throughout]

theorem throughout_snoc (P : σ → Prop) :
    Throughout P (trace ++ [(s, l)]) t ↔ Throughout P trace s ∧ P t := by
  simp only [Throughout, List.mem_append, List.mem_singleton]
  constructor
  · rintro ⟨ht, hf⟩
    exact ⟨⟨fun p hp => ht p (.inl hp), ht (s, l) (.inr rfl)⟩, hf⟩
  · rintro ⟨⟨ht, hs⟩, hf⟩
    refine ⟨?_, hf⟩
    rintro p (hp | rfl)
    · exact ht p hp
    · exact hs

theorem Throughout.imp {P Q : σ → Prop} (h : Throughout P trace s) (hpq : ∀ s, P s → Q s) :
    Throughout Q trace s :=
  ⟨fun p hp => hpq p.1 (h.1 p hp), hpq s h.2⟩

theorem eachStep_snoc (C : σ → κ → Prop) :
    EachStep C (trace ++ [(s, l)]) ↔ EachStep C trace ∧ C s l := by
  simp only [EachStep, List.mem_append, List.mem_singleton]
  constructor
  · intro h
    exact ⟨fun p hp => h p (.inl hp), h (s, l) (.inr rfl)⟩
  · rintro ⟨ht, hl⟩ p (hp | rfl)
    · exact ht p hp
    · exact hl

theorem EachStep.weaken {C D : σ → κ → Prop} (h : EachStep C trace)
    (hcd : ∀ s l, C s l → D s l) : EachStep D trace :=
  fun p hp => hcd p.1 p.2 (h p hp)

/-- A condition that a test establishes on every step of a concrete run. -/
theorem eachStep_of_all {C : σ → κ → Prop} {check : σ × κ → Bool} (h : trace.all check = true)
    (hc : ∀ s l, check (s, l) = true → C s l) : EachStep C trace :=
  fun p hp => hc p.1 p.2 (List.all_eq_true.mp h p hp)

/-- What the start satisfies and each allowed step keeps holds all along the run. -/
theorem Run.invariant {I : σ → Prop} {C : σ → κ → Prop} (h : Run step start trace s)
    (base : I start) (kept : ∀ s l t, I s → C s l → step s l t → I t)
    (allowed : EachStep C trace) : Throughout I trace s := by
  induction h with
  | nil => exact (throughout_nil I).mpr base
  | snoc before last ih =>
    obtain ⟨ht, hl⟩ := (eachStep_snoc C).mp allowed
    have hs := ih ht
    exact (throughout_snoc I).mpr ⟨hs, kept _ _ _ hs.2 hl last⟩

/-- What relates the ends of each step relates any two states of a run, in their order. -/
theorem Run.pairwise {I : σ → Prop} {C : σ → κ → Prop} {R : σ → σ → Prop}
    (h : Run step start trace s) (base : I start)
    (kept : ∀ s l t, I s → C s l → step s l t → I t)
    (related : ∀ s l t, I s → C s l → step s l t → R s t)
    (trans : ∀ s t u, R s t → R t u → R s u) (allowed : EachStep C trace) :
    (trace.map Prod.fst ++ [s]).Pairwise R := by
  induction h with
  | nil => exact List.pairwise_singleton _ _
  | @snoc trace s t l before last ih =>
    obtain ⟨ht, hl⟩ := (eachStep_snoc C).mp allowed
    have hst : R s t := related s l t (before.invariant base kept ht).2 hl last
    have hpairs := ih ht
    rw [List.map_append, List.map_singleton]
    refine List.pairwise_append.mpr ⟨hpairs, List.pairwise_singleton _ _, fun a ha b hb => ?_⟩
    rw [List.mem_singleton.mp hb]
    rcases List.mem_append.mp ha with ha | ha
    · exact trans a s t ((List.pairwise_append.mp hpairs).2.2 a ha s (List.mem_singleton_self s))
        hst
    · rwa [List.mem_singleton.mp ha]

/-- Where each step keeps `P` exactly under `C`, a run stays within `P` exactly
when it starts there and each of its steps meets `C`. -/
theorem Run.throughout_iff {I P : σ → Prop} {C : σ → κ → Prop} (h : Run step start trace s)
    (base : I start) (kept : ∀ s l t, I s → step s l t → I t)
    (exact : ∀ s l t, I s → P s → step s l t → (P t ↔ C s l)) :
    Throughout P trace s ↔ P start ∧ EachStep C trace := by
  induction h with
  | nil => simp [throughout_nil, EachStep]
  | @snoc trace s t l before last ih =>
    have hi : I s := (before.invariant (C := fun _ _ => True) base
      (fun s l t hs _ hl => kept s l t hs hl) (fun _ _ => trivial)).2
    rw [throughout_snoc, eachStep_snoc, ih]
    constructor
    · rintro ⟨⟨hp, hc⟩, ht⟩
      have hs : P s := (ih.mpr ⟨hp, hc⟩).2
      exact ⟨hp, hc, (exact s l t hi hs last).mp ht⟩
    · rintro ⟨hp, hc, hl⟩
      have hs : P s := (ih.mpr ⟨hp, hc⟩).2
      exact ⟨⟨hp, hc⟩, (exact s l t hi hs last).mpr hl⟩

/-- The state a run was in before the steps that remain, where it stopped in `s`. -/
def following : List (σ × κ) → σ → σ
  | [], s => s
  | p :: _, _ => p.1

/-- A run up to one of its steps, and that step. -/
theorem Run.split {rest : List (σ × κ)} (h : Run step start (trace ++ (t, l) :: rest) s) :
    Run step start trace t ∧ step t l (following rest s) := by
  generalize hw : trace ++ (t, l) :: rest = whole at h
  induction h generalizing rest with
  | nil => simp at hw
  | @snoc whole s u k before last ih =>
    rcases List.eq_nil_or_concat rest with rfl | ⟨rest, p, rfl⟩
    · obtain ⟨rfl, hp⟩ := List.append_inj' hw rfl
      obtain ⟨rfl, rfl⟩ : t = s ∧ l = k := by simpa using hp
      exact ⟨before, last⟩
    · rw [List.concat_eq_append, ← List.cons_append, ← List.append_assoc] at hw
      obtain ⟨hbefore, hp⟩ := List.append_inj' hw rfl
      obtain ⟨hrun, hstep⟩ := ih hbefore
      obtain rfl : p = (s, k) := by simpa using hp
      refine ⟨hrun, ?_⟩
      cases rest with
      | nil => exact hstep
      | cons q rest => exact hstep

/-- What a run does from one of its states on is a run from there. -/
theorem Run.suffix {rest : List (σ × κ)} (h : Run step start (trace ++ (t, l) :: rest) s) :
    Run step t ((t, l) :: rest) s := by
  generalize hw : trace ++ (t, l) :: rest = whole at h
  induction h generalizing rest with
  | nil => simp at hw
  | @snoc whole s u k before last ih =>
    rcases List.eq_nil_or_concat rest with rfl | ⟨rest, p, rfl⟩
    · obtain ⟨rfl, hp⟩ := List.append_inj' hw rfl
      obtain ⟨rfl, rfl⟩ : t = s ∧ l = k := by simpa using hp
      exact Run.nil.snoc last
    · rw [List.concat_eq_append, ← List.cons_append, ← List.append_assoc] at hw
      obtain ⟨hbefore, hp⟩ := List.append_inj' hw rfl
      obtain rfl : p = (s, k) := by simpa using hp
      simpa using (ih hbefore).snoc last

theorem EachStep.split {C : σ → κ → Prop} {rest : List (σ × κ)}
    (h : EachStep C (trace ++ (t, l) :: rest)) : EachStep C trace ∧ C t l :=
  ⟨fun p hp => h p (by simp [hp]), h (t, l) (by simp)⟩

/-- A run of a deterministic machine, replayed from its labels. -/
def replay (next : σ → κ → Option σ) : σ → List κ → Option σ
  | s, [] => some s
  | s, l :: ls => (next s l).bind (fun t => replay next t ls)

def trail (next : σ → κ → Option σ) : σ → List κ → List (σ × κ)
  | _, [] => []
  | s, l :: ls => match next s l with
    | none => []
    | some t => (s, l) :: trail next t ls

theorem run_append {next : σ → κ → Option σ} {ls : List κ}
    (h : Run (fun s l t => next s l = some t) start trace s)
    (hr : replay next s ls = some t) :
    Run (fun s l t => next s l = some t) start (trace ++ trail next s ls) t := by
  induction ls generalizing s trace with
  | nil =>
    simp only [replay, Option.some.injEq] at hr
    simpa [trail, hr] using h
  | cons l ls ih =>
    simp only [replay, Option.bind_eq_some_iff] at hr
    obtain ⟨u, hu, hr⟩ := hr
    have hu' := ih (h.snoc hu) hr
    simpa [trail, hu] using hu'

/-- Replaying labels gives a run. -/
theorem run_of_replay {next : σ → κ → Option σ} {ls : List κ}
    (h : replay next start ls = some t) :
    Run (fun s l t => next s l = some t) start (trail next start ls) t := by
  simpa using run_append .nil h

end

end Concurrency

import Mathlib.Data.List.Basic

namespace Data
variable {ε α β : Type}

theorem bind_eq_ok {x : Except ε α} {f : α → Except ε β} {b : β} :
    x >>= f = .ok b ↔ ∃ a, x = .ok a ∧ f a = .ok b := by
  cases x with
  | error e => simp [bind, Except.bind]
  | ok a => simp [bind, Except.bind]

@[simp] theorem ok_bind (a : α) (f : α → Except ε β) : Except.ok a >>= f = f a := rfl

theorem pure_eq_ok {a b : α} : (pure a : Except ε α) = .ok b ↔ a = b := by
  simp [pure, Except.pure]

theorem mapError_eq_ok {ε' : Type} {x : Except ε α} {f : ε → ε'} {a : α} :
    x.mapError f = .ok a ↔ x = .ok a := by
  cases x with
  | error e => simp [Except.mapError]
  | ok a => simp [Except.mapError]

/-- Where each element yields its image or fails, the whole list yields its image or fails. -/
theorem mapM_eq_ok {f : α → Except ε β} {g : α → β} {P : α → Prop}
    (h : ∀ a b, f a = .ok b ↔ b = g a ∧ P a) (l : List α) (bs : List β) :
    l.mapM f = .ok bs ↔ bs = l.map g ∧ ∀ a ∈ l, P a := by
  induction l generalizing bs with
  | nil =>
    rw [List.mapM_nil, pure_eq_ok]
    simp [eq_comm]
  | cons a l ih =>
    simp only [List.mapM_cons, bind_eq_ok, pure_eq_ok, h, ih, List.map_cons, List.forall_mem_cons]
    constructor
    · rintro ⟨b, ⟨rfl, ha⟩, bs', ⟨rfl, hl⟩, rfl⟩
      exact ⟨rfl, ha, hl⟩
    · rintro ⟨rfl, ha, hl⟩
      exact ⟨g a, ⟨rfl, ha⟩, _, ⟨rfl, hl⟩, rfl⟩

theorem mapM_cons_eq_ok {f : α → Except ε β} {a : α} {l : List α} {bs : List β} :
    (a :: l).mapM f = .ok bs ↔
      ∃ b bs', f a = .ok b ∧ l.mapM f = .ok bs' ∧ bs = b :: bs' := by
  simp only [List.mapM_cons, bind_eq_ok, pure_eq_ok]
  constructor
  · rintro ⟨b, hb, bs', hbs, rfl⟩
    exact ⟨b, bs', hb, hbs, rfl⟩
  · rintro ⟨b, bs', hb, hbs, rfl⟩
    exact ⟨b, hb, bs', hbs, rfl⟩

/-- A step and what follows it; a step that fails leaves its state behind. -/
def andThen {σ : Type} (step : Except ε α × σ) (next : α → σ → Except ε β × σ) :
    Except ε β × σ :=
  match step with
  | (.error e, s) => (.error e, s)
  | (.ok a, s) => next a s

@[simp] theorem andThen_ok {σ : Type} (a : α) (s : σ) (next : α → σ → Except ε β × σ) :
    andThen (.ok a, s) next = next a s := rfl

@[simp] theorem andThen_error {σ : Type} (e : ε) (s : σ) (next : α → σ → Except ε β × σ) :
    andThen (.error e, s) next = (.error e, s) := rfl

/-- What holds of the state after the first step and is kept by the next one holds at the end. -/
theorem andThen_keeps {σ : Type} {P : σ → Prop} {step : Except ε α × σ}
    {next : α → σ → Except ε β × σ} (hstep : P step.2) (hnext : ∀ a s, P s → P (next a s).2) :
    P (andThen step next).2 := by
  obtain ⟨result, s⟩ := step
  cases result with
  | error e => exact hstep
  | ok a => exact hnext a s hstep

/-- One kind of exception ends a list as soon as one of its elements fails. -/
theorem mapM_eq_error {f : α → Except ε β} {e : ε} {l : List α}
    (honly : ∀ a e', f a = .error e' → e' = e) (h : ∃ a ∈ l, ∃ e', f a = .error e') :
    l.mapM f = .error e := by
  induction l with
  | nil =>
    obtain ⟨a, ha, -⟩ := h
    cases ha
  | cons a l ih =>
    rw [List.mapM_cons]
    cases ha : f a with
    | error e' =>
      rw [honly a e' ha]
      rfl
    | ok b =>
      obtain ⟨a', ha', e', he'⟩ := h
      have htail : ∃ a ∈ l, ∃ e', f a = .error e' := by
        rcases List.mem_cons.mp ha' with rfl | hmem
        · rw [ha] at he'
          cases he'
        · exact ⟨a', hmem, e', he'⟩
      rw [ok_bind, ih htail]
      rfl

end Data

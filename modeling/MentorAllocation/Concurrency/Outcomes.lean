import MentorAllocation.Concurrency.Program

namespace Concurrency

namespace Program
variable {χ χ' σ Req α β : Type} {Resp : Req → Type}
  {answer : χ → (r : Req) → σ → Option (Resp r × σ)}
  {answer' : χ' → (r : Req) → σ → Option (Resp r × σ)}

/-- What a program may end in and the state it then leaves, over all that its surroundings
are free to decide. -/
def Reaches (answer : χ → (r : Req) → σ → Option (Resp r × σ)) :
    Program Req Resp α → σ → α → σ → Prop
  | .ret a, s, b, t => b = a ∧ t = s
  | .ask r rest, s, b, t => ∃ ch x u, answer ch r s = some (x, u) ∧ Reaches answer (rest x) u b t

@[simp] theorem reaches_ret {a b : α} {s t : σ} :
    Reaches answer (.ret a : Program Req Resp α) s b t ↔ b = a ∧ t = s := Iff.rfl

theorem reaches_ask {r : Req} {rest : Resp r → Program Req Resp α} {s t : σ} {b : α} :
    Reaches answer (.ask r rest) s b t ↔
      ∃ ch x u, answer ch r s = some (x, u) ∧ Reaches answer (rest x) u b t := Iff.rfl

theorem reaches_bind {p : Program Req Resp α} {f : α → Program Req Resp β} {s t : σ} {b : β} :
    Reaches answer (p.bind f) s b t ↔
      ∃ a u, Reaches answer p s a u ∧ Reaches answer (f a) u b t := by
  induction p generalizing s with
  | ret a =>
    constructor
    · intro h
      exact ⟨a, s, ⟨rfl, rfl⟩, h⟩
    · rintro ⟨_, _, ⟨rfl, rfl⟩, h⟩
      exact h
  | ask r rest ih =>
    simp only [ask_bind, reaches_ask, ih]
    constructor
    · rintro ⟨ch, x, u, hx, a, v, hp, hf⟩
      exact ⟨a, v, ⟨ch, x, u, hx, hp⟩, hf⟩
    · rintro ⟨a, v, ⟨ch, x, u, hx, hp⟩, hf⟩
      exact ⟨ch, x, u, hx, a, v, hp, hf⟩

/-- Surroundings that may answer as others do let a program end as it does there. -/
theorem Reaches.weaken {p : Program Req Resp α} {s t : σ} {a : α} (h : Reaches answer p s a t)
    (hanswers : ∀ ch r s x t, answer ch r s = some (x, t) →
      ∃ ch', answer' ch' r s = some (x, t)) : Reaches answer' p s a t := by
  induction p generalizing s with
  | ret b => exact h
  | ask r rest ih =>
    obtain ⟨ch, x, u, hx, h⟩ := h
    obtain ⟨ch', hx'⟩ := hanswers ch r s x u hx
    exact ⟨ch', x, u, hx', ih x h⟩

/-- Alone under one choice throughout. -/
theorem reaches_of_alone (ch : χ) {p : Program Req Resp α} {s t : σ} {a : α}
    (h : alone (answer ch) p s = some (a, t)) : Reaches answer p s a t := by
  induction p generalizing s with
  | ret b =>
    obtain ⟨rfl, rfl⟩ := Prod.mk.inj (Option.some.inj h)
    exact ⟨rfl, rfl⟩
  | ask r rest ih =>
    simp only [alone, Option.bind_eq_some_iff] at h
    obtain ⟨⟨x, u⟩, hx, h⟩ := h
    exact ⟨ch, x, u, hx, ih x h⟩

end Program

namespace Fallible
variable {χ σ Req α β ε : Type} {Resp : Req → Type}
  {answer : χ → (r : Req) → σ → Option (Resp r × σ)} {p : Fallible Req Resp ε α}
  {f : α → Fallible Req Resp ε β} {s t : σ} {y : Except ε β}

theorem reaches_handle {h : ε → Fallible Req Resp ε β} :
    Program.Reaches answer (handle p f h) s y t ↔
      (∃ a u, Program.Reaches answer p s (.ok a) u ∧ Program.Reaches answer (f a) u y t) ∨
        ∃ e u, Program.Reaches answer p s (.error e) u ∧ Program.Reaches answer (h e) u y t := by
  refine Program.reaches_bind.trans ?_
  constructor
  · rintro ⟨x, u, hp, hrest⟩
    cases x with
    | ok a => exact .inl ⟨a, u, hp, hrest⟩
    | error e => exact .inr ⟨e, u, hp, hrest⟩
  · rintro (⟨a, u, hp, hrest⟩ | ⟨e, u, hp, hrest⟩)
    · exact ⟨.ok a, u, hp, hrest⟩
    · exact ⟨.error e, u, hp, hrest⟩

theorem reaches_bind :
    Program.Reaches answer (p >>= f : Fallible Req Resp ε β) s y t ↔
      (∃ a u, Program.Reaches answer p s (.ok a) u ∧ Program.Reaches answer (f a) u y t) ∨
        ∃ e, y = .error e ∧ Program.Reaches answer p s (.error e) t := by
  rw [bind_eq, reaches_handle]
  refine or_congr Iff.rfl ⟨?_, ?_⟩
  · rintro ⟨e, u, hp, rfl, rfl⟩
    exact ⟨e, rfl, hp⟩
  · rintro ⟨e, rfl, hp⟩
    exact ⟨e, t, hp, rfl, rfl⟩

theorem reaches_raised {e : ε} (h : Program.Reaches answer p s (.error e) t) :
    Program.Reaches answer (p >>= f : Fallible Req Resp ε β) s (.error e) t :=
  reaches_bind.mpr (.inr ⟨e, rfl, h⟩)

theorem reaches_ofExcept_ok {a : α} :
    Program.Reaches answer (ofExcept (.ok a) >>= f : Fallible Req Resp ε β) s y t ↔
      Program.Reaches answer (f a) s y t := Iff.rfl

theorem reaches_ofExcept_error {e : ε} :
    Program.Reaches answer (ofExcept (.error e) >>= f : Fallible Req Resp ε β) s y t ↔
      y = .error e ∧ t = s := Iff.rfl

/-- What always returns one value. -/
theorem reaches_bind_ok {a : α} {u : σ}
    (hp : ∀ x v, Program.Reaches answer p s x v ↔ x = .ok a ∧ v = u) :
    Program.Reaches answer (p >>= f : Fallible Req Resp ε β) s y t ↔
      Program.Reaches answer (f a) u y t := by
  refine Program.reaches_bind.trans ⟨?_, fun h => ⟨.ok a, u, (hp _ _).mpr ⟨rfl, rfl⟩, h⟩⟩
  rintro ⟨x, v, hx, h⟩
  obtain ⟨rfl, rfl⟩ := (hp x v).mp hx
  exact h

/-- What always ends in one exception. -/
theorem reaches_bind_error {e : ε} {u : σ}
    (hp : ∀ x v, Program.Reaches answer p s x v ↔ x = .error e ∧ v = u) :
    Program.Reaches answer (p >>= f : Fallible Req Resp ε β) s y t ↔ y = .error e ∧ t = u := by
  refine Program.reaches_bind.trans ⟨?_, fun h => ⟨.error e, u, (hp _ _).mpr ⟨rfl, rfl⟩, h⟩⟩
  rintro ⟨x, v, hx, h⟩
  obtain ⟨rfl, rfl⟩ := (hp x v).mp hx
  exact h

end Fallible

end Concurrency

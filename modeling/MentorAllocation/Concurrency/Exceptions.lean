import MentorAllocation.Concurrency.Protocol

namespace Concurrency

namespace Fallible
variable {Req : Type} {Resp : Req → Type} {α β ε : Type}

/-- `p`; if it ends in an exception, `cleanup` first. -/
def onError (p : Fallible Req Resp ε α) (cleanup : Fallible Req Resp ε Unit) :
    Fallible Req Resp ε α :=
  handle p pure (fun e => cleanup >>= fun _ => raise e)

/-- `p`, and `cleanup` however it ends. -/
def ensure (p : Fallible Req Resp ε α) (cleanup : Fallible Req Resp ε Unit) :
    Fallible Req Resp ε α :=
  handle p (fun a => cleanup >>= fun _ => pure a) (fun e => cleanup >>= fun _ => raise e)

section
variable {χ σ : Type} {answer : χ → (r : Req) → σ → Option (Resp r × σ)} {chs : List χ} {s t : σ}
  {y : Except ε β}

theorem played_call {r : Req} {f : Resp r → Fallible Req Resp ε β}
    (h : Program.played answer (Fallible.call r >>= f : Fallible Req Resp ε β) chs s =
      some (y, t)) :
    ∃ ch rest x u, answer ch r s = some (x, u) ∧
      Program.played answer (f x) rest u = some (y, t) := by
  cases chs with
  | nil => cases h
  | cons ch rest =>
    obtain ⟨⟨x, u⟩, hx, h⟩ := Option.bind_eq_some_iff.mp h
    exact ⟨ch, rest, x, u, hx, h⟩

theorem played_handle {p : Fallible Req Resp ε α} {f : α → Fallible Req Resp ε β}
    {g : ε → Fallible Req Resp ε β} (h : Program.played answer (handle p f g) chs s = some (y, t)) :
    ∃ x u rest, Program.played answer p chs s = some (x, u) ∧
      ((∃ a, x = .ok a ∧ Program.played answer (f a) rest u = some (y, t)) ∨
        ∃ e, x = .error e ∧ Program.played answer (g e) rest u = some (y, t)) := by
  obtain ⟨x, u, rest, hp, h⟩ := Program.played_bind h
  cases x with
  | ok a => exact ⟨_, u, rest, hp, .inl ⟨a, rfl, h⟩⟩
  | error e => exact ⟨_, u, rest, hp, .inr ⟨e, rfl, h⟩⟩

end

/-- Every exception the program may end in satisfies `E`, whatever its requests are
answered. -/
def Raises (E : ε → Prop) : Fallible Req Resp ε α → Prop
  | .ret (.ok _) => True
  | .ret (.error e) => E e
  | .ask _ rest => ∀ x, Raises E (rest x)

section
variable {E E' : ε → Prop} {p : Fallible Req Resp ε α} {f : α → Fallible Req Resp ε β}

theorem Raises.pure (a : α) : Raises E (Pure.pure a : Fallible Req Resp ε α) := trivial

theorem Raises.raise {e : ε} (h : E e) : Raises E (Fallible.raise e : Fallible Req Resp ε α) := h

theorem Raises.call (r : Req) : Raises E (Fallible.call r : Fallible Req Resp ε (Resp r)) :=
  fun _ => trivial

theorem Raises.handle {h : ε → Fallible Req Resp ε β} (hp : Raises E p)
    (hf : ∀ a, Raises E' (f a)) (hh : ∀ e, E e → Raises E' (h e)) :
    Raises E' (Fallible.handle p f h) := by
  induction p with
  | ret x =>
    cases x with
    | ok a => exact hf a
    | error e => exact hh e hp
  | ask r rest ih => exact fun x => ih x (hp x)

theorem Raises.bind (hp : Raises E p) (hf : ∀ a, Raises E (f a)) : Raises E (p >>= f) :=
  hp.handle hf (fun _ => Raises.raise)

theorem Raises.mono (hp : Raises E p) (h : ∀ e, E e → E' e) : Raises E' p := by
  induction p with
  | ret x =>
    cases x with
    | ok a => trivial
    | error e => exact h e hp
  | ask r rest ih => exact fun x => ih x (hp x)

theorem Raises.ensure {cleanup : Fallible Req Resp ε Unit} (hp : Raises E p)
    (hc : Raises E cleanup) : Raises E (p.ensure cleanup) :=
  hp.handle (fun a => hc.bind fun _ => Raises.pure a) (fun _ he => hc.bind fun _ => Raises.raise he)

theorem Raises.played {χ σ : Type} {answer : χ → (r : Req) → σ → Option (Resp r × σ)}
    {chs : List χ} {s t : σ} {e : ε} (hp : Raises E p)
    (h : Program.played answer p chs s = some (.error e, t)) : E e := by
  induction p generalizing chs s with
  | ret x =>
    obtain ⟨rfl, -⟩ := Prod.mk.inj (Option.some.inj h)
    exact hp
  | ask r rest ih =>
    cases chs with
    | nil => cases h
    | cons ch chs =>
      simp only [Program.played, Option.bind_eq_some_iff] at h
      obtain ⟨⟨x, u⟩, -, h⟩ := h
      exact ih x (hp x) h

end

end Fallible

end Concurrency

import MentorAllocation.Concurrency.Program

namespace Concurrency

namespace Program
variable {Req : Type} {Resp : Req → Type} {α β ε : Type} {P : Req → Prop}

/-- Whatever the answers, a program makes requests of one kind only. -/
def Asking (P : Req → Prop) : Program Req Resp α → Prop
  | .ret _ => True
  | .ask r rest => P r ∧ ∀ x, (rest x).Asking P

theorem Asking.bind {p : Program Req Resp α} {f : α → Program Req Resp β} (hp : p.Asking P)
    (hf : ∀ a, (f a).Asking P) : (p.bind f).Asking P := by
  induction p with
  | ret a => exact hf a
  | ask r rest ih => exact ⟨hp.1, fun x => ih x (hp.2 x)⟩

theorem Asking.mono {Q : Req → Prop} {p : Program Req Resp α} (h : p.Asking P)
    (hPQ : ∀ r, P r → Q r) : p.Asking Q := by
  induction p with
  | ret a => trivial
  | ask r rest ih => exact ⟨hPQ r h.1, fun x => ih x (h.2 x)⟩

end Program

namespace Fallible
variable {Req : Type} {Resp : Req → Type} {α β ε : Type} {P : Req → Prop}

theorem asking_handle {p : Fallible Req Resp ε α} {f : α → Fallible Req Resp ε β}
    {h : ε → Fallible Req Resp ε β} (hp : Program.Asking P p) (hf : ∀ a, Program.Asking P (f a))
    (hh : ∀ e, Program.Asking P (h e)) : Program.Asking P (handle p f h) := by
  apply Program.Asking.bind hp
  intro x
  cases x with
  | ok a => exact hf a
  | error e => exact hh e

theorem asking_bind {p : Fallible Req Resp ε α} {f : α → Fallible Req Resp ε β}
    (hp : Program.Asking P p) (hf : ∀ a, Program.Asking P (f a)) :
    Program.Asking P (p >>= f : Fallible Req Resp ε β) :=
  asking_handle hp hf fun _ => trivial

end Fallible

namespace Config
section
variable {ι σ χ Req α : Type} {Resp : Req → Type} [DecidableEq ι]
  {answer : χ → ι → (r : Req) → σ → Option (Resp r × σ)} {P : Req → Prop}
  {start c : Config ι σ Req Resp α} {trace : List (Config ι σ Req Resp α × (ι × χ))}

theorem run_asking (h : Run (Step answer) start trace c) (hasks : ∀ i, (start.threads i).Asking P) :
    Throughout (fun c => ∀ i, (c.threads i).Asking P) trace c := by
  refine h.invariant (C := fun _ _ => True) hasks ?_ (fun _ _ => trivial)
  intro c l d hc _ hstep
  obtain ⟨r, rest, x, s, hthread, -, rfl⟩ := step_cases hstep
  have hrest := hc l.1
  rw [hthread] at hrest
  intro i
  by_cases hi : i = l.1
  · subst hi
    simpa using hrest.2 x
  · simpa [hi] using hc i

end

variable {ι σ χ Req α : Type} {Resp : Req → Type} [DecidableEq ι]
  {answer : χ → ι → (r : Req) → σ → Option (Resp r × σ)} {P : Req → Prop} {I : σ → Prop}
  {start c : Config ι σ Req Resp α} {trace : List (Config ι σ Req Resp α × (ι × χ))}

/-- What the answers to one kind of request keep is kept while no other kind is made. -/
theorem run_keeps (h : Run (Step answer) start trace c) (hstart : I start.store)
    (hasks : ∀ i, (start.threads i).Asking P)
    (kept : ∀ ch i r s x t, P r → I s → answer ch i r s = some (x, t) → I t) :
    Throughout (fun c => I c.store) trace c := by
  have hthreads := run_asking h hasks
  have hall := h.invariant (I := fun c => I c.store)
    (C := fun c l => (c.threads l.1).Asking P) hstart (by
      intro c l d hc hl hstep
      obtain ⟨r, rest, x, s, hthread, hanswer, rfl⟩ := step_cases hstep
      rw [hthread] at hl
      exact kept l.2 l.1 r c.store x s hl.1 hc hanswer) (fun p hp => hthreads.1 p hp p.2.1)
  exact hall

end Config

end Concurrency

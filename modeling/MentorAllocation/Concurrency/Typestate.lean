import MentorAllocation.Concurrency.Requests

namespace Concurrency

/-- A state that a program carries along: what it may ask in each state, how the answers
change the state, and which answers there can be. -/
structure Typestate (τ Req : Type) (Resp : Req → Type) where
  permits : τ → Req → Prop
  after : τ → (r : Req) → Resp r → τ
  possible : (r : Req) → Resp r → Prop := fun _ _ => True

namespace Typestate
variable {τ Req α β ε : Type} {Resp : Req → Type} {T : Typestate τ Req Resp} {t : τ}
  {P : Req → Prop}

/-- The program asks only what it may, and its outcome satisfies `post`. -/
def Follows (T : Typestate τ Req Resp) (post : α → τ → Prop) : Program Req Resp α → τ → Prop
  | .ret a, t => post a t
  | .ask r rest, t => T.permits t r ∧
      ∀ x, T.possible r x → T.Follows post (rest x) (T.after t r x)

theorem Follows.mono {post post' : α → τ → Prop} {p : Program Req Resp α}
    (h : T.Follows post p t) (hpost : ∀ a t, post a t → post' a t) : T.Follows post' p t := by
  induction p generalizing t with
  | ret a => exact hpost a t h
  | ask r rest ih => exact ⟨h.1, fun x hx => ih x (h.2 x hx)⟩

theorem Follows.bind {post : β → τ → Prop} {mid : α → τ → Prop} {p : Program Req Resp α}
    {f : α → Program Req Resp β} (h : T.Follows mid p t)
    (hf : ∀ a t, mid a t → T.Follows post (f a) t) : T.Follows post (p.bind f) t := by
  induction p generalizing t with
  | ret a => exact hf a t h
  | ask r rest ih => exact ⟨h.1, fun x hx => ih x (h.2 x hx)⟩

/-- Requests that are always permitted and change nothing. -/
theorem follows_of_asking {p : Program Req Resp α} (h : p.Asking P)
    (hP : ∀ r, P r → T.permits t r ∧ ∀ x, T.after t r x = t) :
    T.Follows (fun _ t' => t' = t) p t := by
  induction p with
  | ret a => rfl
  | ask r rest ih =>
    obtain ⟨hpermits, hafter⟩ := hP r h.1
    refine ⟨hpermits, fun x _ => ?_⟩
    rw [hafter x]
    exact ih x (h.2 x)

/-- Follows, and what it returns satisfies `ok` while an exception leaves `err`. -/
def Ends (T : Typestate τ Req Resp) (ok : α → τ → Prop) (err : ε → τ → Prop)
    (p : Fallible Req Resp ε α) (t : τ) : Prop :=
  T.Follows (fun x t => (∀ a, x = .ok a → ok a t) ∧ ∀ e, x = .error e → err e t) p t

section
variable {ok : α → τ → Prop} {next : β → τ → Prop} {err err' : ε → τ → Prop}
  {p : Fallible Req Resp ε α} {f : α → Fallible Req Resp ε β}

theorem Ends.pure {a : α} (h : ok a t) :
    T.Ends ok err (Pure.pure a : Fallible Req Resp ε α) t := by
  refine ⟨fun b hb => ?_, fun e he => ?_⟩
  · cases hb
    exact h
  · cases he

theorem Ends.raise {e : ε} (h : err e t) :
    T.Ends ok err (Fallible.raise e : Fallible Req Resp ε α) t := by
  refine ⟨fun a ha => ?_, fun e' he => ?_⟩
  · cases ha
  · cases he
    exact h

theorem Ends.handle {h : ε → Fallible Req Resp ε β} (hp : T.Ends ok err p t)
    (hok : ∀ a t, ok a t → T.Ends next err' (f a) t)
    (herr : ∀ e t, err e t → T.Ends next err' (h e) t) :
    T.Ends next err' (Fallible.handle p f h) t := by
  apply Follows.bind hp
  intro x t hx
  cases x with
  | ok a => exact hok a t (hx.1 a rfl)
  | error e => exact herr e t (hx.2 e rfl)

theorem Ends.bind (hp : T.Ends ok err p t) (hok : ∀ a t, ok a t → T.Ends next err (f a) t) :
    T.Ends next err (p >>= f) t :=
  hp.handle hok (fun _ _ => Ends.raise)

end

variable {ι σ χ : Type} [DecidableEq ι] {answer : χ → ι → (r : Req) → σ → Option (Resp r × σ)}
  {J : (ι → τ) → σ → Prop} {start c d : Config ι σ Req Resp α} {l : ι × χ}
  {trace : List (Config ι σ Req Resp α × (ι × χ))} {ts : ι → τ} {post : α → τ → Prop}

/-- One step of threads that follow the typestate. -/
theorem step_follows (hstep : Config.Step answer c l d)
    (follows : ∀ i, T.Follows post (c.threads i) (ts i))
    (kept : ∀ r x s, c.Asks l.1 r → T.permits (ts l.1) r → answer l.2 l.1 r c.store = some (x, s) →
      T.possible r x ∧ J (Function.update ts l.1 (T.after (ts l.1) r x)) s) :
    ∃ r x s, c.Asks l.1 r ∧ T.permits (ts l.1) r ∧ answer l.2 l.1 r c.store = some (x, s) ∧
      J (Function.update ts l.1 (T.after (ts l.1) r x)) d.store ∧
      ∀ i, T.Follows post (d.threads i) (Function.update ts l.1 (T.after (ts l.1) r x) i) := by
  obtain ⟨r, rest, x, s, hthread, hanswer, rfl⟩ := Config.step_cases hstep
  have hi := follows l.1
  rw [hthread] at hi
  have hasks : c.Asks l.1 r := (Config.asks_iff hthread).mpr rfl
  obtain ⟨hpossible, hnext⟩ := kept r x s hasks hi.1 hanswer
  refine ⟨r, x, s, hasks, hi.1, hanswer, hnext, fun j => ?_⟩
  by_cases hj : j = l.1
  · subst hj
    simpa using hi.2 x hpossible
  · simpa [hj] using follows j

/-- Where each thread follows the typestate and each permitted request keeps what relates
the threads' states to the store, that relation holds all along a run. -/
theorem run_follows (h : Run (Config.Step answer) start trace c) (base : J ts start.store)
    (follows : ∀ i, T.Follows (fun _ _ => True) (start.threads i) (ts i))
    (kept : ∀ ts ch i r s x s', J ts s → T.permits (ts i) r → answer ch i r s = some (x, s') →
      T.possible r x ∧ J (Function.update ts i (T.after (ts i) r x)) s') :
    Throughout (fun c => ∃ ts, J ts c.store) trace c := by
  have hall := h.invariant
    (I := fun c => ∃ ts, J ts c.store ∧ ∀ i, T.Follows (fun _ _ => True) (c.threads i) (ts i))
    (C := fun _ _ => True) ⟨ts, base, follows⟩ (by
      rintro c l d ⟨ts, hJ, hfollows⟩ - hstep
      obtain ⟨r, x, s, -, -, -, hnext, hfollows⟩ := step_follows (J := J) hstep hfollows
        fun r x s _ hpermits hanswer => kept ts l.2 l.1 r c.store x s hJ hpermits hanswer
      exact ⟨_, hnext, hfollows⟩) (fun _ _ => trivial)
  exact hall.imp fun c ⟨ts, hJ, _⟩ => ⟨ts, hJ⟩

end Typestate

end Concurrency

import MentorAllocation.Concurrency.Program

namespace Concurrency

/-- A rely-guarantee protocol for programs that share a store: an invariant of the
store, what each thread may rely on while others run, what its own steps guarantee, and
the steps a run may take. -/
structure Protocol (χ ι σ Req : Type) (Resp : Req → Type) where
  answer : χ → ι → (r : Req) → σ → Option (Resp r × σ)
  inv : σ → Prop
  rely : ι → σ → σ → Prop
  guar : ι → σ → σ → Prop := fun i s t => ∀ j, j ≠ i → rely j s t
  allowed : χ → ι → Req → σ → Prop
  guar_rely : ∀ i j s t, j ≠ i → guar i s t → rely j s t := by exact fun _ _ _ _ hj h => h _ hj
  rely_refl : ∀ i s, rely i s s
  rely_trans : ∀ i s t u, rely i s t → rely i t u → rely i s u

/-- The protocol of programs that have the store to themselves. -/
def Protocol.sequential {χ σ Req : Type} {Resp : Req → Type}
    (answer : χ → (r : Req) → σ → Option (Resp r × σ)) (inv : σ → Prop) :
    Protocol χ Unit σ Req Resp where
  answer := fun ch _ => answer ch
  inv
  rely := fun _ s t => s = t
  guar := fun _ _ _ => True
  allowed := fun _ _ _ _ => True
  guar_rely := fun _ _ _ _ hj _ => absurd rfl hj
  rely_refl := fun _ _ => rfl
  rely_trans := fun _ _ _ _ => Eq.trans

namespace Protocol
variable {ι σ χ Req α β ε : Type} {Resp : Req → Type} {P : Protocol χ ι σ Req Resp} {i : ι}

/-- Whatever the others do in between, every step of the program keeps the invariant
and its guarantee, and its outcome satisfies `post`. -/
def Safe (P : Protocol χ ι σ Req Resp) (i : ι) (post : α → σ → Prop) :
    Program Req Resp α → σ → Prop
  | .ret a, s => post a s
  | .ask r rest, s => ∀ s₁, P.rely i s s₁ → P.inv s₁ →
      ∀ ch x s₂, P.allowed ch i r s₁ → P.answer ch i r s₁ = some (x, s₂) →
        P.inv s₂ ∧ P.guar i s₁ s₂ ∧ P.Safe i post (rest x) s₂

theorem Safe.mono {post post' : α → σ → Prop} {p : Program Req Resp α} {s : σ}
    (h : P.Safe i post p s) (hpost : ∀ a s, post a s → post' a s) : P.Safe i post' p s := by
  induction p generalizing s with
  | ret a => exact hpost a s h
  | ask r rest ih =>
    intro s₁ hr hi ch x s₂ ha hx
    obtain ⟨hinv, hothers, hrest⟩ := h s₁ hr hi ch x s₂ ha hx
    exact ⟨hinv, hothers, ih x hrest⟩

/-- Sequencing: the first program's outcome must leave the second one safe. -/
theorem safe_bind {post : β → σ → Prop} (p : Program Req Resp α)
    (f : α → Program Req Resp β) (s : σ) :
    P.Safe i post (p.bind f) s ↔ P.Safe i (fun a s => P.Safe i post (f a) s) p s := by
  induction p generalizing s with
  | ret a => exact Iff.rfl
  | ask r rest ih =>
    simp only [Program.ask_bind, Safe]
    constructor
    · intro h s₁ hr hi ch x s₂ ha hx
      obtain ⟨hinv, hothers, hrest⟩ := h s₁ hr hi ch x s₂ ha hx
      exact ⟨hinv, hothers, (ih x s₂).mp hrest⟩
    · intro h s₁ hr hi ch x s₂ ha hx
      obtain ⟨hinv, hothers, hrest⟩ := h s₁ hr hi ch x s₂ ha hx
      exact ⟨hinv, hothers, (ih x s₂).mpr hrest⟩

/-- Safe, and what it returns satisfies `post`; an exception promises nothing. -/
def Returns (P : Protocol χ ι σ Req Resp) (i : ι) (post : α → σ → Prop)
    (p : Fallible Req Resp ε α) (s : σ) : Prop :=
  P.Safe i (fun x s => ∀ a, x = .ok a → post a s) p s

theorem Returns.safe {post : α → σ → Prop} {post' : Except ε α → σ → Prop}
    {p : Fallible Req Resp ε α} {s : σ} (h : P.Returns i post p s)
    (hpost : ∀ x s, (∀ a, x = .ok a → post a s) → post' x s) : P.Safe i post' p s :=
  Safe.mono h hpost

theorem Returns.ok {post : α → σ → Prop} {a : α} {s : σ} (h : post a s) :
    P.Returns i post (pure a : Fallible Req Resp ε α) s := by
  intro b hb
  cases hb
  exact h

theorem Returns.raise {post : α → σ → Prop} {e : ε} {s : σ} :
    P.Returns i post (Fallible.raise e : Fallible Req Resp ε α) s := by
  intro a ha
  cases ha

theorem Returns.handle {post : β → σ → Prop} {M : α → σ → Prop}
    {p : Fallible Req Resp ε α} {f : α → Fallible Req Resp ε β}
    {h : ε → Fallible Req Resp ε β} {s : σ} (hp : P.Returns i M p s)
    (hok : ∀ a s, M a s → P.Returns i post (f a) s)
    (herr : ∀ e s, P.Returns i post (h e) s) :
    P.Returns i post (Fallible.handle p f h) s := by
  apply (safe_bind p _ s).mpr
  apply Safe.mono hp
  intro x s hx
  cases x with
  | ok a => exact hok a s (hx a rfl)
  | error e => exact herr e s

theorem Returns.bind {post : β → σ → Prop} {M : α → σ → Prop}
    {p : Fallible Req Resp ε α} {f : α → Fallible Req Resp ε β} {s : σ}
    (hp : P.Returns i M p s) (hok : ∀ a s, M a s → P.Returns i post (f a) s) :
    P.Returns i post (p >>= f) s :=
  hp.handle hok (fun _ _ => .raise)

/-- A thread at rest stays safe while the others run. -/
theorem Safe.stable {post : α → σ → Prop} {p : Program Req Resp α} {s t : σ}
    (h : P.Safe i post p s) (hr : P.rely i s t)
    (hpost : ∀ a, post a s → post a t) : P.Safe i post p t := by
  cases p with
  | ret a => exact hpost a h
  | ask r rest =>
    intro s₁ hr₁ hi ch x s₂ ha hx
    exact h s₁ (P.rely_trans i s t s₁ hr hr₁) hi ch x s₂ ha hx

/-- A safe program that is left alone. -/
theorem Safe.played {post : α → σ → Prop} {p : Program Req Resp α} {s t : σ} {a : α}
    {chs : List χ} (h : P.Safe i post p s) (hinv : P.inv s)
    (hall : ∀ ch r s, P.allowed ch i r s)
    (hp : p.played (fun ch => P.answer ch i) chs s = some (a, t)) : P.inv t ∧ post a t := by
  induction p generalizing chs s with
  | ret b =>
    obtain ⟨rfl, rfl⟩ := Prod.mk.inj (Option.some.inj hp)
    exact ⟨hinv, h⟩
  | ask r rest ih =>
    cases chs with
    | nil => cases hp
    | cons ch chs =>
      simp only [Program.played, Option.bind_eq_some_iff] at hp
      obtain ⟨⟨x, u⟩, hx, hp⟩ := hp
      obtain ⟨hu, -, hrest⟩ := h s (P.rely_refl i s) hinv ch x u (hall ch r s) hx
      exact ih x hrest hu hp

/-- The protocol allows the step a thread is about to take. -/
def Permitted (P : Protocol χ ι σ Req Resp) (c : Config ι σ Req Resp α) (l : ι × χ) : Prop :=
  ∀ r rest, c.threads l.1 = .ask r rest → P.allowed l.2 l.1 r c.store

/-- The store keeps its invariant and what is left of each thread is safe. -/
def Secure (P : Protocol χ ι σ Req Resp) (post : ι → α → σ → Prop)
    (c : Config ι σ Req Resp α) : Prop :=
  P.inv c.store ∧ ∀ i, P.Safe i (post i) (c.threads i) c.store

variable [DecidableEq ι] {start c c' : Config ι σ Req Resp α}
  {trace : List (Config ι σ Req Resp α × (ι × χ))} {post : ι → α → σ → Prop}

theorem Secure.step {l : ι × χ} (h : P.Secure post c)
    (stable : ∀ i a s t, P.rely i s t → post i a s → post i a t)
    (hp : P.Permitted c l) (hs : c.Step P.answer l c') :
    P.Secure post c' ∧ P.guar l.1 c.store c'.store := by
  obtain ⟨hinv, hsafe⟩ := h
  obtain ⟨r, rest, x, s, ht, ha, rfl⟩ := Config.step_cases hs
  have hi := hsafe l.1
  rw [ht] at hi
  obtain ⟨hinv', hguar, hrest⟩ :=
    hi c.store (P.rely_refl l.1 _) hinv l.2 x s (hp r rest ht) ha
  refine ⟨⟨hinv', fun j => ?_⟩, hguar⟩
  by_cases hj : j = l.1
  · subst hj
    simpa using hrest
  · have hrely := P.guar_rely l.1 j _ _ hj hguar
    simpa [hj] using (hsafe j).stable hrely (fun a => stable j a _ _ hrely)

/-- Programs that are each safe stay safe under any interleaving. -/
theorem run_secure (h : Run (Config.Step P.answer) start trace c) (base : P.Secure post start)
    (stable : ∀ i a s t, P.rely i s t → post i a s → post i a t)
    (permits : EachStep P.Permitted trace) : Throughout (P.Secure post) trace c :=
  h.invariant base (fun _ _ _ hc hp hs => (hc.step stable hp hs).1) permits

/-- What every step guarantees holds between any two stores of a run. -/
theorem run_guarantees {R : σ → σ → Prop} (h : Run (Config.Step P.answer) start trace c)
    (base : P.Secure post start) (stable : ∀ i a s t, P.rely i s t → post i a s → post i a t)
    (permits : EachStep P.Permitted trace) (guarantee : ∀ i s t, P.guar i s t → R s t)
    (trans : ∀ s t u, R s t → R t u → R s u) :
    (trace.map Prod.fst ++ [c]).Pairwise (fun a b => R a.store b.store) :=
  h.pairwise base (fun _ _ _ hc hp hs => (hc.step stable hp hs).1)
    (fun _ l _ hc hp hs => guarantee l.1 _ _ (hc.step stable hp hs).2)
    (fun _ _ _ => trans _ _ _) permits

omit [DecidableEq ι] in
/-- What the outcome of a finished thread satisfies. -/
theorem Secure.outcome {i : ι} {a : α} (h : P.Secure post c) (hi : c.threads i = .ret a) :
    post i a c.store := by
  have := h.2 i
  rwa [hi] at this

end Protocol

end Concurrency

import Mathlib.Logic.Basic

namespace Effects
variable {ε σ α β : Type}

/-- Code over a state that may raise, with what it had changed by then. -/
abbrev Effect (ε σ : Type) := ExceptT ε (StateM σ)

def exec (m : Effect ε σ α) (s : σ) : Except ε α × σ := m.run.run s

@[simp] theorem exec_pure (a : α) (s : σ) : exec (pure a : Effect ε σ α) s = (.ok a, s) := rfl

@[simp] theorem exec_throw (e : ε) (s : σ) : exec (throw e : Effect ε σ α) s = (.error e, s) := rfl

@[simp] theorem exec_get (s : σ) : exec (get : Effect ε σ σ) s = (.ok s, s) := rfl

@[simp] theorem exec_set (t s : σ) : exec (set t : Effect ε σ PUnit) s = (.ok ⟨⟩, t) := rfl

@[simp] theorem exec_modify (f : σ → σ) (s : σ) :
    exec (modify f : Effect ε σ PUnit) s = (.ok ⟨⟩, f s) := rfl

theorem exec_bind_ok {m : Effect ε σ α} {f : α → Effect ε σ β} {s t : σ} {a : α}
    (h : exec m s = (.ok a, t)) : exec (m >>= f) s = exec (f a) t := by
  have h : m.run.run s = pure (_, t) := h
  rw [exec, ExceptT.run_bind, StateT.run_bind, h]
  rfl

theorem exec_bind_error {m : Effect ε σ α} {f : α → Effect ε σ β} {s t : σ} {e : ε}
    (h : exec m s = (.error e, t)) : exec (m >>= f) s = (.error e, t) := by
  have h : m.run.run s = pure (_, t) := h
  rw [exec, ExceptT.run_bind, StateT.run_bind, h]
  rfl

theorem exec_tryCatch_ok {m : Effect ε σ α} {f : ε → Effect ε σ α} {s t : σ} {a : α}
    (h : exec m s = (.ok a, t)) : exec (tryCatch m f) s = (.ok a, t) := by
  have h : m.run.run s = pure (_, t) := h
  rw [exec, ExceptT.run_tryCatch, StateT.run_bind, h]
  rfl

theorem exec_tryCatch_error {m : Effect ε σ α} {f : ε → Effect ε σ α} {s t : σ} {e : ε}
    (h : exec m s = (.error e, t)) : exec (tryCatch m f) s = exec (f e) t := by
  have h : m.run.run s = pure (_, t) := h
  rw [exec, ExceptT.run_tryCatch, StateT.run_bind, h]
  rfl

/-- From a state with `P`, a value comes with `Q` and an error with `R`. -/
structure Meets (P : σ → Prop) (m : Effect ε σ α) (Q : α → σ → Prop) (R : σ → Prop) : Prop where
  ok : ∀ {s a t}, P s → exec m s = (.ok a, t) → Q a t
  error : ∀ {s e t}, P s → exec m s = (.error e, t) → R t

def Keeps (P : σ → Prop) (m : Effect ε σ α) : Prop := Meets P m (fun _ => P) P

variable {P P' R R' : σ → Prop} {Q Q' : α → σ → Prop} {S : β → σ → Prop} {m : Effect ε σ α}

theorem Keeps.exec (h : Keeps P m) {s : σ} (hs : P s) : P (exec m s).2 := by
  rcases hm : Effects.exec m s with ⟨e | a, t⟩
  · exact h.error hs hm
  · exact h.ok hs hm

namespace Meets

theorem pure {a : α} (h : ∀ s, P s → Q a s) : Meets P (Pure.pure a : Effect ε σ α) Q R where
  ok hs hm := by
    cases hm
    exact h _ hs
  error _ hm := by cases hm

theorem throw {e : ε} (h : ∀ s, P s → R s) : Meets P (MonadExcept.throw e : Effect ε σ α) Q R where
  ok _ hm := by cases hm
  error hs hm := by
    cases hm
    exact h _ hs

/-- The state is read, and what follows runs with it. -/
theorem get {f : σ → Effect ε σ β} (h : ∀ s, P s → Meets (· = s) (f s) S R) :
    Meets P (MonadState.get >>= f) S R where
  ok {s _ _} hs hm := (h s hs).ok rfl (by rwa [exec_bind_ok (exec_get s)] at hm)
  error {s _ _} hs hm := (h s hs).error rfl (by rwa [exec_bind_ok (exec_get s)] at hm)

theorem set {t : σ} {U : PUnit → σ → Prop} (h : U ⟨⟩ t) :
    Meets P (MonadStateOf.set t : Effect ε σ PUnit) U R where
  ok _ hm := by
    cases hm
    exact h
  error _ hm := by cases hm

theorem modify {f : σ → σ} {U : PUnit → σ → Prop} (h : ∀ s, P s → U ⟨⟩ (f s)) :
    Meets P (MonadStateOf.modifyGet fun s => (⟨⟩, f s) : Effect ε σ PUnit) U R where
  ok hs hm := by
    cases hm
    exact h _ hs
  error _ hm := by cases hm

theorem bind {f : α → Effect ε σ β} (h : Meets P m Q R) (hf : ∀ a, Meets (Q a) (f a) S R) :
    Meets P (m >>= f) S R where
  ok {s b u} hs hm := by
    rcases hfirst : exec m s with ⟨e | a, t⟩
    · rw [exec_bind_error hfirst] at hm
      cases hm
    · rw [exec_bind_ok hfirst] at hm
      exact (hf a).ok (h.ok hs hfirst) hm
  error {s e u} hs hm := by
    rcases hfirst : exec m s with ⟨e' | a, t⟩
    · rw [exec_bind_error hfirst] at hm
      cases hm
      exact h.error hs hfirst
    · rw [exec_bind_ok hfirst] at hm
      exact (hf a).error (h.ok hs hfirst) hm

theorem tryCatch {f : ε → Effect ε σ α} (h : Meets P m Q R') (hf : ∀ e, Meets R' (f e) Q R) :
    Meets P (MonadExcept.tryCatch m f) Q R where
  ok {s b u} hs hm := by
    rcases hfirst : exec m s with ⟨e | a, t⟩
    · rw [exec_tryCatch_error hfirst] at hm
      exact (hf e).ok (h.error hs hfirst) hm
    · rw [exec_tryCatch_ok hfirst] at hm
      cases hm
      exact h.ok hs hfirst
  error {s e u} hs hm := by
    rcases hfirst : exec m s with ⟨e' | a, t⟩
    · rw [exec_tryCatch_error hfirst] at hm
      exact (hf e').error (h.error hs hfirst) hm
    · rw [exec_tryCatch_ok hfirst] at hm
      cases hm

theorem exfalso : Meets (fun _ => False) m Q R where
  ok hs := hs.elim
  error hs := hs.elim

/-- What raises is not followed by anything. -/
theorem throw_bind {e : ε} {f : α → Effect ε σ β} (h : ∀ s, P s → R s) :
    Meets P ((MonadExcept.throw e : Effect ε σ α) >>= f) S R :=
  (Meets.throw h).bind fun _ => exfalso

/-- What is known without the state. -/
theorem of_and {p : Prop} (h : p → Meets P m Q R) : Meets (fun s => P s ∧ p) m Q R where
  ok hs := (h hs.2).ok hs.1
  error hs := (h hs.2).error hs.1

theorem mono (h : Meets P m Q R) (hP : ∀ s, P' s → P s) (hQ : ∀ a s, Q a s → Q' a s)
    (hR : ∀ s, R s → R' s) : Meets P' m Q' R' where
  ok hs hm := hQ _ _ (h.ok (hP _ hs) hm)
  error hs hm := hR _ (h.error (hP _ hs) hm)

theorem fst (h : Meets P m (fun a s => Q a s ∧ Q' a s) R) : Meets P m Q R :=
  h.mono (fun _ h => h) (fun _ _ h => h.1) fun _ h => h

theorem weaken (h : Meets P m Q R) (hR : ∀ s, R s → R' s) : Meets P m Q R' :=
  h.mono (fun _ h => h) (fun _ _ h => h) hR

theorem here {s : σ} (h : Meets P m Q R) (hs : P s) : Meets (· = s) m Q R :=
  h.mono (fun _ ht => ht ▸ hs) (fun _ _ h => h) fun _ h => h

theorem and (h : Meets P m Q R) (h' : Meets P' m Q' R') :
    Meets (fun s => P s ∧ P' s) m (fun a s => Q a s ∧ Q' a s) fun s => R s ∧ R' s where
  ok hs hm := ⟨h.ok hs.1 hm, h'.ok hs.2 hm⟩
  error hs hm := ⟨h.error hs.1 hm, h'.error hs.2 hm⟩

end Meets

/-- From a state with `P` the code returns, with `Q`. -/
def Returns (P : σ → Prop) (m : Effect ε σ α) (Q : α → σ → Prop) : Prop :=
  Meets P m Q fun _ => False

namespace Returns

theorem of_exec (h : ∀ s, P s → ∃ a t, exec m s = (.ok a, t) ∧ Q a t) : Returns P m Q where
  ok {s _ _} hs hm := by
    obtain ⟨a, t, hexec, hq⟩ := h s hs
    cases hexec.symm.trans hm
    exact hq
  error {s _ _} hs hm := by
    obtain ⟨a, t, hexec, -⟩ := h s hs
    cases hexec.symm.trans hm

theorem exec (h : Returns P m Q) {s : σ} (hs : P s) :
    ∃ a t, Effects.exec m s = (.ok a, t) ∧ Q a t := by
  rcases hm : Effects.exec m s with ⟨e | a, t⟩
  · exact (h.error hs hm).elim
  · exact ⟨a, t, rfl, h.ok hs hm⟩

/-- What is known besides of the values of code that returns. -/
theorem and (h : Returns P m Q) (h' : Meets P' m Q' R') :
    Returns (fun s => P s ∧ P' s) m fun a s => Q a s ∧ Q' a s :=
  (Meets.and h h').mono (fun _ h => h) (fun _ _ h => h) fun _ h => h.1

theorem tryCatch (h : Returns P m Q) (f : ε → Effect ε σ α) :
    Returns P (MonadExcept.tryCatch m f) Q :=
  Meets.tryCatch h fun _ => .exfalso

end Returns

/-- The same code again after an error, up to a number of times. -/
def retrying : Nat → Effect ε σ α → Effect ε σ α
  | 0, m => m
  | n + 1, m => tryCatch m fun _ => retrying n m

/-- Where an error leaves what the code begins with, it may be tried again. -/
theorem Meets.retrying (h : Meets P m Q P) (n : Nat) : Meets P (retrying n m) Q P := by
  induction n with
  | zero => exact h
  | succ n ih => exact h.tryCatch fun _ => ih

theorem Returns.retrying (h : Returns P m Q) (n : Nat) : Returns P (retrying n m) Q := by
  cases n with
  | zero => exact h
  | succ n => exact h.tryCatch _

theorem exec_retrying_ok {s t : σ} {a : α} (h : exec m s = (.ok a, t)) (n : Nat) :
    exec (retrying n m) s = (.ok a, t) := by
  cases n with
  | zero => exact h
  | succ n => exact exec_tryCatch_ok h

end Effects

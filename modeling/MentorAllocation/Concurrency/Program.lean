import Mathlib.Logic.Function.Basic
import MentorAllocation.Concurrency.Run

namespace Concurrency

/-- A program as the tree of the requests it makes of its surroundings; the
answer to a request selects the rest of the program. -/
inductive Program (Req : Type) (Resp : Req → Type) (α : Type) : Type where
  | ret (a : α) : Program Req Resp α
  | ask (r : Req) (rest : Resp r → Program Req Resp α) : Program Req Resp α

namespace Program
variable {Req : Type} {Resp : Req → Type} {α β γ ε : Type}

def bind (p : Program Req Resp α) (f : α → Program Req Resp β) : Program Req Resp β :=
  match p with
  | .ret a => f a
  | .ask r rest => .ask r (fun x => (rest x).bind f)

@[simp] theorem ret_bind (a : α) (f : α → Program Req Resp β) : (ret a).bind f = f a := rfl

@[simp] theorem ask_bind (r : Req) (rest : Resp r → Program Req Resp α)
    (f : α → Program Req Resp β) :
    (ask r rest).bind f = ask r (fun x => (rest x).bind f) := rfl

def result? : Program Req Resp α → Option α
  | .ret a => some a
  | .ask _ _ => none

theorem result?_eq_some {p : Program Req Resp α} {a : α} : p.result? = some a ↔ p = .ret a := by
  cases p <;> simp [result?]

def asked? : Program Req Resp α → Option Req
  | .ret _ => none
  | .ask r _ => some r

/-- A program alone with its surroundings. `answer` may decline a request, which
leaves the program blocked. -/
def alone {σ : Type} (answer : (r : Req) → σ → Option (Resp r × σ)) :
    Program Req Resp α → σ → Option (α × σ)
  | .ret a, s => some (a, s)
  | .ask r rest, s => (answer r s).bind (fun xs => alone answer (rest xs.1) xs.2)

theorem alone_bind {σ : Type} (answer : (r : Req) → σ → Option (Resp r × σ))
    (p : Program Req Resp α) (f : α → Program Req Resp β) (s : σ) :
    alone answer (p.bind f) s = (alone answer p s).bind (fun as => alone answer (f as.1) as.2) := by
  induction p generalizing s with
  | ret a => rfl
  | ask r rest ih =>
    simp only [ask_bind, alone]
    cases answer r s with
    | none => rfl
    | some xs => exact ih xs.1 xs.2

/-- A program alone, where what its surroundings are free to decide is given, once for
each request. -/
def played {χ σ : Type} (answer : χ → (r : Req) → σ → Option (Resp r × σ)) :
    Program Req Resp α → List χ → σ → Option (α × σ)
  | .ret a, _, s => some (a, s)
  | .ask _ _, [], _ => none
  | .ask r rest, ch :: chs, s => (answer ch r s).bind fun xs => played answer (rest xs.1) chs xs.2

theorem played_ask {χ σ : Type} {answer : χ → (r : Req) → σ → Option (Resp r × σ)} {ch : χ}
    {chs : List χ} {r : Req} {rest : Resp r → Program Req Resp α} {x : Resp r} {s t : σ}
    (h : answer ch r s = some (x, t)) :
    played answer (.ask r rest) (ch :: chs) s = played answer (rest x) chs t := by
  simp [played, h]

/-- Alone under one choice throughout. -/
theorem played_of_alone {χ σ : Type} {answer : χ → (r : Req) → σ → Option (Resp r × σ)} (ch : χ)
    {p : Program Req Resp α} {s t : σ} {a : α} (h : alone (answer ch) p s = some (a, t)) :
    ∃ chs, played answer p chs s = some (a, t) := by
  induction p generalizing s with
  | ret b => exact ⟨[], h⟩
  | ask r rest ih =>
    simp only [alone, Option.bind_eq_some_iff] at h
    obtain ⟨⟨x, u⟩, hx, h⟩ := h
    obtain ⟨chs, hplayed⟩ := ih x h
    exact ⟨ch :: chs, (played_ask hx).trans hplayed⟩

theorem played_bind {χ σ : Type} {answer : χ → (r : Req) → σ → Option (Resp r × σ)}
    {p : Program Req Resp α} {f : α → Program Req Resp β} {chs : List χ} {s t : σ} {b : β}
    (h : played answer (p.bind f) chs s = some (b, t)) :
    ∃ a u rest, played answer p chs s = some (a, u) ∧ played answer (f a) rest u = some (b, t) := by
  induction p generalizing chs s with
  | ret a => exact ⟨a, s, chs, rfl, h⟩
  | ask r rest ih =>
    cases chs with
    | nil => cases h
    | cons ch chs =>
      simp only [ask_bind, played, Option.bind_eq_some_iff] at h ⊢
      obtain ⟨xs, hx, h⟩ := h
      obtain ⟨a, u, left, hp, hf⟩ := ih xs.1 h
      exact ⟨a, u, left, ⟨xs, hx, hp⟩, hf⟩

/-- What every answer keeps, a program keeps. -/
theorem played_keeps {χ σ : Type} {answer : χ → (r : Req) → σ → Option (Resp r × σ)} {I : σ → Prop}
    (kept : ∀ ch r s x t, answer ch r s = some (x, t) → I s → I t) {p : Program Req Resp α}
    {chs : List χ} {s t : σ} {a : α} (h : played answer p chs s = some (a, t)) (hs : I s) :
    I t := by
  induction p generalizing chs s with
  | ret b =>
    obtain ⟨-, rfl⟩ := Prod.mk.inj (Option.some.inj h)
    exact hs
  | ask r rest ih =>
    cases chs with
    | nil => cases h
    | cons ch chs =>
      simp only [played, Option.bind_eq_some_iff] at h
      obtain ⟨⟨x, u⟩, hx, h⟩ := h
      exact ih x h (kept ch r s x u hx hs)

/-- The states a program alone passes through, from the one it starts in to the one it
ends in. -/
def passed {σ : Type} (answer : (r : Req) → σ → Option (Resp r × σ)) :
    Program Req Resp α → σ → List σ
  | .ret _, s => [s]
  | .ask r rest, s => s :: match answer r s with
    | none => []
    | some xs => passed answer (rest xs.1) xs.2

section
variable {σ : Type} {answer : (r : Req) → σ → Option (Resp r × σ)} {p : Program Req Resp α}
  {f : α → Program Req Resp β} {s t u : σ} {a : α}

theorem start_mem_passed : s ∈ p.passed answer s := by
  cases p <;> simp [passed]

/-- Where a program ends is one of the states it passes. -/
theorem end_mem_passed (h : p.alone answer s = some (a, t)) : t ∈ p.passed answer s := by
  induction p generalizing s with
  | ret b =>
    simp only [alone, Option.some.injEq, Prod.mk.injEq] at h
    simp [passed, h.2]
  | ask r rest ih =>
    simp only [alone, Option.bind_eq_some_iff] at h
    obtain ⟨xs, hx, h⟩ := h
    simp only [passed, hx, List.mem_cons]
    exact .inr (ih xs.1 h)

theorem mem_passed_bind_left (h : u ∈ p.passed answer s) : u ∈ (p.bind f).passed answer s := by
  induction p generalizing s with
  | ret a =>
    simp only [passed, List.mem_singleton] at h
    rw [h]
    exact start_mem_passed
  | ask r rest ih =>
    simp only [passed, List.mem_cons] at h
    rcases h with rfl | h
    · exact start_mem_passed
    · simp only [ask_bind, passed, List.mem_cons]
      cases hx : answer r s with
      | none => simp [hx] at h
      | some xs =>
        rw [hx] at h
        exact .inr (ih xs.1 h)

theorem mem_passed_bind_right (h : p.alone answer s = some (a, t))
    (hu : u ∈ (f a).passed answer t) : u ∈ (p.bind f).passed answer s := by
  induction p generalizing s with
  | ret b =>
    simp only [alone, Option.some.injEq, Prod.mk.injEq] at h
    obtain ⟨rfl, rfl⟩ := h
    exact hu
  | ask r rest ih =>
    simp only [alone, Option.bind_eq_some_iff] at h
    obtain ⟨xs, hx, h⟩ := h
    simp only [ask_bind, passed, hx, List.mem_cons]
    exact .inr (ih xs.1 h)

end

end Program

def Fallible (Req : Type) (Resp : Req → Type) (ε α : Type) : Type :=
  Program Req Resp (Except ε α)

namespace Fallible
variable {Req : Type} {Resp : Req → Type} {α β ε : Type}

def raise (e : ε) : Fallible Req Resp ε α := Program.ret (.error e)

def call (r : Req) : Fallible Req Resp ε (Resp r) := Program.ask r (fun x => .ret (.ok x))

/-- `p`, followed by `f` on its value or by `h` on its exception. -/
def handle (p : Fallible Req Resp ε α) (f : α → Fallible Req Resp ε β)
    (h : ε → Fallible Req Resp ε β) : Fallible Req Resp ε β :=
  Program.bind p fun
    | .ok a => f a
    | .error e => h e

def ofExcept : Except ε α → Fallible Req Resp ε α := Program.ret

instance : Monad (Fallible Req Resp ε) where
  pure a := Program.ret (.ok a)
  bind p f := handle p f raise

theorem bind_eq (p : Fallible Req Resp ε α) (f : α → Fallible Req Resp ε β) :
    p >>= f = handle p f raise := rfl

/-- Alone, `p` runs first and its outcome selects what runs next. -/
theorem alone_handle {σ : Type} (answer : (r : Req) → σ → Option (Resp r × σ))
    (p : Fallible Req Resp ε α) (f : α → Fallible Req Resp ε β) (h : ε → Fallible Req Resp ε β)
    (s : σ) :
    Program.alone answer (handle p f h) s = (Program.alone answer p s).bind fun xs =>
      match xs.1 with
      | .ok a => Program.alone answer (f a) xs.2
      | .error e => Program.alone answer (h e) xs.2 := by
  refine (Program.alone_bind answer p _ s).trans ?_
  congr 1
  funext xs
  cases xs.1 <;> rfl

section
variable {σ : Type} {answer : (r : Req) → σ → Option (Resp r × σ)} {p : Fallible Req Resp ε α}
  {s t : σ}

theorem alone_handle_ok {a : α} (hp : Program.alone answer p s = some (.ok a, t))
    (f : α → Fallible Req Resp ε β) (h : ε → Fallible Req Resp ε β) :
    Program.alone answer (handle p f h) s = Program.alone answer (f a) t := by
  rw [alone_handle, hp]
  rfl

theorem alone_handle_error {e : ε} (hp : Program.alone answer p s = some (.error e, t))
    (f : α → Fallible Req Resp ε β) (h : ε → Fallible Req Resp ε β) :
    Program.alone answer (handle p f h) s = Program.alone answer (h e) t := by
  rw [alone_handle, hp]
  rfl

theorem alone_bind_ok {a : α} (hp : Program.alone answer p s = some (.ok a, t))
    (f : α → Fallible Req Resp ε β) :
    Program.alone answer (p >>= f : Fallible Req Resp ε β) s = Program.alone answer (f a) t :=
  alone_handle_ok hp f raise

theorem alone_bind_error {e : ε} (hp : Program.alone answer p s = some (.error e, t))
    (f : α → Fallible Req Resp ε β) :
    Program.alone answer (p >>= f : Fallible Req Resp ε β) s = some (.error e, t) :=
  alone_handle_error hp f raise

end

@[simp] theorem handle_ok (a : α) (f : α → Fallible Req Resp ε β) (h) :
    handle (Program.ret (.ok a)) f h = f a := rfl

@[simp] theorem handle_error (e : ε) (f : α → Fallible Req Resp ε β) (h) :
    handle (Program.ret (.error e)) f h = h e := rfl

@[simp] theorem handle_ask (r : Req) (rest : Resp r → Fallible Req Resp ε α)
    (f : α → Fallible Req Resp ε β) (h) :
    handle (Program.ask r rest) f h = Program.ask r (fun x => handle (rest x) f h) := rfl

end Fallible

/-- The state of an interleaving: what the programs share and what is left of each. -/
structure Config (ι σ Req : Type) (Resp : Req → Type) (α : Type) where
  store : σ
  threads : ι → Program Req Resp α

namespace Config
variable {ι σ χ Req α : Type} {Resp : Req → Type} [DecidableEq ι]

/-- Thread `l.1` has its pending request answered; `l.2` settles whatever the
surroundings are free to decide. A request that is declined blocks the thread. -/
def next (answer : χ → ι → (r : Req) → σ → Option (Resp r × σ))
    (c : Config ι σ Req Resp α) (l : ι × χ) : Option (Config ι σ Req Resp α) :=
  match c.threads l.1 with
  | .ret _ => none
  | .ask r rest => (answer l.2 l.1 r c.store).map
      (fun xs => ⟨xs.2, Function.update c.threads l.1 (rest xs.1)⟩)

def Asks (c : Config ι σ Req Resp α) (i : ι) (r : Req) : Prop := (c.threads i).asked? = some r

omit [DecidableEq ι] in
theorem asks_iff {c : Config ι σ Req Resp α} {i : ι} {r r' : Req}
    {rest : Resp r → Program Req Resp α} (h : c.threads i = .ask r rest) :
    c.Asks i r' ↔ r' = r := by
  simp [Asks, h, Program.asked?, eq_comm]

def Step (answer : χ → ι → (r : Req) → σ → Option (Resp r × σ)) :
    Config ι σ Req Resp α → ι × χ → Config ι σ Req Resp α → Prop :=
  fun c l c' => c.next answer l = some c'

theorem next_of_ask {answer : χ → ι → (r : Req) → σ → Option (Resp r × σ)}
    {c : Config ι σ Req Resp α} {i : ι} {ch : χ} {r : Req}
    {rest : Resp r → Program Req Resp α} {x : Resp r} {s : σ} (h : c.threads i = .ask r rest)
    (ha : answer ch i r c.store = some (x, s)) :
    c.next answer (i, ch) = some ⟨s, Function.update c.threads i (rest x)⟩ := by
  simp [next, h, ha]

/-- What a step does: some thread's request is answered. -/
theorem step_cases {answer : χ → ι → (r : Req) → σ → Option (Resp r × σ)}
    {c c' : Config ι σ Req Resp α} {l : ι × χ} (h : c.Step answer l c') :
    ∃ r rest x s, c.threads l.1 = .ask r rest ∧ answer l.2 l.1 r c.store = some (x, s) ∧
      c' = ⟨s, Function.update c.threads l.1 (rest x)⟩ := by
  simp only [Step, next] at h
  cases ht : c.threads l.1 with
  | ret a => simp [ht] at h
  | ask r rest =>
    simp only [ht, Option.map_eq_some_iff] at h
    obtain ⟨⟨x, s⟩, ha, rfl⟩ := h
    exact ⟨r, rest, x, s, rfl, ha, rfl⟩

/-- A program none of whose requests are answered stays where it is. -/
theorem replay_other {answer : χ → ι → (r : Req) → σ → Option (Resp r × σ)}
    {c c' : Config ι σ Req Resp α} {ls : List (ι × χ)} {i : ι}
    (h : replay (fun c l => c.next answer l) c ls = some c') (hi : ∀ l ∈ ls, l.1 ≠ i) :
    c'.threads i = c.threads i := by
  induction ls generalizing c with
  | nil => rw [Option.some.inj h]
  | cons l ls ih =>
    simp only [replay, Option.bind_eq_some_iff] at h
    obtain ⟨d, hd, h⟩ := h
    obtain ⟨hl, hls⟩ := List.forall_mem_cons.mp hi
    rw [ih h hls]
    obtain ⟨r, rest, x, s, -, -, rfl⟩ := step_cases hd
    exact Function.update_of_ne hl.symm _ _

/-- A program that has ended stays as it is. -/
theorem run_ended {answer : χ → ι → (r : Req) → σ → Option (Resp r × σ)}
    {start c : Config ι σ Req Resp α} {trace : List (Config ι σ Req Resp α × (ι × χ))} {i : ι}
    {a : α} (h : Run (Step answer) start trace c) (hi : start.threads i = .ret a) :
    c.threads i = .ret a := by
  refine (h.invariant (I := fun c => c.threads i = .ret a) (C := fun _ _ => True) hi ?_
    fun _ _ => trivial).2
  intro c l d hc _ hstep
  obtain ⟨r, rest, x, s, hthread, -, rfl⟩ := step_cases hstep
  have hne : i ≠ l.1 := by
    rintro rfl
    rw [hc] at hthread
    cases hthread
  exact (Function.update_of_ne hne _ _).trans hc

end Config

end Concurrency

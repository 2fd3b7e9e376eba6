import Mathlib.Logic.Function.Basic

namespace Data

/-- What it comes to to draw a number of a sequence. -/
inductive Drawn where
  | number (n : Int)
  | exhausted
  | refused
  deriving DecidableEq

section
variable (limit : Int) (taken : Int → Bool)

/-- The numbers after `last` are tried in turn, so many of them and none beyond the limit, up to
the first that is not taken. -/
def draw : Nat → Int → Drawn
  | 0, _ => .refused
  | tries + 1, last =>
    if 1 ≤ last + 1 ∧ last + 1 ≤ limit then
      if taken (last + 1) then draw tries (last + 1) else .number (last + 1)
    else .exhausted

/-- Of the next numbers after `last`, so many of them, the first that is not taken. -/
structure FirstFree (tries : Nat) (last n : Int) : Prop where
  start : 0 ≤ last
  behind : last < n
  limit : n ≤ limit
  near : n ≤ last + tries
  free : taken n = false
  first : ∀ m, last < m → m < n → taken m = true

/-- The next numbers after `last`, so many of them, are all taken. -/
def AllTaken (tries : Nat) (last : Int) : Prop :=
  tries = 0 ∨ 0 ≤ last ∧ last + tries ≤ limit ∧ ∀ m, last < m → m ≤ last + tries → taken m = true

end

section
variable {limit last n : Int} {taken : Int → Bool} {tries : Nat}

theorem draw_taken (hrange : 1 ≤ last + 1 ∧ last + 1 ≤ limit) (h : taken (last + 1) = true) :
    draw limit taken (tries + 1) last = draw limit taken tries (last + 1) := by
  rw [draw, if_pos hrange, if_pos h]

theorem draw_free (hrange : 1 ≤ last + 1 ∧ last + 1 ≤ limit) (h : taken (last + 1) = false) :
    draw limit taken (tries + 1) last = .number (last + 1) := by
  rw [draw, if_pos hrange, h]
  rfl

theorem draw_beyond (hrange : ¬ (1 ≤ last + 1 ∧ last + 1 ≤ limit)) :
    draw limit taken (tries + 1) last = .exhausted := by
  rw [draw, if_neg hrange]

/-- A taken number is passed over. -/
theorem firstFree_taken (hrange : 1 ≤ last + 1 ∧ last + 1 ≤ limit) (h : taken (last + 1) = true) :
    FirstFree limit taken (tries + 1) last n ↔ FirstFree limit taken tries (last + 1) n := by
  constructor
  · intro hf
    have hne : n ≠ last + 1 := by
      rintro rfl
      rw [hf.free] at h
      cases h
    have hbehind := hf.behind
    have hnear := hf.near
    push_cast at hnear
    exact ⟨by omega, by omega, hf.limit, by omega, hf.free, fun m hm => hf.first m (by omega)⟩
  · intro hf
    have hnear := hf.near
    have hbehind := hf.behind
    refine ⟨by omega, by omega, hf.limit, by push_cast; omega, hf.free, fun m hm hmn => ?_⟩
    by_cases he : m = last + 1
    · rw [he, h]
    · exact hf.first m (by omega) hmn

theorem allTaken_taken (hrange : 1 ≤ last + 1 ∧ last + 1 ≤ limit) (h : taken (last + 1) = true) :
    AllTaken limit taken (tries + 1) last ↔ AllTaken limit taken tries (last + 1) := by
  constructor
  · rintro (hzero | ⟨hstart, hlimit, hall⟩)
    · omega
    · push_cast at hlimit hall
      exact .inr ⟨by omega, by omega, fun m hm hle => hall m (by omega) (by omega)⟩
  · intro ha
    right
    have hall : ∀ m, last < m → m ≤ last + ((tries + 1 : Nat) : Int) → taken m = true := by
      intro m hm hle
      push_cast at hle
      by_cases he : m = last + 1
      · rw [he, h]
      · rcases ha with rfl | ⟨-, -, hall⟩
        · push_cast at hle
          omega
        · exact hall m (by omega) (by omega)
    rcases ha with rfl | ⟨-, hlimit, -⟩
    · exact ⟨by omega, by push_cast; omega, hall⟩
    · exact ⟨by omega, by push_cast; omega, hall⟩

theorem draw_eq_number :
    draw limit taken tries last = .number n ↔ FirstFree limit taken tries last n := by
  induction tries generalizing last with
  | zero =>
    refine iff_of_false nofun fun hf => ?_
    have hnear := hf.near
    have hbehind := hf.behind
    push_cast at hnear
    omega
  | succ tries ih =>
    by_cases hrange : 1 ≤ last + 1 ∧ last + 1 ≤ limit
    · cases htaken : taken (last + 1) with
      | true => rw [draw_taken hrange htaken, ih, firstFree_taken hrange htaken]
      | false =>
        rw [draw_free hrange htaken, Drawn.number.injEq]
        constructor
        · rintro rfl
          exact ⟨by omega, by omega, hrange.2, by push_cast; omega, htaken, fun m _ _ => by omega⟩
        · intro hf
          by_contra hne
          have hbehind := hf.behind
          rw [hf.first (last + 1) (by omega) (by omega)] at htaken
          cases htaken
    · rw [draw_beyond hrange]
      refine iff_of_false nofun fun hf => hrange ?_
      have hbehind := hf.behind
      have hlimit := hf.limit
      have hstart := hf.start
      exact ⟨by omega, by omega⟩

theorem draw_eq_refused :
    draw limit taken tries last = .refused ↔ AllTaken limit taken tries last := by
  induction tries generalizing last with
  | zero => exact iff_of_true rfl (.inl rfl)
  | succ tries ih =>
    by_cases hrange : 1 ≤ last + 1 ∧ last + 1 ≤ limit
    · cases htaken : taken (last + 1) with
      | true => rw [draw_taken hrange htaken, ih, allTaken_taken hrange htaken]
      | false =>
        rw [draw_free hrange htaken]
        refine iff_of_false nofun ?_
        rintro (hzero | ⟨-, -, hall⟩)
        · omega
        · rw [hall (last + 1) (by omega) (by push_cast; omega)] at htaken
          cases htaken
    · rw [draw_beyond hrange]
      refine iff_of_false nofun ?_
      rintro (hzero | ⟨hstart, hlimit, -⟩)
      · omega
      · push_cast at hlimit
        exact hrange ⟨by omega, by omega⟩

end

section
variable {κ τ : Type} [DecidableEq κ] [DecidableEq τ] (limit : Int) (label : κ → Int → τ)
  (tries : Nat)

/-- What is taken when a key has got a number: the labels of the keys may coincide. -/
def takenWith (taken : κ → Int → Bool) (key : κ) (n : Int) (other : κ) (m : Int) : Bool :=
  taken other m || label other m == label key n

/-- Numbers for some keys in turn, each the first free one after the last of its key. -/
inductive Numbered : (κ → Int → Bool) → (κ → Int) → List κ → List Int → Prop
  | nil (taken : κ → Int → Bool) (last : κ → Int) : Numbered taken last [] []
  | cons {taken : κ → Int → Bool} {last : κ → Int} {key : κ} {keys : List κ} {n : Int}
      {numbers : List Int} (hfirst : FirstFree limit (taken key) tries (last key) n)
      (hrest : Numbered (takenWith label taken key n) (Function.update last key n) keys numbers) :
      Numbered taken last (key :: keys) (n :: numbers)

/-- Of some keys in turn, each gets a number up to one for which all numbers in reach are taken. -/
inductive Blocked : (κ → Int → Bool) → (κ → Int) → List κ → Prop
  | here {taken : κ → Int → Bool} {last : κ → Int} {key : κ} (keys : List κ)
      (hall : AllTaken limit (taken key) tries (last key)) : Blocked taken last (key :: keys)
  | later {taken : κ → Int → Bool} {last : κ → Int} {key : κ} {keys : List κ} {n : Int}
      (hfirst : FirstFree limit (taken key) tries (last key) n)
      (hrest : Blocked (takenWith label taken key n) (Function.update last key n) keys) :
      Blocked taken last (key :: keys)

/-- Numbers are drawn for some keys in turn: what the first draw that gives none comes to. -/
def drawAll : (κ → Int → Bool) → (κ → Int) → List κ → Option Drawn
  | _, _, [] => none
  | taken, last, key :: keys => match draw limit (taken key) tries (last key) with
    | .number n => drawAll (takenWith label taken key n) (Function.update last key n) keys
    | .exhausted => some .exhausted
    | .refused => some .refused

end

section
variable {κ τ : Type} [DecidableEq κ] [DecidableEq τ] {limit : Int} {label : κ → Int → τ}
  {tries : Nat} {taken : κ → Int → Bool} {last : κ → Int} {keys : List κ}

theorem drawAll_eq_none : drawAll limit label tries taken last keys = none ↔
    ∃ numbers, Numbered limit label tries taken last keys numbers := by
  induction keys generalizing taken last with
  | nil => exact iff_of_true rfl ⟨[], .nil taken last⟩
  | cons key keys ih =>
    rw [drawAll]
    cases hdraw : draw limit (taken key) tries (last key) with
    | number n =>
      rw [draw_eq_number] at hdraw
      dsimp only
      rw [ih]
      constructor
      · rintro ⟨numbers, hrest⟩
        exact ⟨n :: numbers, .cons hdraw hrest⟩
      · rintro ⟨_, hall⟩
        cases hall with
        | @cons _ _ _ _ m numbers hfirst hrest =>
          rw [← draw_eq_number] at hdraw hfirst
          obtain rfl := Drawn.number.inj (hdraw.symm.trans hfirst)
          exact ⟨numbers, hrest⟩
    | exhausted =>
      refine iff_of_false nofun ?_
      rintro ⟨_, hall⟩
      cases hall with
      | cons hfirst hrest => cases hdraw.symm.trans (draw_eq_number.mpr hfirst)
    | refused =>
      refine iff_of_false nofun ?_
      rintro ⟨_, hall⟩
      cases hall with
      | cons hfirst hrest => cases hdraw.symm.trans (draw_eq_number.mpr hfirst)

theorem drawAll_eq_refused : drawAll limit label tries taken last keys = some .refused ↔
    Blocked limit label tries taken last keys := by
  induction keys generalizing taken last with
  | nil => exact iff_of_false nofun nofun
  | cons key keys ih =>
    rw [drawAll]
    cases hdraw : draw limit (taken key) tries (last key) with
    | number n =>
      dsimp only
      rw [ih]
      constructor
      · exact fun hrest => .later (draw_eq_number.mp hdraw) hrest
      · intro hblocked
        cases hblocked with
        | here _ hall => cases hdraw.symm.trans (draw_eq_refused.mpr hall)
        | later hfirst hrest =>
          obtain rfl := Drawn.number.inj (hdraw.symm.trans (draw_eq_number.mpr hfirst))
          exact hrest
    | exhausted =>
      refine iff_of_false nofun fun hblocked => ?_
      cases hblocked with
      | here _ hall => cases hdraw.symm.trans (draw_eq_refused.mpr hall)
      | later hfirst hrest => cases hdraw.symm.trans (draw_eq_number.mpr hfirst)
    | refused => exact iff_of_true rfl (.here keys (draw_eq_refused.mp hdraw))

end

end Data

import Mathlib.Data.List.Sort

namespace Data

def Increasing (l : List Nat) : Prop := l.Pairwise (· < ·)

/-- Increasing lists with the same members are the same. -/
theorem Increasing.ext {l l' : List Nat} (h : Increasing l) (h' : Increasing l')
    (hmem : ∀ i, i ∈ l ↔ i ∈ l') : l = l' :=
  List.Pairwise.eq_of_mem_iff h h' hmem

theorem increasing_filter_range (n : Nat) (p : Nat → Bool) :
    Increasing ((List.range n).filter p) :=
  List.pairwise_lt_range.filter p

def bisectLeft (l : List Nat) (x : Nat) : Nat := (l.takeWhile fun i => i < x).length

/-- `x` put into its place, unless it is there. -/
def insertIncreasing (l : List Nat) (x : Nat) : List Nat :=
  let position := bisectLeft l x
  if l[position]? = some x then l else l.insertIdx position x

/-- `x` taken from its place, if it is there. -/
def eraseIncreasing (l : List Nat) (x : Nat) : List Nat :=
  let position := bisectLeft l x
  if l[position]? = some x then l.eraseIdx position else l

section
variable {l : List Nat} {x i a : Nat}

theorem insertIncreasing_cons : insertIncreasing (a :: l) x =
    if a < x then a :: insertIncreasing l x else if a = x then a :: l else x :: a :: l := by
  by_cases hlt : a < x
  · simp only [insertIncreasing, bisectLeft, List.takeWhile_cons, hlt, decide_true, if_true,
      List.length_cons, List.getElem?_cons_succ, List.insertIdx_succ_cons]
    exact (apply_ite (List.cons a) _ _ _).symm
  · simp [insertIncreasing, bisectLeft, hlt]

theorem eraseIncreasing_cons : eraseIncreasing (a :: l) x =
    if a < x then a :: eraseIncreasing l x else if a = x then l else a :: l := by
  by_cases hlt : a < x
  · simp only [eraseIncreasing, bisectLeft, List.takeWhile_cons, hlt, decide_true, if_true,
      List.length_cons, List.getElem?_cons_succ, List.eraseIdx_cons_succ]
    exact (apply_ite (List.cons a) _ _ _).symm
  · simp [eraseIncreasing, bisectLeft, hlt]

theorem mem_insertIncreasing : i ∈ insertIncreasing l x ↔ i = x ∨ i ∈ l := by
  induction l with
  | nil => simp [insertIncreasing, bisectLeft]
  | cons a l ih =>
    rw [insertIncreasing_cons]
    split
    · simp only [List.mem_cons, ih, or_left_comm]
    · split
      · next he =>
        simp only [he, List.mem_cons, or_self_left]
      · simp only [List.mem_cons]

theorem Increasing.insert (h : Increasing l) (x : Nat) : Increasing (insertIncreasing l x) := by
  induction l with
  | nil => exact List.pairwise_singleton _ _
  | cons a l ih =>
    obtain ⟨hhead, htail⟩ := List.pairwise_cons.mp h
    rw [insertIncreasing_cons]
    split
    · next hlt =>
      refine List.pairwise_cons.mpr ⟨fun i hi => ?_, ih htail⟩
      rcases mem_insertIncreasing.mp hi with rfl | hi
      · exact hlt
      · exact hhead i hi
    · split
      · exact h
      · refine List.pairwise_cons.mpr ⟨fun i hi => ?_, h⟩
        rcases List.mem_cons.mp hi with rfl | hi
        · omega
        · have := hhead i hi
          omega

theorem mem_eraseIncreasing (h : Increasing l) : i ∈ eraseIncreasing l x ↔ i ∈ l ∧ i ≠ x := by
  induction l with
  | nil => simp [eraseIncreasing, bisectLeft]
  | cons a l ih =>
    obtain ⟨hhead, htail⟩ := List.pairwise_cons.mp h
    rw [eraseIncreasing_cons]
    split
    · next hlt =>
      rw [List.mem_cons, List.mem_cons, ih htail]
      constructor
      · rintro (rfl | hi)
        · exact ⟨.inl rfl, by omega⟩
        · exact ⟨.inr hi.1, hi.2⟩
      · rintro ⟨rfl | hi, hne⟩
        · exact .inl rfl
        · exact .inr ⟨hi, hne⟩
    · split
      · next he =>
        subst he
        rw [List.mem_cons]
        constructor
        · intro hi
          exact ⟨.inr hi, (hhead i hi).ne'⟩
        · rintro ⟨rfl | hi, hne⟩
          · exact absurd rfl hne
          · exact hi
      · refine ⟨fun hi => ⟨hi, ?_⟩, And.left⟩
        rcases List.mem_cons.mp hi with rfl | hi
        · omega
        · have := hhead i hi
          omega

theorem Increasing.erase (h : Increasing l) (x : Nat) : Increasing (eraseIncreasing l x) := by
  have hsublist : (eraseIncreasing l x).Sublist l := by
    simp only [eraseIncreasing]
    split
    · exact List.eraseIdx_sublist _ _
    · exact List.Sublist.refl _
  exact h.sublist hsublist

end

/-- The head of one increasing list against another list; `rest` goes on behind the head. -/
def intersectHead (a : Nat) (rest : List Nat → List Nat) : List Nat → List Nat
  | [] => []
  | b :: bs =>
    if a = b then a :: rest bs
    else if a < b then rest (b :: bs)
    else intersectHead a rest bs

/-- What two increasing lists have in common, in one pass over both. -/
def intersectIncreasing : List Nat → List Nat → List Nat
  | [], _ => []
  | a :: l, bs => intersectHead a (intersectIncreasing l) bs

theorem intersectIncreasing_eq {l bs : List Nat} (hl : Increasing l) (hbs : Increasing bs) :
    intersectIncreasing l bs = l.filter fun i => decide (i ∈ bs) := by
  induction l generalizing bs with
  | nil => rfl
  | cons a l ih =>
    obtain ⟨hhead, htail⟩ := List.pairwise_cons.mp hl
    rw [intersectIncreasing]
    induction bs with
    | nil => simp [intersectHead]
    | cons b bs ihbs =>
      obtain ⟨hb, hbs'⟩ := List.pairwise_cons.mp hbs
      rw [intersectHead]
      split
      · next he =>
        subst he
        rw [ih htail hbs', List.filter_cons_of_pos (by simp)]
        refine congrArg _ (List.filter_congr fun i hi => ?_)
        simp [(hhead i hi).ne']
      · split
        · next hne hlt =>
          have hnot : a ∉ b :: bs := by
            rw [List.mem_cons]
            rintro (rfl | ha)
            · exact hne rfl
            · have := hb a ha
              omega
          rw [ih htail hbs, List.filter_cons_of_neg (by simpa using hnot)]
        · next hne hlt =>
          rw [ihbs hbs']
          refine List.filter_congr fun i hi => ?_
          have hne' : i ≠ b := by
            rcases List.mem_cons.mp hi with rfl | hi
            · exact hne
            · have := hhead i hi
              omega
          simp [hne']

/-- The windows of the indices after `start`, which are in sequence up to `prev`. -/
def windowsFrom (start prev : Nat) : List Nat → List (Nat × Nat)
  | [] => [(start, prev + 1)]
  | i :: l =>
    if i = prev + 1 then windowsFrom start i l
    else (start, prev + 1) :: windowsFrom i i l

/-- Indices as windows `(start, end)`, `end` exclusive. -/
def toWindows : List Nat → List (Nat × Nat)
  | [] => []
  | i :: l => windowsFrom i i l

/-- The maximal windows of the indices with a property, in increasing order and apart. -/
structure Windows (P : Nat → Prop) (ws : List (Nat × Nat)) : Prop where
  nonempty : ∀ w ∈ ws, w.1 < w.2
  apart : ws.Pairwise fun w w' => w.2 < w'.1
  covers : ∀ i, P i ↔ ∃ w ∈ ws, w.1 ≤ i ∧ i < w.2
  maximal : ∀ w ∈ ws, ¬ P w.2 ∧ ∀ i, i + 1 = w.1 → ¬ P i

section
variable {P Q : Nat → Prop} {ws : List (Nat × Nat)} {start prev : Nat} {l : List Nat}

theorem Windows.congr (h : Windows P ws) (hiff : ∀ i, P i ↔ Q i) : Windows Q ws := by
  obtain rfl : P = Q := funext fun i => propext (hiff i)
  exact h

/-- The first index of a window has the property. -/
theorem Windows.first (h : Windows P ws) {w : Nat × Nat} (hw : w ∈ ws) : P w.1 :=
  (h.covers w.1).mpr ⟨w, hw, le_refl _, h.nonempty w hw⟩

theorem windows_from (hle : start ≤ prev) (h : Increasing (prev :: l)) :
    Windows (fun i => start ≤ i ∧ i ≤ prev ∨ i ∈ l) (windowsFrom start prev l) := by
  induction l generalizing start prev with
  | nil =>
    refine ⟨?_, List.pairwise_singleton _ _, fun i => ?_, ?_⟩
    · simp only [windowsFrom, List.mem_singleton, forall_eq]
      omega
    · simp only [windowsFrom, List.mem_singleton, exists_eq_left, List.not_mem_nil, or_false]
      omega
    · simp only [windowsFrom, List.mem_singleton, forall_eq, List.not_mem_nil, or_false]
      refine ⟨by omega, fun i hi => by omega⟩
  | cons i l ih =>
    obtain ⟨hhead, htail⟩ := List.pairwise_cons.mp h
    have hprev := hhead i (List.mem_cons_self ..)
    obtain ⟨hnext, -⟩ := List.pairwise_cons.mp htail
    rw [windowsFrom]
    split
    · next he =>
      refine (ih (by omega) htail).congr fun j => ?_
      rw [List.mem_cons]
      constructor
      · rintro (hj | hj)
        · by_cases hji : j = i
          · exact .inr (.inl hji)
          · exact .inl (by omega)
        · exact .inr (.inr hj)
      · rintro (hj | rfl | hj)
        · exact .inl (by omega)
        · exact .inl (by omega)
        · exact .inr hj
    · next hne =>
      have hrest := ih (le_refl i) htail
      -- Every later index lies beyond `i`, and so beyond the gap.
      have hbeyond : ∀ j, (i ≤ j ∧ j ≤ i ∨ j ∈ l) → prev + 1 < j := by
        rintro j (hj | hj)
        · omega
        · have := hnext j hj
          omega
      have hiff : ∀ j, (start ≤ j ∧ j ≤ prev ∨ j ∈ i :: l) ↔
          start ≤ j ∧ j ≤ prev ∨ (i ≤ j ∧ j ≤ i ∨ j ∈ l) := by
        intro j
        rw [List.mem_cons, ← le_antisymm_iff, eq_comm (a := i)]
      refine ⟨?_, ?_, ?_, ?_⟩
      · rw [List.forall_mem_cons]
        exact ⟨by dsimp only; omega, hrest.nonempty⟩
      · refine List.pairwise_cons.mpr ⟨fun w hw => ?_, hrest.apart⟩
        exact hbeyond w.1 (hrest.first hw)
      · intro j
        rw [hiff, hrest.covers j, List.exists_mem_cons_iff, Nat.lt_succ_iff]
      · rw [List.forall_mem_cons]
        refine ⟨⟨fun hj => ?_, fun j hj hp => ?_⟩, fun w hw => ⟨fun hj => ?_, fun j hj hp => ?_⟩⟩
        · rcases (hiff _).mp hj with hj | hj
          · dsimp only at hj
            omega
          · exact absurd (hbeyond _ hj) (by dsimp only; omega)
        · dsimp only at hj
          rcases (hiff _).mp hp with hp | hp
          · omega
          · have := hbeyond _ hp
            omega
        · have hw1 := hbeyond w.1 (hrest.first hw)
          have hw2 := hrest.nonempty w hw
          rcases (hiff _).mp hj with hj | hj
          · omega
          · exact (hrest.maximal w hw).1 hj
        · have hw1 := hbeyond w.1 (hrest.first hw)
          rcases (hiff _).mp hp with hp | hp
          · omega
          · exact (hrest.maximal w hw).2 j hj hp

/-- The windows of an increasing list are those of its members. -/
theorem windows_toWindows (h : Increasing l) : Windows (· ∈ l) (toWindows l) := by
  cases l with
  | nil => exact ⟨by simp [toWindows], List.Pairwise.nil, by simp [toWindows], by simp [toWindows]⟩
  | cons i l =>
    refine (windows_from (le_refl i) h).congr fun j => ?_
    rw [List.mem_cons, ← le_antisymm_iff, eq_comm]

/-- The indices of the windows, one after the other. -/
def covered (ws : List (Nat × Nat)) : List Nat :=
  ws.flatMap fun w => List.range' w.1 (w.2 - w.1)

theorem covered_from (hle : start ≤ prev) :
    covered (windowsFrom start prev l) = List.range' start (prev + 1 - start) ++ l := by
  induction l generalizing start prev with
  | nil => simp [covered, windowsFrom]
  | cons i l ih =>
    rw [windowsFrom]
    split
    · next he =>
      subst he
      have hlength : prev + 1 + 1 - start = prev + 1 - start + 1 := by omega
      have hlast : start + (prev + 1 - start) = prev + 1 := by omega
      rw [ih (by omega), hlength, List.range'_concat, Nat.one_mul, hlast, List.append_assoc,
        List.singleton_append]
    · have hone : i + 1 - i = 1 := by omega
      rw [covered, List.flatMap_cons, ← covered, ih (le_refl i), hone]
      rfl

theorem covered_toWindows (l : List Nat) : covered (toWindows l) = l := by
  cases l with
  | nil => rfl
  | cons i l =>
    have hone : i + 1 - i = 1 := by omega
    rw [toWindows, covered_from (le_refl i), hone]
    rfl

end

end Data

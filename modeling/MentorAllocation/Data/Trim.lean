import Mathlib.Data.List.DropRight

namespace Data
variable {α : Type} {p q : α → Bool} {a b m l : List α}

/-- A list without what it has of a class at its two ends. -/
def trim (p : α → Bool) (l : List α) : List α := (l.dropWhile p).rdropWhile p

/-- A list with something in it that neither begins nor ends with an element of the class. -/
structure Bare (p : α → Bool) (l : List α) : Prop where
  nonempty : l ≠ []
  head : ∀ x ∈ l.head?, p x = false
  last : ∀ x ∈ l.reverse.head?, p x = false

theorem Bare.reverse (h : Bare p l) : Bare p l.reverse :=
  ⟨by simpa using h.nonempty, h.last, by simpa using h.head⟩

theorem Bare.weaken (h : Bare p l) (hq : ∀ x, q x = true → p x = true) : Bare q l := by
  have hweak : ∀ x, p x = false → q x = false := by
    intro x hx
    by_contra hne
    rw [hq x (by simpa using hne)] at hx
    cases hx
  exact ⟨h.nonempty, fun x hx => hweak x (h.head x hx), fun x hx => hweak x (h.last x hx)⟩

theorem Bare.dropWhile (h : Bare p m) (a b : List α) :
    (a ++ m ++ b).dropWhile p = a.dropWhile p ++ m ++ b := by
  obtain ⟨x, m, rfl⟩ := List.exists_cons_of_ne_nil h.nonempty
  have hx : p x = false := h.head x rfl
  induction a with
  | nil => simp [hx]
  | cons y a ih =>
    by_cases hy : p y = true
    · simpa [hy] using ih
    · simp [hy]

theorem Bare.rdropWhile (h : Bare p m) (a b : List α) :
    (a ++ m ++ b).rdropWhile p = a ++ m ++ b.rdropWhile p := by
  have := h.reverse.dropWhile b.reverse a.reverse
  simp only [List.rdropWhile, List.reverse_append, ← List.append_assoc, this, List.reverse_reverse]

theorem Bare.trim (h : Bare p m) (a b : List α) :
    trim p (a ++ m ++ b) = a.dropWhile p ++ m ++ b.rdropWhile p := by
  rw [Data.trim, h.dropWhile, h.rdropWhile]

theorem Bare.takeWhile (h : Bare p m) (ha : ∀ x ∈ a, p x = true) (b : List α) :
    (a ++ m ++ b).takeWhile p = a := by
  obtain ⟨x, m, rfl⟩ := List.exists_cons_of_ne_nil h.nonempty
  have hx : p x = false := h.head x rfl
  rw [List.append_assoc, List.takeWhile_append_of_pos ha]
  simp [hx]

theorem Bare.rtakeWhile (h : Bare p m) (a : List α) (hb : ∀ x ∈ b, p x = true) :
    (a ++ m ++ b).rtakeWhile p = b := by
  have := h.reverse.takeWhile (a := b.reverse) (by simpa using hb) a.reverse
  simp only [List.rtakeWhile, List.reverse_append, ← List.append_assoc, this, List.reverse_reverse]

/-- A list is all of a class, or it has a bare part between two ends of the class. -/
theorem exists_bare (p : α → Bool) (l : List α) : (∀ x ∈ l, p x = true) ∨
    ∃ a m b, l = a ++ m ++ b ∧ (∀ x ∈ a, p x = true) ∧ (∀ x ∈ b, p x = true) ∧ Bare p m := by
  by_cases hall : ∀ x ∈ l, p x = true
  · exact Or.inl hall
  right
  have hdrop : l.dropWhile p ≠ [] := fun hnil => hall (List.dropWhile_eq_nil_iff.mp hnil)
  have hhead : ∀ x ∈ (l.dropWhile p).head?, p x = false := by
    intro x hx
    have := List.head?_dropWhile_not p l
    rw [Option.mem_def.mp hx] at this
    simpa using this
  have hne : trim p l ≠ [] := by
    intro hnil
    obtain ⟨x, rest, hcons⟩ := List.exists_cons_of_ne_nil hdrop
    have hx := List.rdropWhile_eq_nil_iff.mp hnil x (by simp [hcons])
    rw [hhead x (by simp [hcons])] at hx
    cases hx
  have htrim : (trim p l).head? = (l.dropWhile p).head? := by
    obtain ⟨rest, hrest⟩ := List.rdropWhile_prefix p (l.dropWhile p)
    obtain ⟨x, kept, hkept⟩ := List.exists_cons_of_ne_nil hne
    rw [trim] at hkept
    rw [← hrest, trim, hkept]
    rfl
  have hlast : ∀ x ∈ (trim p l).reverse.head?, p x = false := by
    intro x hx
    have := List.head?_dropWhile_not p (l.dropWhile p).reverse
    rw [trim, List.rdropWhile, List.reverse_reverse] at hx
    rw [Option.mem_def.mp hx] at this
    simpa using this
  refine ⟨l.takeWhile p, trim p l, (l.dropWhile p).rtakeWhile p, ?_,
    fun x hx => List.mem_takeWhile_imp hx, fun x hx => List.mem_rtakeWhile_imp hx, ?_⟩
  · rw [List.append_assoc, trim, List.rdropWhile_append_rtakeWhile, List.takeWhile_append_dropWhile]
  · exact ⟨hne, fun x hx => hhead x (by rwa [htrim] at hx), hlast⟩

/-- Between ends of the class, the ends of a list with a bare part can be read off. -/
theorem Bare.append_inj {a' b' : List α} (h : Bare p m) (ha : ∀ x ∈ a, p x = true)
    (hb : ∀ x ∈ b, p x = true) (ha' : ∀ x ∈ a', p x = true) (hb' : ∀ x ∈ b', p x = true) :
    a ++ m ++ b = a' ++ m ++ b' ↔ a = a' ∧ b = b' := by
  constructor
  · intro he
    have hstart := congrArg (List.takeWhile p) he
    have hend := congrArg (List.rtakeWhile p) he
    rw [h.takeWhile ha, h.takeWhile ha'] at hstart
    rw [h.rtakeWhile _ hb, h.rtakeWhile _ hb'] at hend
    exact ⟨hstart, hend⟩
  · rintro ⟨rfl, rfl⟩
    rfl

theorem Bare.filter {keep : α → Bool} (h : Bare p l) (hkeep : ∀ x, p x = false → keep x = true) :
    Bare p (l.filter keep) := by
  have hfirst : ∀ m : List α, (∀ x ∈ m.head?, p x = false) → (m.filter keep).head? = m.head? := by
    intro m hm
    cases m with
    | nil => rfl
    | cons x m => simp [hkeep x (hm x rfl)]
  have hhead := hfirst l h.head
  have hlast := hfirst l.reverse h.last
  refine ⟨?_, fun x hx => h.head x (by rwa [hhead] at hx),
    fun x hx => h.last x (by rwa [← List.filter_reverse, hlast] at hx)⟩
  rw [ne_eq, ← List.head?_eq_none_iff, hhead, List.head?_eq_none_iff]
  exact h.nonempty

theorem Bare.map {β : Type} {f : α → β} {r : β → Bool} (h : Bare p l)
    (hf : ∀ x, r (f x) = p x) : Bare r (l.map f) := by
  refine ⟨by simpa using h.nonempty, ?_, ?_⟩
  · intro y hy
    rw [List.head?_map, Option.mem_def, Option.map_eq_some_iff] at hy
    obtain ⟨x, hx, rfl⟩ := hy
    rw [hf, h.head x hx]
  · intro y hy
    rw [← List.map_reverse, List.head?_map, Option.mem_def, Option.map_eq_some_iff] at hy
    obtain ⟨x, hx, rfl⟩ := hy
    rw [hf, h.last x hx]

end Data

import Mathlib.Data.List.Basic

namespace Data

section
variable {α β : Type} {P : α → Prop}

/-- A map into options, where `P` tells which elements have an image. -/
theorem mapM_eq_some {f : α → Option β} {g : α → β} {l : List α}
    (hf : ∀ a ∈ l, ∀ b, f a = some b ↔ P a ∧ b = g a) {bs : List β} :
    l.mapM f = some bs ↔ (∀ a ∈ l, P a) ∧ bs = l.map g := by
  induction l generalizing bs with
  | nil => simp [eq_comm]
  | cons a l ih =>
    have hhead := hf a List.mem_cons_self
    have htail := @ih fun a ha => hf a (List.mem_cons_of_mem _ ha)
    simp only [List.mapM_cons, Option.bind_eq_bind, Option.bind_eq_some_iff, Option.pure_def,
      Option.some.injEq, List.forall_mem_cons, List.map_cons]
    constructor
    · rintro ⟨b, hb, bs, hbs, rfl⟩
      obtain ⟨ha, rfl⟩ := (hhead b).mp hb
      obtain ⟨hl, rfl⟩ := htail.mp hbs
      exact ⟨⟨ha, hl⟩, rfl⟩
    · rintro ⟨⟨ha, hl⟩, rfl⟩
      exact ⟨g a, (hhead _).mpr ⟨ha, rfl⟩, l.map g, htail.mpr ⟨hl, rfl⟩, rfl⟩

theorem foldlM_eq_some {f : β → α → Option β} {g : β → α → β}
    (hf : ∀ b a b', f b a = some b' ↔ P a ∧ b' = g b a) {l : List α} {b b' : β} :
    l.foldlM f b = some b' ↔ (∀ a ∈ l, P a) ∧ b' = l.foldl g b := by
  induction l generalizing b with
  | nil => simp [eq_comm]
  | cons a l ih =>
    simp only [List.foldlM_cons, Option.bind_eq_bind, Option.bind_eq_some_iff, ih,
      List.forall_mem_cons, List.foldl_cons]
    constructor
    · rintro ⟨c, hc, hl, rfl⟩
      obtain ⟨ha, rfl⟩ := (hf b a c).mp hc
      exact ⟨⟨ha, hl⟩, rfl⟩
    · rintro ⟨⟨ha, hl⟩, rfl⟩
      exact ⟨g b a, (hf b a _).mpr ⟨ha, rfl⟩, hl, rfl⟩

end

end Data

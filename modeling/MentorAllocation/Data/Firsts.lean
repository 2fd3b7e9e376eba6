import Mathlib.Data.List.Dedup
import Mathlib.Data.List.Pairwise

namespace Data
variable {α κ : Type} [DecidableEq κ] {key : α → κ} {l : List α} {a : α} {k : κ}

/-- The elements that are the first with their key. -/
def firstsBy (key : α → κ) : List α → List α
  | [] => []
  | a :: l => a :: (firstsBy key l).filter fun b => key b ≠ key a

theorem firstsBy_sublist (key : α → κ) (l : List α) : (firstsBy key l).Sublist l := by
  induction l with
  | nil => exact List.Sublist.refl []
  | cons a l ih => exact (List.filter_sublist.trans ih).cons_cons a

theorem mem_keys_firstsBy : k ∈ (firstsBy key l).map key ↔ k ∈ l.map key := by
  induction l with
  | nil => rfl
  | cons a l ih =>
    rw [List.map_cons, List.mem_cons, ← ih, firstsBy, List.map_cons, List.mem_cons]
    by_cases hk : k = key a
    · simp [hk]
    · simp only [hk, false_or, List.mem_map, List.mem_filter, decide_eq_true_eq]
      constructor
      · rintro ⟨b, ⟨hb, -⟩, he⟩
        exact ⟨b, hb, he⟩
      · rintro ⟨b, hb, he⟩
        exact ⟨b, ⟨hb, he ▸ hk⟩, he⟩

theorem nodup_keys_firstsBy (key : α → κ) (l : List α) : ((firstsBy key l).map key).Nodup := by
  induction l with
  | nil => exact List.nodup_nil
  | cons a l ih =>
    rw [firstsBy, List.map_cons, List.nodup_cons]
    refine ⟨fun h => ?_, ih.sublist (List.filter_sublist.map key)⟩
    obtain ⟨b, hb, he⟩ := List.mem_map.mp h
    exact absurd he (by simpa using (List.mem_filter.mp hb).2)

/-- Firsts are still the firsts among elements that are chosen by their keys. -/
theorem firstsBy_filter (p : κ → Bool) (l : List α) :
    firstsBy key (l.filter fun a => p (key a)) = (firstsBy key l).filter fun a => p (key a) := by
  induction l with
  | nil => rfl
  | cons a l ih =>
    cases hp : p (key a) with
    | true =>
      simp only [List.filter_cons, hp, if_true, firstsBy, ih, List.filter_filter, Bool.and_comm]
    | false =>
      simp only [List.filter_cons, hp, Bool.false_eq_true, if_false, firstsBy, ih,
        List.filter_filter]
      refine List.filter_congr fun b _ => ?_
      by_cases hb : key b = key a
      · simp [hb, hp]
      · simp [hb]

theorem firstsBy_eq_self (h : (l.map key).Nodup) : firstsBy key l = l := by
  induction l with
  | nil => rfl
  | cons a l ih =>
    rw [List.map_cons, List.nodup_cons] at h
    rw [firstsBy, ih h.2, List.filter_eq_self.mpr]
    intro b hb
    exact decide_eq_true fun he => h.1 (he ▸ List.mem_map_of_mem hb)

/-- No element is left out when no key comes twice, and only then. -/
theorem length_firstsBy : (firstsBy key l).length = l.length ↔ (l.map key).Nodup := by
  constructor
  · intro h
    rw [← (firstsBy_sublist key l).eq_of_length h]
    exact nodup_keys_firstsBy key l
  · intro h
    rw [firstsBy_eq_self h]

/-- Each key has one first. -/
theorem length_firstsBy_eq {ks : List κ} (hks : ks.Nodup) (h : ∀ k, k ∈ ks ↔ k ∈ l.map key) :
    (firstsBy key l).length = ks.length := by
  rw [← List.length_map (f := key)]
  refine ((List.perm_ext_iff_of_nodup (nodup_keys_firstsBy key l) hks).mpr fun k => ?_).length_eq
  rw [mem_keys_firstsBy, h k]

omit [DecidableEq κ] in
/-- Of elements with distinct keys, where they have one, no two have the same. -/
theorem eq_of_nodup_filterMap {key : α → Option κ} (h : (l.filterMap key).Nodup)
    (ha : a ∈ l) {b : α} (hb : b ∈ l) (hka : key a = some k) (hkb : key b = some k) : a = b := by
  have hpairs := List.pairwise_filterMap.mp h
  by_contra hne
  have hdiffer : l.Pairwise fun x y => ¬ (key x = some k ∧ key y = some k) :=
    hpairs.imp fun hxy hboth => hxy k hboth.1 k hboth.2 rfl
  have : Std.Symm fun x y => ¬ (key x = some k ∧ key y = some k) :=
    ⟨fun x y hxy hboth => hxy hboth.symm⟩
  exact hdiffer.forall ha hb hne ⟨hka, hkb⟩

end Data

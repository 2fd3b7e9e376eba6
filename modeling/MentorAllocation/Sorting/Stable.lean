import Mathlib.Data.List.Sort

namespace Sorting
variable {κ α β : Type} [LinearOrder κ]

def ByKey (a b : κ × α) : Prop := a.1 ≤ b.1

instance : DecidableRel (ByKey : κ × α → κ × α → Prop) :=
  fun a b => inferInstanceAs (Decidable (a.1 ≤ b.1))

instance : Std.Total (ByKey : κ × α → κ × α → Prop) := ⟨fun a b => le_total a.1 b.1⟩

instance : IsTrans (κ × α) ByKey := ⟨fun _ _ _ => le_trans⟩

def stableSort (l : List (κ × α)) : List (κ × α) := l.insertionSort ByKey

/-- What a stable sort makes of its input: the same entries, in order of their keys,
those of one key in the order of the input. -/
structure StableSorted (input output : List (κ × α)) : Prop where
  perm : output.Perm input
  sorted : output.Pairwise ByKey
  stable : ∀ k, output.filter (fun a => decide (a.1 = k)) =
    input.filter (fun a => decide (a.1 = k))

theorem filter_orderedInsert (k : κ) (a : κ × α) (l : List (κ × α)) :
    (l.orderedInsert ByKey a).filter (fun b => decide (b.1 = k)) =
      (a :: l).filter (fun b => decide (b.1 = k)) := by
  induction l with
  | nil => rfl
  | cons b l ih =>
    by_cases hab : ByKey a b
    · rw [List.orderedInsert_cons_of_le _ _ hab]
    · rw [List.orderedInsert_of_not_le _ _ hab]
      by_cases hb : b.1 = k
      · have ha : a.1 ≠ k := by
          rintro rfl
          exact hab (le_of_eq hb.symm)
        simp only [List.filter_cons, ih, hb, ha, decide_true, decide_false, if_true,
          Bool.false_eq_true, if_false]
      · simp only [List.filter_cons, ih, hb, decide_false, Bool.false_eq_true, if_false]

theorem stableSort_perm (l : List (κ × α)) : (stableSort l).Perm l := List.perm_insertionSort _ l

theorem stableSorted_stableSort (l : List (κ × α)) : StableSorted l (stableSort l) where
  perm := stableSort_perm l
  sorted := List.pairwise_insertionSort _ l
  stable := by
    intro k
    induction l with
    | nil => rfl
    | cons a l ih =>
      simp only [stableSort, List.insertionSort_cons, filter_orderedInsert]
      simp only [List.filter_cons]
      rw [← ih]
      rfl

/-- The first of the sorted entries is one of least key. -/
theorem head?_stableSort {l : List (κ × α)} {a : κ × α} (h : (stableSort l).head? = some a) :
    a ∈ l ∧ ∀ b ∈ l, a.1 ≤ b.1 := by
  obtain ⟨rest, hsort⟩ := List.head?_eq_some_iff.mp h
  have hsorted := (stableSorted_stableSort l).sorted
  rw [hsort, List.pairwise_cons] at hsorted
  have hmem : ∀ b, b ∈ l ↔ b = a ∨ b ∈ rest := by
    intro b
    rw [← (stableSort_perm l).mem_iff, hsort, List.mem_cons]
  refine ⟨(hmem a).mpr (Or.inl rfl), fun b hb => ?_⟩
  rcases (hmem b).mp hb with rfl | hrest
  · exact le_refl _
  · exact hsorted.1 b hrest

/-- `sorted(l, key=key)`. -/
def sortedBy (key : α → κ) (l : List α) : List α :=
  (stableSort (l.map fun a => (key a, a))).map Prod.snd

theorem sortedBy_perm (key : α → κ) (l : List α) : (sortedBy key l).Perm l := by
  have h := (stableSort_perm (l.map fun a => (key a, a))).map Prod.snd
  rwa [List.map_map, show Prod.snd ∘ (fun a => (key a, a)) = id from rfl, List.map_id] at h

theorem sortedBy_pairwise (key : α → κ) (l : List α) :
    (sortedBy key l).Pairwise fun a b => key a ≤ key b := by
  have hkey : ∀ e ∈ stableSort (l.map fun a => (key a, a)), e.1 = key e.2 := by
    intro e he
    obtain ⟨a, -, rfl⟩ := List.mem_map.mp ((stableSort_perm _).mem_iff.mp he)
    rfl
  refine List.pairwise_map.mpr ?_
  refine (stableSorted_stableSort (l.map fun a => (key a, a))).sorted.imp_of_mem ?_
  intro e f he hf hle
  rw [← hkey e he, ← hkey f hf]
  exact hle

/-- A list in order of its keys is known by its entries of each key. -/
theorem eq_of_filters {l m : List (κ × α)} (hl : l.Pairwise ByKey)
    (hm : m.Pairwise ByKey)
    (h : ∀ k, l.filter (fun a => decide (a.1 = k)) = m.filter (fun a => decide (a.1 = k))) :
    l = m := by
  induction l generalizing m with
  | nil =>
    cases m with
    | nil => rfl
    | cons b m => simpa using h b.1
  | cons a l ih =>
    cases m with
    | nil => simpa using h a.1
    | cons b m' =>
      have hmem : ∀ c, c ∈ a :: l ↔ c ∈ b :: m' := by
        intro c
        have := congrArg (c ∈ ·) (h c.1)
        simpa using this
      obtain ⟨ha, hl⟩ := List.pairwise_cons.mp hl
      obtain ⟨hb, hm'⟩ := List.pairwise_cons.mp hm
      have hab : a.1 = b.1 := by
        apply le_antisymm
        · rcases List.mem_cons.mp ((hmem b).mpr List.mem_cons_self) with he | hin
          · exact le_of_eq (congrArg Prod.fst he.symm)
          · exact ha b hin
        · rcases List.mem_cons.mp ((hmem a).mp List.mem_cons_self) with he | hin
          · exact le_of_eq (congrArg Prod.fst he.symm)
          · exact hb a hin
      have hhead := h a.1
      simp only [List.filter_cons, hab, decide_true, if_true] at hhead
      obtain ⟨rfl, _⟩ := List.cons.inj hhead
      have htail : ∀ k, l.filter (fun a => decide (a.1 = k)) =
          m'.filter (fun a => decide (a.1 = k)) := by
        intro k
        have hk := h k
        simp only [List.filter_cons] at hk
        split at hk
        · exact (List.cons.inj hk).2
        · exact hk
      rw [ih hl hm' htail]

/-- There is one stable sort. -/
theorem StableSorted.unique {input l m : List (κ × α)} (hl : StableSorted input l)
    (hm : StableSorted input m) : l = m :=
  eq_of_filters hl.sorted hm.sorted fun k => (hl.stable k).trans (hm.stable k).symm

/-- What an entry carries plays no part in sorting it. -/
theorem stableSort_map (f : α → β) (l : List (κ × α)) :
    stableSort (l.map (Prod.map id f)) = (stableSort l).map (Prod.map id f) :=
  (List.map_insertionSort _ _ (Prod.map id f) l fun _ _ _ _ => Iff.rfl).symm

/-- A filter may come before the sorting or after it. -/
theorem sortedBy_filter (key : α → κ) (p : α → Bool) (l : List α) :
    (sortedBy key l).filter p = sortedBy key (l.filter p) := by
  have hsorted := stableSorted_stableSort (l.map fun a => (key a, a))
  have hfiltered : StableSorted ((l.map fun a => (key a, a)).filter (p ∘ Prod.snd))
      ((stableSort (l.map fun a => (key a, a))).filter (p ∘ Prod.snd)) := by
    refine ⟨hsorted.perm.filter _, hsorted.sorted.sublist List.filter_sublist, fun k => ?_⟩
    rw [List.filter_comm, hsorted.stable k, List.filter_comm]
  rw [sortedBy, sortedBy, List.filter_map,
    hfiltered.unique (stableSorted_stableSort _), List.filter_map]
  rfl

theorem sortedBy_of_pairwise {key : α → κ} {l : List α}
    (h : l.Pairwise fun a b => key a ≤ key b) : sortedBy key l = l := by
  have hpairs : (l.map fun a => (key a, a)).Pairwise ByKey := List.pairwise_map.mpr h
  rw [sortedBy, stableSort, hpairs.insertionSort_eq, List.map_map]
  exact List.map_id l

/-- Images are sorted as what they are images of. -/
theorem sortedBy_map (key : β → κ) (f : α → β) (l : List α) :
    sortedBy key (l.map f) = (sortedBy (key ∘ f) l).map f := by
  have hmap : ((l.map f).map fun b => (key b, b)) =
      (l.map fun a => ((key ∘ f) a, a)).map (Prod.map id f) := by
    rw [List.map_map, List.map_map]
    rfl
  rw [sortedBy, hmap, stableSort_map, sortedBy, List.map_map, List.map_map]
  rfl

/-- Numbered entries: by key, and by number among those of one key. -/
def Before (a b : κ × (Nat × α)) : Prop := a.1 < b.1 ∨ (a.1 = b.1 ∧ a.2.1 < b.2.1)

theorem Before.le {a b : κ × (Nat × α)} (h : Before a b) : a.1 ≤ b.1 := by
  rcases h with h | ⟨h, _⟩
  · exact h.le
  · exact h.le

theorem Before.asymm {a b : κ × (Nat × α)} (hab : Before a b) (hba : Before b a) : False := by
  rcases hab with h | ⟨h, hn⟩ <;> rcases hba with k | ⟨k, kn⟩
  · exact lt_asymm h k
  · exact (ne_of_gt h) k
  · exact (ne_of_gt k) h
  · omega

theorem Before.trans_le {a b c : κ × (Nat × α)} (hab : a.1 < b.1) (hbc : b.1 ≤ c.1) :
    Before a c := .inl (hab.trans_le hbc)

/-- Two orderings of the same numbered entries are equal. -/
theorem eq_of_before {l m : List (κ × (Nat × α))} (hl : l.Pairwise Before)
    (hm : m.Pairwise Before) (h : l.Perm m) : l = m :=
  h.eq_of_pairwise (fun _ _ _ _ hab hba => (hab.asymm hba).elim) hl hm

/-- Entries numbered in the order of the input are sorted by key and number. -/
theorem stableSort_before {l : List (κ × (Nat × α))} (h : l.Pairwise (fun a b => a.2.1 < b.2.1)) :
    (stableSort l).Pairwise Before := by
  induction l with
  | nil => exact List.Pairwise.nil
  | cons a l ih =>
    obtain ⟨ha, hl⟩ := List.pairwise_cons.mp h
    have hmem : ∀ b ∈ stableSort l, a.2.1 < b.2.1 :=
      fun b hb => ha b ((stableSort_perm l).mem_iff.mp hb)
    have hsorted := ih hl
    change ((stableSort l).orderedInsert ByKey a).Pairwise Before
    generalize stableSort l = m at hmem hsorted
    induction m with
    | nil => exact List.pairwise_singleton _ _
    | cons b m ihm =>
      obtain ⟨hb, hm⟩ := List.pairwise_cons.mp hsorted
      by_cases hab : ByKey a b
      · rw [List.orderedInsert_cons_of_le _ _ hab]
        refine List.pairwise_cons.mpr ⟨fun c hc => ?_, hsorted⟩
        have hac : a.1 ≤ c.1 := by
          rcases List.mem_cons.mp hc with rfl | hc
          · exact hab
          · exact hab.trans (hb c hc).le
        rcases lt_or_eq_of_le hac with hlt | heq
        · exact .inl hlt
        · exact .inr ⟨heq, hmem c hc⟩
      · rw [List.orderedInsert_of_not_le _ _ hab]
        refine List.pairwise_cons.mpr ⟨fun c hc => ?_, ihm ?_ hm⟩
        · rcases (List.mem_orderedInsert _).mp hc with rfl | hc
          · exact .inl (lt_of_not_ge hab)
          · exact hb c hc
        · exact fun c hc => hmem c (List.mem_cons_of_mem b hc)

end Sorting

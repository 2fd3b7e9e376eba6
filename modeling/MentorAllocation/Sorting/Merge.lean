import MentorAllocation.Sorting.Stable

namespace Sorting
variable {κ α β : Type} [LinearOrder κ]

/-- A source in the middle of being read: its place among the sources, the entry it
shows and those behind it. -/
structure Source (κ α : Type) where
  index : Nat
  head : κ × α
  rest : List (κ × α)

namespace Source

/-- The order of the heap: by the key shown, sources that show one key by their place. -/
def Le (s t : Source κ α) : Prop :=
  s.head.1 < t.head.1 ∨ (s.head.1 = t.head.1 ∧ s.index ≤ t.index)

instance : DecidableRel (Le : Source κ α → Source κ α → Prop) :=
  fun s t => inferInstanceAs
    (Decidable (s.head.1 < t.head.1 ∨ (s.head.1 = t.head.1 ∧ s.index ≤ t.index)))

instance : Std.Total (Le : Source κ α → Source κ α → Prop) := ⟨by
  intro s t
  rcases lt_trichotomy s.head.1 t.head.1 with h | h | h
  · exact .inl (.inl h)
  · rcases Nat.le_total s.index t.index with hi | hi
    · exact .inl (.inr ⟨h, hi⟩)
    · exact .inr (.inr ⟨h.symm, hi⟩)
  · exact .inr (.inl h)⟩

instance : IsTrans (Source κ α) Le := ⟨by
  rintro s t u (h | ⟨h, hi⟩) (k | ⟨k, ki⟩)
  · exact .inl (h.trans k)
  · exact .inl (k ▸ h)
  · exact .inl (h ▸ k)
  · exact .inr ⟨h.trans k, hi.trans ki⟩⟩

def entries (s : Source κ α) : List (κ × α) := s.head :: s.rest

def ofList (index : Nat) : List (κ × α) → Option (Source κ α)
  | [] => none
  | e :: rest => some ⟨index, e, rest⟩

/-- The source once its head is taken, unless that was its last entry. -/
def advance (s : Source κ α) : Option (Source κ α) := ofList s.index s.rest

def map (f : α → β) (s : Source κ α) : Source κ β :=
  ⟨s.index, s.head.map id f, s.rest.map (Prod.map id f)⟩

end Source

def push (s : Option (Source κ α)) (heap : List (Source κ α)) : List (Source κ α) :=
  match s with
  | none => heap
  | some s => heap.orderedInsert Source.Le s

/-- The sources that have an entry, each under its place among all of them. -/
def openAll (index : Nat) : List (List (κ × α)) → List (Source κ α)
  | [] => []
  | l :: ls => (Source.ofList index l).toList ++ openAll (index + 1) ls

/-- Taking the least head again and again; the heap is kept in order. -/
def mergeLoop : Nat → List (Source κ α) → List (κ × α)
  | 0, _ => []
  | _ + 1, [] => []
  | n + 1, s :: heap => s.head :: mergeLoop n (push s.advance heap)

/-- Merging sources through a heap of their heads. -/
def merge (sources : List (List (κ × α))) : List (κ × α) :=
  mergeLoop sources.flatten.length ((openAll 0 sources).insertionSort Source.Le)

section
variable {s t : Source κ (Nat × α)} {heap : List (Source κ (Nat × α))}

def remaining (heap : List (Source κ α)) : List (κ × α) := heap.flatMap Source.entries

/-- All numbers of one source are below all numbers of the other, as their places are. -/
def Apart (s t : Source κ (Nat × α)) : Prop :=
  (s.index < t.index ∧ ∀ a ∈ s.entries, ∀ b ∈ t.entries, a.2.1 < b.2.1) ∨
    (t.index < s.index ∧ ∀ a ∈ s.entries, ∀ b ∈ t.entries, b.2.1 < a.2.1)

omit [LinearOrder κ] in
theorem Apart.symm (h : Apart s t) : Apart t s := by
  rcases h with ⟨hi, h⟩ | ⟨hi, h⟩
  · exact .inr ⟨hi, fun a ha b hb => h b hb a ha⟩
  · exact .inl ⟨hi, fun a ha b hb => h b hb a ha⟩

/-- A heap over sources that are each in order and whose numbers do not overlap. -/
structure Mergeable (heap : List (Source κ (Nat × α))) : Prop where
  sorted : heap.Pairwise Source.Le
  inner : ∀ s ∈ heap, s.entries.Pairwise Before
  apart : heap.Pairwise Apart

/-- The least head comes before everything that is left. -/
theorem Mergeable.head_before (h : Mergeable (s :: heap)) :
    ∀ b ∈ s.rest ++ remaining heap, Before s.head b := by
  intro b hb
  rcases List.mem_append.mp hb with hb | hb
  · exact (List.pairwise_cons.mp (h.inner s List.mem_cons_self)).1 b hb
  · obtain ⟨t, ht, hbt⟩ := List.mem_flatMap.mp hb
    have hle := (List.pairwise_cons.mp h.sorted).1 t ht
    have hapart := (List.pairwise_cons.mp h.apart).1 t ht
    have hinner := h.inner t (List.mem_cons_of_mem s ht)
    have hkey : t.head.1 ≤ b.1 := by
      rcases List.mem_cons.mp hbt with rfl | hbt
      · exact le_refl _
      · exact ((List.pairwise_cons.mp hinner).1 b hbt).le
    rcases hle with hlt | ⟨heq, hi⟩
    · exact .trans_le hlt hkey
    · rcases hapart with ⟨_, hn⟩ | ⟨hlt, _⟩
      · rcases lt_or_eq_of_le hkey with hlt | heq'
        · exact .inl (heq ▸ hlt)
        · exact .inr ⟨heq.trans heq', hn s.head List.mem_cons_self b hbt⟩
      · omega

theorem remaining_push (s : Source κ α) (heap : List (Source κ α)) :
    (remaining (push s.advance heap)).Perm (s.rest ++ remaining heap) := by
  rcases s with ⟨i, e, rest⟩
  cases rest with
  | nil => exact List.Perm.refl _
  | cons e' rest => exact (List.perm_orderedInsert Source.Le _ heap).flatMap_right Source.entries

theorem Mergeable.push (h : Mergeable (s :: heap)) : Mergeable (push s.advance heap) := by
  have hsorted := (List.pairwise_cons.mp h.sorted).2
  obtain ⟨hapart, hrest⟩ := List.pairwise_cons.mp h.apart
  have hin := fun t ht => h.inner t (List.mem_cons_of_mem s ht)
  have hinner := h.inner s List.mem_cons_self
  rcases s with ⟨i, e, rest⟩
  cases rest with
  | nil => exact ⟨hsorted, hin, hrest⟩
  | cons e' rest =>
    have hsub : ∀ a ∈ (⟨i, e', rest⟩ : Source κ (Nat × α)).entries, a ∈ e :: e' :: rest :=
      fun a ha => List.mem_cons_of_mem e ha
    refine ⟨List.Pairwise.orderedInsert _ _ hsorted, fun t ht => ?_, ?_⟩
    · rcases (List.mem_orderedInsert _).mp ht with rfl | ht
      · exact (List.pairwise_cons.mp hinner).2
      · exact hin t ht
    · refine ((List.perm_orderedInsert Source.Le _ heap).pairwise_iff Apart.symm).mpr ?_
      refine List.pairwise_cons.mpr ⟨fun t ht => ?_, hrest⟩
      rcases hapart t ht with ⟨hi, hn⟩ | ⟨hi, hn⟩
      · exact .inl ⟨hi, fun a ha => hn a (hsub a ha)⟩
      · exact .inr ⟨hi, fun a ha => hn a (hsub a ha)⟩

/-- The loop gives back every entry, in order of key and number. -/
theorem Mergeable.loop {n : Nat} (h : Mergeable heap) (hn : (remaining heap).length ≤ n) :
    (mergeLoop n heap).Perm (remaining heap) ∧ (mergeLoop n heap).Pairwise Before := by
  induction n generalizing heap with
  | zero =>
    have hnil : remaining heap = [] := List.length_eq_zero_iff.mp (Nat.le_zero.mp hn)
    rw [hnil]
    exact ⟨List.Perm.refl _, List.Pairwise.nil⟩
  | succ n ih =>
    cases heap with
    | nil => exact ⟨List.Perm.refl _, List.Pairwise.nil⟩
    | cons s heap =>
      have hperm := remaining_push s heap
      have hlen : (remaining (Sorting.push s.advance heap)).length ≤ n := by
        rw [hperm.length_eq]
        simp only [remaining, List.flatMap_cons, Source.entries, List.cons_append,
          List.length_cons] at hn
        simp only [remaining]
        omega
      obtain ⟨hp, hb⟩ := ih h.push hlen
      refine ⟨(hp.trans hperm).cons s.head, List.pairwise_cons.mpr ⟨fun b hm => ?_, hb⟩⟩
      exact h.head_before b ((hp.trans hperm).mem_iff.mp hm)

end

omit [LinearOrder κ] in
theorem remaining_openAll (i : Nat) (ls : List (List (κ × α))) :
    remaining (openAll i ls) = ls.flatten := by
  induction ls generalizing i with
  | nil => rfl
  | cons l ls ih =>
    simp only [openAll, remaining, List.flatMap_append, List.flatten_cons]
    rw [← ih (i + 1)]
    cases l <;> simp [Source.ofList, Source.entries, remaining]

omit [LinearOrder κ] in
theorem openAll_index {i : Nat} {ls : List (List (κ × α))} {s : Source κ α}
    (h : s ∈ openAll i ls) : i ≤ s.index ∧ s.entries ∈ ls := by
  induction ls generalizing i with
  | nil => simp [openAll] at h
  | cons l ls ih =>
    rcases List.mem_append.mp h with h | h
    · cases l with
      | nil => simp [Source.ofList] at h
      | cons e rest =>
        simp only [Source.ofList, Option.toList_some, List.mem_singleton] at h
        subst h
        exact ⟨Nat.le_refl i, List.mem_cons_self⟩
    · obtain ⟨hi, hm⟩ := ih h
      exact ⟨by omega, List.mem_cons_of_mem l hm⟩

/-- Sources of numbered entries, each in order, numbered one source after the other. -/
theorem mergeable_openAll {ls : List (List (κ × (Nat × α)))}
    (hinner : ∀ l ∈ ls, l.Pairwise Before)
    (hapart : ls.Pairwise (fun l m => ∀ a ∈ l, ∀ b ∈ m, a.2.1 < b.2.1)) :
    Mergeable ((openAll 0 ls).insertionSort Source.Le) where
  sorted := List.pairwise_insertionSort _ _
  inner s hs := hinner _ (openAll_index ((List.mem_insertionSort _).mp hs)).2
  apart := by
    refine ((List.perm_insertionSort _ _).pairwise_iff Apart.symm).mpr ?_
    generalize 0 = i
    clear hinner
    induction ls generalizing i with
    | nil => exact List.Pairwise.nil
    | cons l ls ih =>
      obtain ⟨hl, hls⟩ := List.pairwise_cons.mp hapart
      cases l with
      | nil => exact ih hls (i + 1)
      | cons e rest =>
        refine List.pairwise_cons.mpr ⟨fun t ht => .inl ?_, ih hls (i + 1)⟩
        obtain ⟨hi, hm⟩ := openAll_index ht
        exact ⟨hi, fun a ha b hb => hl _ hm a ha b hb⟩

def number (n : Nat) : List (List (κ × α)) → List (List (κ × (Nat × α)))
  | [] => []
  | l :: ls => (l.zipIdx n).map (fun e => (e.1.1, (e.2, e.1.2))) :: number (n + l.length) ls

omit [LinearOrder κ] in
theorem number_erase (n : Nat) (ls : List (List (κ × α))) :
    (number n ls).map (List.map (Prod.map id Prod.snd)) = ls := by
  induction ls generalizing n with
  | nil => rfl
  | cons l ls ih =>
    simp only [number, List.map_cons, ih, List.map_map, List.cons.injEq, and_true]
    exact (List.map_congr_left fun _ _ => rfl).trans (List.zipIdx_map_fst n l)

omit [LinearOrder κ] in
theorem number_flatten (n : Nat) (ls : List (List (κ × α))) :
    (number n ls).flatten = (ls.flatten.zipIdx n).map (fun e => (e.1.1, (e.2, e.1.2))) := by
  induction ls generalizing n with
  | nil => rfl
  | cons l ls ih =>
    simp only [number, List.flatten_cons, ih, List.zipIdx_append, List.map_append]

omit [LinearOrder κ] in
theorem number_increasing (n : Nat) (ls : List (List (κ × α))) :
    (number n ls).flatten.Pairwise (fun a b => a.2.1 < b.2.1) := by
  rw [number_flatten, List.pairwise_map]
  have h : (List.range' n ls.flatten.length).Pairwise (· < ·) := List.pairwise_lt_range'
  rw [← List.zipIdx_map_snd, List.pairwise_map] at h
  exact h

theorem push_map (f : α → β) (s : Source κ α) (heap : List (Source κ α)) :
    push (s.map f).advance (heap.map (Source.map f)) =
      (push s.advance heap).map (Source.map f) := by
  rcases s with ⟨i, e, rest⟩
  cases rest with
  | nil => rfl
  | cons e' rest =>
    exact (List.map_orderedInsert Source.Le Source.Le (Source.map f) heap ⟨i, e', rest⟩
      (fun _ _ => Iff.rfl) (fun _ _ => Iff.rfl)).symm

theorem mergeLoop_map (f : α → β) (n : Nat) (heap : List (Source κ α)) :
    mergeLoop n (heap.map (Source.map f)) = (mergeLoop n heap).map (Prod.map id f) := by
  induction n generalizing heap with
  | zero => rfl
  | succ n ih =>
    cases heap with
    | nil => rfl
    | cons s heap =>
      simp only [List.map_cons, mergeLoop, push_map, ih]
      rfl

omit [LinearOrder κ] in
theorem openAll_map (f : α → β) (i : Nat) (ls : List (List (κ × α))) :
    openAll i (ls.map (List.map (Prod.map id f))) = (openAll i ls).map (Source.map f) := by
  induction ls generalizing i with
  | nil => rfl
  | cons l ls ih =>
    simp only [List.map_cons, openAll, ih, List.map_append]
    cases l <;> rfl

/-- What the entries carry plays no part in merging them. -/
theorem merge_map (f : α → β) (ls : List (List (κ × α))) :
    merge (ls.map (List.map (Prod.map id f))) = (merge ls).map (Prod.map id f) := by
  have hlen : (ls.map (List.map (Prod.map id f))).flatten.length = ls.flatten.length := by
    rw [← List.map_flatten, List.length_map]
  rw [merge, merge, openAll_map, hlen, ← mergeLoop_map]
  congr 1
  exact (List.map_insertionSort _ _ (Source.map f) _ fun _ _ _ _ => Iff.rfl).symm

/-- Merging stably sorted pieces sorts the whole stably. -/
theorem merge_stableSort (ls : List (List (κ × α))) :
    merge (ls.map stableSort) = stableSort ls.flatten := by
  have hincr := number_increasing 0 ls
  obtain ⟨hinner, hapart⟩ := List.pairwise_flatten.mp hincr
  have hmem : ∀ l ∈ (number 0 ls).map stableSort, l.Pairwise Before := by
    intro l hl
    obtain ⟨m, hm, rfl⟩ := List.mem_map.mp hl
    exact stableSort_before (hinner m hm)
  have hapart' : ((number 0 ls).map stableSort).Pairwise
      (fun l m => ∀ a ∈ l, ∀ b ∈ m, a.2.1 < b.2.1) := by
    refine List.pairwise_map.mpr (hapart.imp fun h a ha b hb => ?_)
    exact h a ((stableSort_perm _).mem_iff.mp ha) b ((stableSort_perm _).mem_iff.mp hb)
  have hrem : (remaining ((openAll 0 ((number 0 ls).map stableSort)).insertionSort
      Source.Le)).Perm ((number 0 ls).map stableSort).flatten := by
    rw [← remaining_openAll 0]
    exact (List.perm_insertionSort _ _).flatMap_right Source.entries
  obtain ⟨hperm, hbefore⟩ := (mergeable_openAll hmem hapart').loop (Nat.le_of_eq hrem.length_eq)
  have hflat : ((number 0 ls).map stableSort).flatten.Perm (number 0 ls).flatten := by
    generalize number 0 ls = m
    induction m with
    | nil => exact List.Perm.refl _
    | cons l m ih => exact (stableSort_perm l).append ih
  have hsame : merge ((number 0 ls).map stableSort) = stableSort (number 0 ls).flatten :=
    eq_of_before hbefore (stableSort_before hincr)
      ((hperm.trans hrem).trans (hflat.trans (stableSort_perm _).symm))
  have herase := congrArg (List.map (Prod.map id Prod.snd)) hsame
  rw [← merge_map, ← stableSort_map, List.map_map, List.map_flatten, number_erase] at herase
  rw [← herase]
  congr 1
  conv_lhs => rw [← number_erase 0 ls, List.map_map]
  exact List.map_congr_left fun l _ => stableSort_map Prod.snd l

end Sorting

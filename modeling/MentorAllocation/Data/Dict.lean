import Mathlib.Data.List.Dedup

namespace Data

/-- Setting a key: in its place when it is there, else at the end. -/
def upsert {κ α : Type} [DecidableEq κ] (k : κ) (a : α) : List (κ × α) → List (κ × α)
  | [] => [(k, a)]
  | e :: rest => if e.1 = k then (k, a) :: rest else e :: upsert k a rest

section
variable {κ α : Type} [DecidableEq κ]

theorem lookup_cons_ite (k : κ) (a : α) (l : List (κ × α)) (q : κ) :
    ((k, a) :: l).lookup q = if q = k then some a else l.lookup q := by
  by_cases hq : q = k
  · simp [hq]
  · have hb : (q == k) = false := beq_eq_false_iff_ne.mpr hq
    simp [List.lookup_cons, hq, hb]

theorem map_fst_upsert (k : κ) (a : α) (l : List (κ × α)) : (upsert k a l).map Prod.fst =
    if k ∈ l.map Prod.fst then l.map Prod.fst else l.map Prod.fst ++ [k] := by
  induction l with
  | nil => simp [upsert]
  | cons e rest ih =>
    by_cases he : e.1 = k
    · simp [upsert, he]
    · simp only [upsert, he, if_false, List.map_cons, ih, List.mem_cons, Ne.symm he, false_or]
      split <;> rfl

theorem nodup_upsert {l : List (κ × α)} (h : (l.map Prod.fst).Nodup) (k : κ) (a : α) :
    ((upsert k a l).map Prod.fst).Nodup := by
  rw [map_fst_upsert]
  split
  · exact h
  · next hk =>
    exact List.nodup_append.mpr ⟨h, List.nodup_singleton k,
      fun x hx y hy hxy => hk (List.mem_singleton.mp hy ▸ hxy ▸ hx)⟩

theorem lookup_upsert (k : κ) (a : α) (l : List (κ × α)) (q : κ) :
    (upsert k a l).lookup q = if q = k then some a else l.lookup q := by
  induction l with
  | nil => simp [upsert, lookup_cons_ite]
  | cons e rest ih =>
    obtain ⟨k', a'⟩ := e
    by_cases he : k' = k
    · subst he
      simp only [upsert, if_true, lookup_cons_ite]
      split <;> rfl
    · simp only [upsert, he, if_false, lookup_cons_ite, ih]
      by_cases hq : q = k'
      · simp [hq, he]
      · simp [hq]

theorem lookup_map {β : Type} (g : α → β) (l : List (κ × α)) (q : κ) :
    (l.map fun e => (e.1, g e.2)).lookup q = (l.lookup q).map g := by
  induction l with
  | nil => rfl
  | cons e rest ih =>
    rw [List.map_cons, lookup_cons_ite, lookup_cons_ite, ih]
    split <;> rfl

theorem mem_iff_lookup {l : List (κ × α)} (hn : (l.map Prod.fst).Nodup) (k : κ) (a : α) :
    (k, a) ∈ l ↔ l.lookup k = some a := by
  induction l with
  | nil => simp
  | cons e rest ih =>
    obtain ⟨k', a'⟩ := e
    simp only [List.map_cons, List.nodup_cons] at hn
    simp only [List.mem_cons, Prod.mk.injEq, lookup_cons_ite]
    by_cases hk : k = k'
    · subst hk
      have hnot : (k, a) ∉ rest := fun h => hn.1 (List.mem_map_of_mem (f := Prod.fst) h)
      simp [hnot, eq_comm]
    · simp [hk, ih hn.2]

theorem lookup_perm {l l' : List (κ × α)} (h : l.Perm l') (hn : (l.map Prod.fst).Nodup) (k : κ) :
    l.lookup k = l'.lookup k := by
  have hn' : (l'.map Prod.fst).Nodup := (h.map Prod.fst).nodup_iff.mp hn
  refine Option.ext fun a => ?_
  rw [← mem_iff_lookup hn, ← mem_iff_lookup hn', h.mem_iff]

end

/-- A dictionary that keeps its keys in the order in which they first came. -/
structure Dict (κ α : Type) [DecidableEq κ] where
  entries : List (κ × α)
  nodup : (entries.map Prod.fst).Nodup

namespace Dict
variable {κ α : Type} [DecidableEq κ] {d : Dict κ α} {k q : κ} {a b : α}

def empty : Dict κ α := ⟨[], List.nodup_nil⟩

def get? (d : Dict κ α) (k : κ) : Option α := d.entries.lookup k

def set (d : Dict κ α) (k : κ) (a : α) : Dict κ α where
  entries := upsert k a d.entries
  nodup := nodup_upsert d.nodup k a

def keys (d : Dict κ α) : List κ := d.entries.map Prod.fst

def values (d : Dict κ α) : List α := d.entries.map Prod.snd

def filterKeys (d : Dict κ α) (p : κ → Bool) : Dict κ α :=
  ⟨d.entries.filter fun e => p e.1, (List.filter_sublist.map Prod.fst).nodup d.nodup⟩

def ofList (l : List (κ × α)) : Dict κ α := l.foldl (fun d e => d.set e.1 e.2) empty

theorem get?_set (d : Dict κ α) (k : κ) (a : α) (q : κ) :
    (d.set k a).get? q = if q = k then some a else d.get? q := lookup_upsert k a d.entries q

theorem mem_keys_set : q ∈ (d.set k a).keys ↔ q = k ∨ q ∈ d.keys := by
  simp only [keys, set, map_fst_upsert]
  split
  · next hk => exact ⟨.inr, fun h => h.elim (fun he => he ▸ hk) id⟩
  · simp [or_comm]

/-- A new key goes to the end. -/
theorem entries_set (h : k ∉ d.keys) : (d.set k a).entries = d.entries ++ [(k, a)] := by
  have hnew : ∀ l : List (κ × α), k ∉ l.map Prod.fst → upsert k a l = l ++ [(k, a)] := by
    intro l hl
    induction l with
    | nil => rfl
    | cons e rest ih =>
      rw [List.map_cons, List.mem_cons, not_or] at hl
      rw [upsert, if_neg (Ne.symm hl.1), ih hl.2, List.cons_append]
  exact hnew d.entries h

theorem mem_entries : (k, a) ∈ d.entries ↔ d.get? k = some a := mem_iff_lookup d.nodup k a

theorem mem_keys : k ∈ d.keys ↔ ∃ a, d.get? k = some a := by
  simp [keys, ← mem_entries]

theorem map_get?_keys (d : Dict κ α) (b : α) :
    d.keys.map (fun k => (d.get? k).getD b) = d.values := by
  rw [keys, values, List.map_map]
  refine List.map_congr_left fun e he => ?_
  rw [Function.comp_apply, mem_entries.mp he, Option.getD_some]

theorem mem_values : a ∈ d.values ↔ ∃ k, d.get? k = some a := by
  simp [values, ← mem_entries]

theorem get?_filterKeys (d : Dict κ α) (p : κ → Bool) (k : κ) :
    (d.filterKeys p).get? k = if p k = true then d.get? k else none := by
  apply Option.ext
  intro a
  rw [← mem_entries, filterKeys, List.mem_filter, mem_entries]
  cases hp : p k with
  | false => simp
  | true => simp

/-- The last pair of a key is the one that stays. -/
theorem get?_ofList (l : List (κ × α)) (k : κ) : (ofList l).get? k = l.reverse.lookup k := by
  suffices h : ∀ d : Dict κ α, (l.foldl (fun d e => d.set e.1 e.2) d).get? k =
      (l.reverse.lookup k).or (d.get? k) by simpa [ofList, empty, get?] using h empty
  induction l with
  | nil => simp
  | cons e rest ih =>
    intro d
    obtain ⟨k', a⟩ := e
    rw [List.foldl_cons, ih, get?_set, List.reverse_cons, List.lookup_append, Option.or_assoc,
      lookup_cons_ite]
    by_cases hk : k = k' <;> simp [hk]

/-- Where no key comes twice, the dictionary holds exactly the pairs. -/
theorem get?_ofList_iff {l : List (κ × α)} (hn : (l.map Prod.fst).Nodup) :
    (ofList l).get? k = some a ↔ (k, a) ∈ l := by
  have hreverse : (l.reverse.map Prod.fst).Nodup := by
    rw [List.map_reverse]
    exact List.nodup_reverse.mpr hn
  rw [get?_ofList, ← mem_iff_lookup hreverse, List.mem_reverse]

/-- Pairs with distinct keys are already a dictionary. -/
theorem entries_ofList {l : List (κ × α)} (hn : (l.map Prod.fst).Nodup) :
    (ofList l).entries = l := by
  suffices h : ∀ d : Dict κ α, ((d.entries ++ l).map Prod.fst).Nodup →
      (l.foldl (fun d e => d.set e.1 e.2) d).entries = d.entries ++ l from
    h empty hn
  induction l with
  | nil => simp
  | cons e rest ih =>
    intro d hd
    have hkey : e.1 ∉ d.keys := by
      rw [List.map_append, List.map_cons, List.nodup_append] at hd
      exact fun hmem => hd.2.2 e.1 hmem e.1 List.mem_cons_self rfl
    have hentries := entries_set (a := e.2) hkey
    rw [List.foldl_cons, ih (List.nodup_cons.mp hn).2, hentries, List.append_assoc,
      List.singleton_append]
    rw [hentries, List.append_assoc, List.singleton_append]
    exact hd

/-- The entries of a dictionary, set again with other values. -/
theorem get?_ofList_map {β : Type} (d : Dict κ α) (g : α → β) (k : κ) :
    (ofList (d.entries.map fun e => (e.1, g e.2))).get? k = (d.get? k).map g := by
  rw [get?_ofList, ← List.map_reverse, lookup_map]
  congr 1
  apply Option.ext
  intro a
  rw [← get?_ofList, get?_ofList_iff d.nodup, mem_entries]

/-- One value has the property when one key, and no other, has a value with it. -/
theorem countP_values {p : α → Bool} : d.values.countP p = 1 ↔
    ∃ k a, d.get? k = some a ∧ p a = true ∧
      ∀ k' a', d.get? k' = some a' → p a' = true → k' = k := by
  rw [values, List.countP_map, List.countP_eq_length_filter]
  have hmem : ∀ e, e ∈ d.entries.filter (p ∘ Prod.snd) ↔
      d.get? e.1 = some e.2 ∧ p e.2 = true := by
    intro e
    rw [List.mem_filter, ← mem_entries, Function.comp_apply]
  constructor
  · intro h
    obtain ⟨e, he⟩ := List.length_eq_one_iff.mp h
    rw [he] at hmem
    obtain ⟨hget, hp⟩ := (hmem e).mp (List.mem_singleton_self e)
    refine ⟨e.1, e.2, hget, hp, fun k' a' hget' hp' => ?_⟩
    rw [← List.mem_singleton.mp ((hmem (k', a')).mpr ⟨hget', hp'⟩)]
  · rintro ⟨k, a, hget, hp, honly⟩
    have hperm : (d.entries.filter (p ∘ Prod.snd)).Perm [(k, a)] := by
      refine (List.perm_ext_iff_of_nodup (d.nodup.of_map.filter _) (List.nodup_singleton _)).mpr ?_
      intro e
      rw [hmem, List.mem_singleton]
      constructor
      · rintro ⟨hget', hp'⟩
        obtain rfl := honly e.1 e.2 hget' hp'
        rw [hget, Option.some.injEq] at hget'
        rw [hget']
      · rintro rfl
        exact ⟨hget, hp⟩
    rw [hperm.length_eq, List.length_singleton]

/-- A dictionary has an entry for each of the different keys it knows. -/
theorem length_entries {l : List κ} (h : ∀ k, k ∈ d.keys ↔ k ∈ l) :
    d.entries.length = l.dedup.length := by
  have hkeys : d.entries.length = (d.entries.map Prod.fst).length := (List.length_map _).symm
  rw [hkeys]
  refine ((List.perm_ext_iff_of_nodup d.nodup (List.nodup_dedup l)).mpr ?_).length_eq
  intro k
  rw [List.mem_dedup]
  exact h k

/-- Adding an element to the group of a key adds it to the groups. -/
theorem flatten_values_set {β : Type} (d : Dict κ (List β)) (k : κ) (x : β) :
    ((d.set k ((d.get? k).getD [] ++ [x])).values.flatten).Perm (d.values.flatten ++ [x]) := by
  have hadd : ∀ l : List (κ × List β), ((upsert k ((l.lookup k).getD [] ++ [x]) l).map
      Prod.snd).flatten.Perm ((l.map Prod.snd).flatten ++ [x]) := by
    intro l
    induction l with
    | nil => simp [upsert]
    | cons e rest ih =>
      obtain ⟨key, group⟩ := e
      by_cases he : key = k
      · subst he
        simp only [upsert, if_true, lookup_cons_ite, Option.getD_some, List.map_cons,
          List.flatten_cons, List.append_assoc]
        exact List.perm_append_comm.append_left group
      · simp only [upsert, he, Ne.symm he, if_false, lookup_cons_ite, List.map_cons,
          List.flatten_cons, List.append_assoc]
        exact ih.append_left group
  exact hadd d.entries

end Dict

end Data

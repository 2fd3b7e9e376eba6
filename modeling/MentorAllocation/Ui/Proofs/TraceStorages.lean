import MentorAllocation.Ui.Proofs.TraceFile

namespace Ui.Storage
open Data Text

/-- What a storage looks up at once: a row by its index, or all the rows. -/
inductive Reading where
  | row (index : Nat)
  | all
  deriving DecidableEq, Repr

/-- What a request within range looks up in a storage of so many rows, in order. -/
def Request.readings (n : Nat) : Request → List Reading
  | .getRow index => [index.toNat].map .row
  | .page start size =>
    (List.range' start.toNat (min (start + size) n - start).toNat).map .row
  | .iterSelected => [.all]

/-- A request that asks for no row before the first or beyond the last. -/
def Request.InRange (n : Nat) : Request → Prop
  | .getRow index => 0 ≤ index ∧ index < n
  | .page start size => 0 ≤ start ∧ 0 ≤ size
  | .iterSelected => True

def rowsRead (readings : List Reading) : List Nat :=
  readings.filterMap fun
    | .row index => some index
    | .all => none

instance (n : Nat) : DecidablePred (Request.InRange n)
  | .getRow index => inferInstanceAs (Decidable (0 ≤ index ∧ index < n))
  | .page start size => inferInstanceAs (Decidable (0 ≤ start ∧ 0 ≤ size))
  | .iterSelected => inferInstanceAs (Decidable True)

section
variable (rows : List TraceViewerRow)

/-- The viewer was handed the row of an index. -/
def HandedOut (readings : List Reading) (i : Nat) : Prop :=
  .row i ∈ readings ∨ .all ∈ readings ∧ (rows[i]?.map (·.isSelected)).getD false = true

/-- A reading takes the row of an index from the file, and not from the cache. -/
def FromFile (readings : List Reading) (i : Nat) : Reading → Prop
  | .row index => index = i ∧ i ∉ recent cacheLimit (rowsRead readings)
  | .all => True

/-- No row is taken from the file once the viewer has it. -/
def NeverReread (readings : List Reading) : Prop :=
  ∀ before reading after, readings = before ++ reading :: after →
    ∀ i < rows.length, HandedOut rows before i → ¬ FromFile before i reading

end

section
variable {builtins : Builtins} {floatRepr : String → String} {rows : List TraceViewerRow}
  {before : List Reading} {f : TraceViewerStorage} {m : InMemoryStorage} {origins : List Nat}
  {i : Nat}

theorem handedOut_append {readings others : List Reading} : HandedOut rows (readings ++ others) i ↔
    HandedOut rows readings i ∨ HandedOut rows others i := by
  simp only [HandedOut, List.mem_append, or_and_right]
  constructor
  · rintro ((h | h) | h | h)
    · exact .inl (.inl h)
    · exact .inr (.inl h)
    · exact .inl (.inr h)
    · exact .inr (.inr h)
  · rintro ((h | h) | h | h)
    · exact .inl (.inl h)
    · exact .inr (.inl h)
    · exact .inl (.inr h)
    · exact .inr (.inr h)

theorem handedOut_rows {indices : List Nat} :
    HandedOut rows (indices.map .row) i ↔ i ∈ indices := by
  simp [HandedOut]

theorem handedOut_self {j : Nat} : HandedOut rows [.row i] j ↔ j = i := by
  simp [HandedOut]

theorem handedOut_all : HandedOut rows [.all] i ↔
    (rows[i]?.map (·.isSelected)).getD false = true := by
  simp [HandedOut]

theorem rowsRead_append (readings others : List Reading) :
    rowsRead (readings ++ others) = rowsRead readings ++ rowsRead others :=
  List.filterMap_append ..

/-- A file storage over the rows, whose cache knows the rows read last. -/
structure Filed (rows : List TraceViewerRow) (before : List Reading) (f : TraceViewerStorage) :
    Prop where
  opened : Opened rows f
  keys : f.cache.keys = recent cacheLimit (rowsRead before)

def TraceViewerStorage.recalled (f : TraceViewerStorage) (i : Nat) : TraceViewerStorage :=
  { f with cache := f.cache.moveToEnd i }

def TraceViewerStorage.loaded (f : TraceViewerStorage) (i : Nat) (row : TraceViewerRow) :
    TraceViewerStorage :=
  { f with
    objects := f.objects ++ [row]
    cache := f.cache.store cacheLimit i f.objects.length }

theorem Filed.recalled (h : Filed rows before f) (hi : i ∈ f.cache.keys) :
    Filed rows (before ++ [.row i]) (f.recalled i) := by
  refine ⟨⟨h.opened.file, h.opened.offsets⟩, ?_⟩
  rw [rowsRead_append]
  exact Dict.keys_moveToEnd h.keys hi

theorem Filed.loaded (h : Filed rows before f) (hi : i ∉ f.cache.keys) (row : TraceViewerRow) :
    Filed rows (before ++ [.row i]) (f.loaded i row) := by
  refine ⟨⟨h.opened.file, h.opened.offsets⟩, ?_⟩
  rw [rowsRead_append]
  exact Dict.keys_store (by decide) h.keys hi

/-- A row is found in the cache, where it was read lately, or else taken from the file. -/
theorem Filed.getRow (h : Filed rows before f) (builtins : Builtins)
    (hrows : ∀ row ∈ rows, Storable floatRepr row)
    (hi : i < rows.length) :
    (∃ object, f.cache.get? i = some object ∧ i ∈ f.cache.keys ∧
      f.getRow builtins floatRepr i = (.ok object, f.recalled i)) ∨
    i ∉ f.cache.keys ∧
      f.getRow builtins floatRepr i = (.ok f.objects.length, f.loaded i rows[i]) := by
  have hrange : ¬ ((i : Int) < 0 ∨ (f.offsets.length : Int) ≤ i) := by
    rw [h.opened.length]
    omega
  rw [TraceViewerStorage.getRow, if_neg hrange, Int.toNat_natCast]
  cases hcached : f.cache.get? i with
  | some object => exact .inl ⟨object, rfl, Dict.mem_keys.mpr ⟨object, hcached⟩, rfl⟩
  | none =>
    refine .inr ⟨?_, ?_⟩
    · intro hkey
      obtain ⟨object, hobject⟩ := Dict.mem_keys.mp hkey
      rw [hcached] at hobject
      cases hobject
    · dsimp only
      rw [h.opened.rowAt hrows, List.getElem?_eq_getElem hi]
      rfl

/-- The two storages after the same readings: `origins` tells of each row object of the file
storage which row it is. No row has two, so that each is as the row in memory now is; and a row
that was never handed out is still as it was written. -/
structure Agrees (rows : List TraceViewerRow) (before : List Reading) (origins : List Nat)
    (f : TraceViewerStorage) (m : InMemoryStorage) : Prop where
  filed : Filed rows before f
  length : m.rows.length = rows.length
  objects : f.objects.map some = origins.map (m.rows[·]?)
  nodup : origins.Nodup
  handed : ∀ i, i ∈ origins ↔ i < rows.length ∧ HandedOut rows before i
  cached : ∀ i object, f.cache.get? i = some object → origins[object]? = some i
  untouched : ∀ i, i ∉ origins → m.rows[i]? = rows[i]?

theorem Agrees.length_objects (h : Agrees rows before origins f m) :
    f.objects.length = origins.length := by
  simpa using congrArg List.length h.objects

/-- An object is as the row in memory now is. -/
theorem Agrees.object (h : Agrees rows before origins f m) {object : Nat}
    (hi : origins[object]? = some i) : f.objects[object]? = m.rows[i]? := by
  have hmap := congrArg (·[object]?) h.objects
  simp only [List.getElem?_map, hi, Option.map_some] at hmap
  cases hobject : f.objects[object]? with
  | none =>
    rw [hobject] at hmap
    cases hmap
  | some row =>
    rw [hobject, Option.map_some] at hmap
    exact Option.some.inj hmap

/-- A row that is read is the one object of its row, an old one or a new one. -/
theorem Agrees.getRow (h : Agrees rows before origins f m)
    (hrows : ∀ row ∈ rows, Storable floatRepr row) (hi : i < rows.length)
    (hfresh : HandedOut rows before i → ¬ FromFile before i (.row i)) :
    ∃ object f' origins', f.getRow builtins floatRepr i = (.ok object, f') ∧
      origins <+: origins' ∧ origins'[object]? = some i ∧
      Agrees rows (before ++ [.row i]) origins' f' m := by
  have hself : HandedOut rows [.row i] i := .inl List.mem_cons_self
  rcases h.filed.getRow builtins hrows hi with
    ⟨object, hcached, hkey, hget⟩ | ⟨hkey, hget⟩
  · have hplace := h.cached i object hcached
    refine ⟨object, _, origins, hget, List.prefix_rfl, hplace, h.filed.recalled hkey, h.length,
      h.objects, h.nodup, ?_, ?_, h.untouched⟩
    · intro j
      rw [h.handed, handedOut_append]
      refine ⟨fun hj => ⟨hj.1, .inl hj.2⟩, ?_⟩
      rintro ⟨hlt, hj | hj⟩
      · exact ⟨hlt, hj⟩
      · obtain rfl : j = i := handedOut_self.mp hj
        exact (h.handed j).mp (List.mem_of_getElem? hplace)
    · intro j object' hobject'
      rw [TraceViewerStorage.recalled, Dict.get?_moveToEnd] at hobject'
      exact h.cached j object' hobject'
  · have hnew : i ∉ origins := by
      intro hmem
      refine hfresh ((h.handed i).mp hmem).2 ⟨rfl, ?_⟩
      rw [← h.filed.keys]
      exact hkey
    have hplace : (origins ++ [i])[f.objects.length]? = some i := by
      rw [h.length_objects, List.getElem?_append_right (Nat.le_refl _), Nat.sub_self]
      rfl
    refine ⟨_, _, origins ++ [i], hget, List.prefix_append _ _, hplace, h.filed.loaded hkey _,
      h.length, ?_, ?_, ?_, ?_, ?_⟩
    · rw [TraceViewerStorage.loaded, List.map_append, h.objects, List.map_append,
        List.map_singleton, List.map_singleton, h.untouched i hnew, List.getElem?_eq_getElem hi]
    · exact h.nodup.append (List.nodup_singleton i) (List.disjoint_singleton.mpr hnew)
    · intro j
      rw [List.mem_append, List.mem_singleton, h.handed, handedOut_append]
      constructor
      · rintro (hj | rfl)
        · exact ⟨hj.1, .inl hj.2⟩
        · exact ⟨hi, .inr hself⟩
      · rintro ⟨hlt, hj | hj⟩
        · exact .inl ⟨hlt, hj⟩
        · exact .inr (handedOut_self.mp hj)
    · intro j object hobject
      rcases Dict.get?_store hobject with ⟨rfl, rfl⟩ | hold
      · exact hplace
      · have hcache := h.cached j object hold
        rw [List.getElem?_append_left (List.getElem?_eq_some_iff.mp hcache).1]
        exact hcache
    · exact fun j hj => h.untouched j fun hmem => hj (List.mem_append_left _ hmem)

/-- Rows read one after the other. -/
theorem Agrees.getRows (h : Agrees rows before origins f m)
    (hrows : ∀ row ∈ rows, Storable floatRepr row) {indices : List Nat}
    (hindices : ∀ i ∈ indices, i < rows.length)
    (hfresh : ∀ front i back, indices = front ++ i :: back →
      HandedOut rows (before ++ front.map .row) i →
        ¬ FromFile (before ++ front.map .row) i (.row i)) :
    ∃ objects f' origins', f.getRows builtins floatRepr indices = (.ok objects, f') ∧
      origins <+: origins' ∧ objects.map (origins'[·]?) = indices.map some ∧
      Agrees rows (before ++ indices.map .row) origins' f' m := by
  induction indices generalizing before f origins with
  | nil =>
    refine ⟨[], f, origins, rfl, List.prefix_rfl, rfl, ?_⟩
    rw [List.map_nil, List.append_nil]
    exact h
  | cons i indices ih =>
    obtain ⟨hi, hrest⟩ := List.forall_mem_cons.mp hindices
    have hhere := hfresh [] i indices rfl
    rw [List.map_nil, List.append_nil] at hhere
    obtain ⟨object, f₁, origins₁, hget, hprefix₁, hplace, h₁⟩ := h.getRow hrows hi hhere
    obtain ⟨objects, f₂, origins₂, hgets, hprefix₂, hplaces, h₂⟩ := ih h₁ hrest (by
      intro front j back hsplit
      have := hfresh (i :: front) j back (by rw [hsplit, List.cons_append])
      rwa [List.map_cons, List.append_cons] at this)
    refine ⟨object :: objects, f₂, origins₂, ?_, hprefix₁.trans hprefix₂, ?_, ?_⟩
    · rw [TraceViewerStorage.getRows, hget, andThen_ok, hgets, andThen_ok]
    · obtain ⟨more, rfl⟩ := hprefix₂
      rw [List.map_cons, hplaces, List.map_cons,
        List.getElem?_append_left (List.getElem?_eq_some_iff.mp hplace).1, hplace]
    · rw [List.map_cons, List.append_cons]
      exact h₂

/-- The elements of a list that pass a test, by their indices. -/
theorem map_filter_range {α : Type} (l : List α) (p : α → Bool) :
    ((List.range l.length).filter fun i => (l[i]?.map p).getD false).map (l[·]?) =
      (l.filter p).map some := by
  induction l using List.reverseRecOn with
  | nil => rfl
  | append_singleton l a ih =>
    have hold : ∀ i ∈ List.range l.length, (l ++ [a])[i]? = l[i]? := fun i hi =>
      List.getElem?_append_left (List.mem_range.mp hi)
    have hlast : (l ++ [a])[l.length]? = some a := by simp
    have hfilter : ((List.range l.length).filter fun i => ((l ++ [a])[i]?.map p).getD false) =
        (List.range l.length).filter fun i => (l[i]?.map p).getD false :=
      List.filter_congr fun i hi => by rw [hold i hi]
    have hmap : ((List.range l.length).filter fun i => (l[i]?.map p).getD false).map
        ((l ++ [a])[·]?) = (l.filter p).map some := by
      rw [← ih]
      exact List.map_congr_left fun i hi => hold i (List.mem_of_mem_filter hi)
    rw [List.length_append, List.length_singleton, List.range_succ, List.filter_append,
      List.map_append, hfilter, hmap, List.filter_append, List.map_append]
    refine congrArg (_ ++ ·) ?_
    cases hp : p a with
    | false =>
      rw [List.filter_cons_of_neg (by simp [hp]), List.filter_cons_of_neg (by simp [hp])]
      rfl
    | true =>
      rw [List.filter_cons_of_pos (by simp [hp]), List.filter_cons_of_pos (by simp [hp]),
        List.filter_nil, List.filter_nil, List.map_singleton, List.map_singleton, hlast]

def selectedIndices (rows : List TraceViewerRow) : List Nat :=
  (List.range rows.length).filter fun i => (rows[i]?.map (·.isSelected)).getD false

theorem map_selectedIndices (rows : List TraceViewerRow) :
    (selectedIndices rows).map (rows[·]?) = (rows.filter (·.isSelected)).map some :=
  map_filter_range rows (·.isSelected)

/-- Where no row was handed out yet, the rows in the file are the rows in memory. -/
theorem Agrees.iterSelected (h : Agrees rows before origins f m)
    (hrows : ∀ row ∈ rows, Storable floatRepr row)
    (hnone : ∀ i < rows.length, ¬ HandedOut rows before i) :
    ∃ objects indices f' origins', f.iterSelected builtins floatRepr = (.ok objects, f') ∧
      m.iterSelected = (.ok indices, m) ∧ origins <+: origins' ∧
      objects.map (origins'[·]?) = indices.map some ∧
      Agrees rows (before ++ [.all]) origins' f' m := by
  obtain rfl : origins = [] := by
    rw [List.eq_nil_iff_forall_not_mem]
    intro i hi
    obtain ⟨hlt, hhanded⟩ := (h.handed i).mp hi
    exact hnone i hlt hhanded
  have hobjects : f.objects = [] := List.map_eq_nil_iff.mp h.objects
  have hmemory : m.rows = rows := List.ext_getElem? fun i => h.untouched i List.not_mem_nil
  have hmap := map_selectedIndices rows
  have hlength := congrArg List.length hmap
  rw [List.length_map, List.length_map] at hlength
  refine ⟨List.range' f.objects.length (rows.filter (·.isSelected)).length,
    selectedIndices rows, { f with objects := f.objects ++ rows.filter (·.isSelected) },
    selectedIndices rows, ?_, ?_, List.nil_prefix, ?_,
    ⟨⟨h.filed.opened.file, h.filed.opened.offsets⟩, ?_⟩, h.length, ?_, ?_, ?_, ?_, ?_⟩
  · rw [TraceViewerStorage.iterSelected, h.filed.opened.iterRows hrows]
  · rw [InMemoryStorage.iterSelected, hmemory]
    rfl
  · rw [hobjects, List.length_nil, ← hlength]
    refine List.ext_getElem (by simp) fun i hi hi' => ?_
    rw [List.getElem_map, List.getElem_map, List.getElem_range', Nat.zero_add, Nat.one_mul]
    exact List.getElem?_eq_getElem _
  · rw [rowsRead_append]
    exact h.filed.keys.trans (congrArg _ (List.append_nil _).symm)
  · rw [hobjects, List.nil_append, hmemory, hmap]
  · exact List.nodup_range.filter _
  · intro i
    rw [selectedIndices, List.mem_filter, List.mem_range, handedOut_append, handedOut_all]
    constructor
    · exact fun hi => ⟨hi.1, .inr hi.2⟩
    · rintro ⟨hlt, hhanded | hselected⟩
      · exact absurd hhanded (hnone i hlt)
      · exact ⟨hlt, hselected⟩
  · intro i object hobject
    have := h.cached i object hobject
    rw [List.getElem?_nil] at this
    cases this
  · exact fun i _ => h.untouched i List.not_mem_nil

/-- A request within range looks up all rows, or some by their indices, each once. -/
theorem Request.cases {request : Request} (hrange : request.InRange rows.length) :
    request = .iterSelected ∨ ∃ indices, request.readings rows.length = indices.map .row ∧
      indices.Nodup ∧ (∀ i ∈ indices, i < rows.length) ∧
      (∀ builtins floatRepr f, Opened rows f →
        (fileBacked builtins floatRepr).ask request f = f.getRows builtins floatRepr indices) ∧
      ∀ m : InMemoryStorage, m.rows.length = rows.length →
        inMemory.ask request m = (.ok indices, m) := by
  cases request with
  | iterSelected => exact .inl rfl
  | getRow index =>
    obtain ⟨hlow, hhigh⟩ := hrange
    obtain ⟨i, rfl⟩ := Int.eq_ofNat_of_zero_le hlow
    refine .inr ⟨[i], rfl, List.nodup_singleton i, ?_, ?_, ?_⟩
    · simpa using hhigh
    · intro builtins floatRepr f hf
      simp only [fileBacked, TraceViewerStorage.getRows, andThen_ok]
    · intro m hm
      have hinside : (0 : Int) ≤ i ∧ (i : Int) < m.rows.length := ⟨hlow, by omega⟩
      simp only [inMemory, InMemoryStorage.getRow, if_pos hinside, andThen_ok, Int.toNat_natCast]
  | page start size =>
    obtain ⟨hstart, hsize⟩ := hrange
    refine .inr ⟨List.range' start.toNat (min (start + size) rows.length - start).toNat, rfl,
      List.nodup_range', ?_, ?_, ?_⟩
    · intro i hi
      rw [List.mem_range'_1] at hi
      omega
    · intro builtins floatRepr f hf
      have hlow : ¬ (start < 0 ∧ start < min (start + size) rows.length) := by omega
      simp only [fileBacked, TraceViewerStorage.page, hf.length, if_neg hlow]
    · intro m hm
      simp only [inMemory, InMemoryStorage.page, InMemoryStorage.sliceBound, hm,
        if_neg (not_lt.mpr hstart), if_neg (by omega : ¬ start + size < 0)]
      by_cases hbeyond : start ≤ rows.length
      · rw [Nat.min_eq_left (by omega)]
        congr 3
        omega
      · have hzero : (min (start + size) rows.length - start).toNat = 0 := by omega
        have hzero' : min (start + size).toNat rows.length - min start.toNat rows.length = 0 := by
          omega
        rw [hzero, hzero', List.range'_zero, List.range'_zero]

/-- Two viewers after the same readings, who hold the same rows. -/
structure Together (rows : List TraceViewerRow) (before : List Reading) (origins : List Nat)
    (f : Session TraceViewerStorage) (m : Session InMemoryStorage) : Prop where
  agrees : Agrees rows before origins f.storage m.storage
  returned : f.returned.map (origins[·]?) = m.returned.map some

/-- Two lists that are told apart in the same way are told apart in every coarser way. -/
theorem map_eq_map_of {α β γ : Type} {g : α → Option β} {φ : α → γ} {ψ : β → γ} {as : List α}
    {bs : List β} (h : as.map g = bs.map some) (hagree : ∀ a b, g a = some b → φ a = ψ b) :
    as.map φ = bs.map ψ := by
  induction as generalizing bs with
  | nil =>
    rw [List.map_nil, eq_comm, List.map_eq_nil_iff] at h
    rw [h]
    rfl
  | cons a as ih =>
    cases bs with
    | nil => cases h
    | cons b bs =>
      rw [List.map_cons, List.map_cons, List.cons.injEq] at h
      rw [List.map_cons, List.map_cons, hagree a b h.1, ih h.2]

/-- A request that takes no row from the file that is held already shows the same. -/
theorem Together.ask {f : Session TraceViewerStorage} {m : Session InMemoryStorage}
    (h : Together rows before origins f m) (builtins : Builtins)
    (hrows : ∀ row ∈ rows, Storable floatRepr row) {request : Request}
    (hrange : request.InRange rows.length)
    (hfresh : ∀ front reading back, request.readings rows.length = front ++ reading :: back →
      ∀ i < rows.length, HandedOut rows (before ++ front) i →
        ¬ FromFile (before ++ front) i reading) :
    (f.ask (fileBacked builtins floatRepr) request).1 = (m.ask inMemory request).1 ∧
      ∃ origins', Together rows (before ++ request.readings rows.length) origins'
        (f.ask (fileBacked builtins floatRepr) request).2 (m.ask inMemory request).2 := by
  have hasked : ∃ objects indices f' origins',
      (fileBacked builtins floatRepr).ask request f.storage = (.ok objects, f') ∧
      inMemory.ask request m.storage = (.ok indices, m.storage) ∧ origins <+: origins' ∧
      objects.map (origins'[·]?) = indices.map some ∧
      Agrees rows (before ++ request.readings rows.length) origins' f' m.storage := by
    rcases Request.cases hrange with rfl |
      ⟨indices, hreadings, -, hindices, hfile, hmemory⟩
    · refine h.agrees.iterSelected hrows fun i hi hhanded => ?_
      exact hfresh [] .all [] rfl i hi (by rwa [List.append_nil]) trivial
    · obtain ⟨objects, f', origins', hget, hprefix, hplaces, hagrees⟩ :=
        h.agrees.getRows hrows hindices (by
          intro front i back hsplit
          refine hfresh (front.map .row) (.row i) (back.map .row) ?_ i
            (hindices i (hsplit ▸ List.mem_append_right _ List.mem_cons_self))
          rw [hreadings, hsplit, List.map_append, List.map_cons])
      rw [← hreadings] at hagrees
      exact ⟨objects, indices, f', origins', (hfile _ _ _ h.agrees.filed.opened).trans hget,
        hmemory _ h.agrees.length, hprefix, hplaces, hagrees⟩
  obtain ⟨objects, indices, f', origins', hf, hm, ⟨more, rfl⟩, hplaces, hagrees⟩ := hasked
  rw [Session.ask, Session.ask, hf, hm]
  refine ⟨?_, _, hagrees, ?_⟩
  · exact congrArg Except.ok (map_eq_map_of hplaces fun object i hi => hagrees.object hi)
  · dsimp only
    rw [List.map_append, List.map_append, hplaces]
    refine congrArg (· ++ _) (map_eq_map_of h.returned fun object i hi => ?_)
    rw [List.getElem?_append_left (List.getElem?_eq_some_iff.mp hi).1]
    exact hi

/-- Setting the selection of a row that both viewers hold. -/
theorem Together.select {f : Session TraceViewerStorage} {m : Session InMemoryStorage}
    (h : Together rows before origins f m) (k : Nat) (isSelected : Bool) :
    Together rows before origins (f.select (fileBacked builtins floatRepr) k isSelected)
      (m.select inMemory k isSelected) := by
  have hk := congrArg (·[k]?) h.returned
  simp only [List.getElem?_map] at hk
  rw [Session.select, Session.select]
  cases hobject : f.returned[k]? with
  | none =>
    rw [hobject, Option.map_none] at hk
    have hnone : m.returned[k]? = none := by simpa using hk.symm
    rw [hnone]
    exact h
  | some object =>
    rw [hobject, Option.map_some] at hk
    obtain ⟨i, hi, hsome⟩ := Option.map_eq_some_iff.mp hk.symm
    have hplace : origins[object]? = some i := hsome.symm
    rw [hi]
    refine ⟨⟨⟨⟨h.agrees.filed.opened.file, h.agrees.filed.opened.offsets⟩, h.agrees.filed.keys⟩,
      ?_, ?_, h.agrees.nodup, h.agrees.handed, h.agrees.cached, ?_⟩, h.returned⟩
    · exact (List.length_modify ..).trans h.agrees.length
    · refine List.ext_getElem? fun place => ?_
      change ((f.storage.objects.modify object _).map some)[place]? =
        (origins.map ((m.storage.rows.modify i _)[·]?))[place]?
      rw [List.getElem?_map, List.getElem?_map, List.getElem?_modify]
      cases hj : origins[place]? with
      | none =>
        have hnone : f.storage.objects[place]? = none := by
          rw [List.getElem?_eq_none_iff, h.agrees.length_objects]
          exact List.getElem?_eq_none_iff.mp hj
        rw [hnone]
        rfl
      | some j =>
        have hsame : object = place ↔ i = j := by
          constructor
          · rintro rfl
            exact Option.some.inj (hplace.symm.trans hj)
          · rintro rfl
            exact (List.getElem?_inj (List.getElem?_eq_some_iff.mp hplace).1
              h.agrees.nodup).mp (hplace.trans hj.symm)
        rw [Option.map_some, List.getElem?_modify, h.agrees.object hj]
        have hlt : j < m.storage.rows.length := by
          rw [h.agrees.length]
          exact ((h.agrees.handed j).mp (List.mem_of_getElem? hj)).1
        rw [List.getElem?_eq_getElem hlt]
        simp only [hsame, Option.map_eq_map, Option.map_some]
    · intro j hj
      change (m.storage.rows.modify i _)[j]? = rows[j]?
      have hne : i ≠ j := fun heq => hj (heq ▸ List.mem_of_getElem? hplace)
      rw [List.getElem?_modify, h.agrees.untouched j hj]
      simp [hne]

/-- A run whose requests take from the file no row that is held already shows the same. -/
theorem Together.answers {f : Session TraceViewerStorage} {m : Session InMemoryStorage}
    (h : Together rows before origins f m) (hrows : ∀ row ∈ rows, Storable floatRepr row)
    {steps : List Step} (hrange : ∀ request ∈ requestsOf steps, request.InRange rows.length)
    (hfresh : ∀ front reading back,
      (requestsOf steps).flatMap (Request.readings rows.length) = front ++ reading :: back →
      ∀ i < rows.length, HandedOut rows (before ++ front) i →
        ¬ FromFile (before ++ front) i reading) :
    f.answers (fileBacked builtins floatRepr) steps = m.answers inMemory steps := by
  induction steps generalizing before origins f m with
  | nil => rfl
  | cons step steps ih =>
    cases step with
    | select k isSelected => exact ih (h.select k isSelected) hrange hfresh
    | ask request =>
      have hsteps : requestsOf (.ask request :: steps) = request :: requestsOf steps := rfl
      rw [hsteps, List.forall_mem_cons] at hrange
      rw [hsteps, List.flatMap_cons] at hfresh
      obtain ⟨hanswer, origins', hnext⟩ := h.ask builtins hrows hrange.1 (by
        intro front reading back hsplit
        refine hfresh front reading
          (back ++ (requestsOf steps).flatMap (Request.readings rows.length)) ?_
        rw [hsplit, List.append_assoc, List.cons_append])
      rw [Session.answers, Session.answers, hanswer, ih hnext hrange.2 (by
        intro front reading back hsplit
        have := hfresh (request.readings rows.length ++ front) reading back
          (by rw [hsplit, List.append_assoc])
        rwa [← List.append_assoc] at this)]

theorem together_start (rows : List TraceViewerRow) :
    Together rows [] [] (written rows) (held rows) := by
  refine ⟨⟨⟨opened_written rows, rfl⟩, rfl, rfl, List.nodup_nil, ?_, ?_, fun i _ => rfl⟩, rfl⟩
  · intro i
    simp [HandedOut]
  · intro i object hobject
    cases hobject

def Session.after {σ : Type} (interface : RowStorage σ) (s : Session σ) : List Step → Session σ
  | [] => s
  | .ask request :: steps => (s.ask interface request).2.after interface steps
  | .select row isSelected :: steps => (s.select interface row isSelected).after interface steps

theorem Session.answers_append {σ : Type} (interface : RowStorage σ) (s : Session σ)
    (steps others : List Step) : s.answers interface (steps ++ others) =
      s.answers interface steps ++ (s.after interface steps).answers interface others := by
  induction steps generalizing s with
  | nil => rfl
  | cons step steps ih =>
    cases step with
    | ask request =>
      rw [List.cons_append, Session.answers, Session.answers, ih, List.cons_append]
      rfl
    | select row isSelected => exact ih _

theorem Session.length_answers {σ : Type} (interface : RowStorage σ) (s : Session σ)
    (steps : List Step) : (s.answers interface steps).length = (requestsOf steps).length := by
  induction steps generalizing s with
  | nil => rfl
  | cons step steps ih =>
    cases step with
    | ask request => exact congrArg Nat.succ (ih _)
    | select row isSelected => exact ih _

/-- Requests change nothing in memory, and every row they look up is then held. -/
theorem memory_after {m : Session InMemoryStorage} (hm : m.storage.rows = rows)
    {requests : List Request} (hrange : ∀ request ∈ requests, request.InRange rows.length) :
    (m.after inMemory (requests.map .ask)).storage = m.storage ∧
      ∀ i < rows.length,
        i ∈ m.returned ∨ HandedOut rows (requests.flatMap (Request.readings rows.length)) i →
          i ∈ (m.after inMemory (requests.map .ask)).returned := by
  induction requests generalizing m with
  | nil => exact ⟨rfl, fun i _ hi => hi.elim id fun h => by simp [HandedOut] at h⟩
  | cons request requests ih =>
    obtain ⟨hrequest, hrest⟩ := List.forall_mem_cons.mp hrange
    have hasked : ∃ indices, inMemory.ask request m.storage = (.ok indices, m.storage) ∧
        ∀ i < rows.length, HandedOut rows (request.readings rows.length) i → i ∈ indices := by
      rcases Request.cases hrequest with rfl |
        ⟨indices, hreadings, -, -, -, hmemory⟩
      · refine ⟨selectedIndices m.storage.rows, rfl, fun i hi hhanded => ?_⟩
        rw [hm]
        exact List.mem_filter.mpr ⟨List.mem_range.mpr hi, handedOut_all.mp hhanded⟩
      · refine ⟨indices, hmemory _ (by rw [hm]), fun i _ hhanded => ?_⟩
        rw [hreadings] at hhanded
        exact handedOut_rows.mp hhanded
    obtain ⟨indices, hask, hindices⟩ := hasked
    have hnext : (m.ask inMemory request).2 = ⟨m.storage, m.returned ++ indices⟩ := by
      rw [Session.ask, hask]
    obtain ⟨hstorage, hreturned⟩ := ih (m := ⟨m.storage, m.returned ++ indices⟩) hm hrest
    rw [List.map_cons, Session.after, hnext]
    refine ⟨hstorage, fun i hi hhanded => hreturned i hi ?_⟩
    rw [List.flatMap_cons, handedOut_append] at hhanded
    rcases hhanded with hold | hhere | hlater
    · exact .inl (List.mem_append_left _ hold)
    · exact .inl (List.mem_append_right _ (hindices i hi hhere))
    · exact .inr hlater

/-- Rows read one after the other; one that was not read lately is as it was written. -/
theorem Filed.getRows (h : Filed rows before f) (builtins : Builtins)
    (hrows : ∀ row ∈ rows, Storable floatRepr row)
    {indices : List Nat} (hindices : ∀ i ∈ indices, i < rows.length) :
    ∃ objects f', f.getRows builtins floatRepr indices = (.ok objects, f') ∧
      Filed rows (before ++ indices.map .row) f' ∧ f.objects <+: f'.objects ∧
      ∀ front i back, indices = front ++ i :: back →
        i ∉ recent cacheLimit (rowsRead (before ++ front.map .row)) →
          ∃ object, objects[front.length]? = some object ∧ f'.objects[object]? = rows[i]? := by
  induction indices generalizing before f with
  | nil =>
    refine ⟨[], f, rfl, ?_, List.prefix_rfl, fun front i back hsplit => ?_⟩
    · rw [List.map_nil, List.append_nil]
      exact h
    · simp at hsplit
  | cons j indices ih =>
    obtain ⟨hj, hrest⟩ := List.forall_mem_cons.mp hindices
    have hstep : ∃ object f₁, f.getRow builtins floatRepr j = (.ok object, f₁) ∧
        Filed rows (before ++ [.row j]) f₁ ∧ f.objects <+: f₁.objects ∧
        (j ∉ recent cacheLimit (rowsRead before) → f₁.objects[object]? = rows[j]?) := by
      rcases h.getRow builtins hrows hj with
        ⟨object, -, hkey, hget⟩ | ⟨hkey, hget⟩
      · refine ⟨object, _, hget, h.recalled hkey, List.prefix_rfl, fun hnew => ?_⟩
        rw [← h.keys] at hnew
        exact absurd hkey hnew
      · refine ⟨_, _, hget, h.loaded hkey _, List.prefix_append _ _, fun _ => ?_⟩
        rw [TraceViewerStorage.loaded, List.getElem?_append_right (Nat.le_refl _), Nat.sub_self,
          List.getElem?_eq_getElem hj]
        rfl
    obtain ⟨object, f₁, hget, h₁, hprefix₁, hloaded⟩ := hstep
    obtain ⟨objects, f₂, hgets, h₂, hprefix₂, hreloaded⟩ := ih h₁ hrest
    refine ⟨object :: objects, f₂, ?_, ?_, hprefix₁.trans hprefix₂, ?_⟩
    · rw [TraceViewerStorage.getRows, hget, andThen_ok, hgets, andThen_ok]
    · rw [List.map_cons, List.append_cons]
      exact h₂
    · intro front i back hsplit hnew
      cases front with
      | nil =>
        obtain ⟨rfl, -⟩ := List.cons.inj hsplit
        rw [List.map_nil, List.append_nil] at hnew
        refine ⟨object, rfl, ?_⟩
        obtain ⟨more, hmore⟩ := hprefix₂
        have hlt : object < f₁.objects.length :=
          (List.getElem?_eq_some_iff.mp
            ((hloaded hnew).trans (List.getElem?_eq_getElem hj))).1
        rw [← hmore, List.getElem?_append_left hlt, hloaded hnew]
      | cons k front =>
        rw [List.cons_append] at hsplit
        obtain ⟨rfl, htail⟩ := List.cons.inj hsplit
        refine hreloaded front i back htail ?_
        rwa [List.map_cons, List.append_cons] at hnew

/-- The file and the rows read last stay known whatever is asked. -/
theorem Filed.ask {f : Session TraceViewerStorage} (h : Filed rows before f.storage)
    (hrows : ∀ row ∈ rows, Storable floatRepr row) {request : Request}
    (hrange : request.InRange rows.length) :
    Filed rows (before ++ request.readings rows.length)
      (f.ask (fileBacked builtins floatRepr) request).2.storage := by
  rcases Request.cases hrange with rfl |
    ⟨indices, hreadings, -, hindices, hfile, -⟩
  · have hask : (fileBacked builtins floatRepr).ask .iterSelected f.storage =
        f.storage.iterSelected builtins floatRepr := rfl
    rw [Session.ask, hask, TraceViewerStorage.iterSelected, h.opened.iterRows hrows]
    refine ⟨⟨h.opened.file, h.opened.offsets⟩, ?_⟩
    rw [rowsRead_append]
    exact h.keys.trans (congrArg _ (List.append_nil _).symm)
  · obtain ⟨objects, f', hget, hfiled, -⟩ := h.getRows builtins hrows hindices
    rw [Session.ask, hfile _ _ _ h.opened, hget, hreadings]
    exact hfiled

theorem Filed.after {f : Session TraceViewerStorage} (h : Filed rows before f.storage)
    (builtins : Builtins) (hrows : ∀ row ∈ rows, Storable floatRepr row) {requests : List Request}
    (hrange : ∀ request ∈ requests, request.InRange rows.length) :
    Filed rows (before ++ requests.flatMap (Request.readings rows.length))
      (f.after (fileBacked builtins floatRepr) (requests.map .ask)).storage := by
  induction requests generalizing before f with
  | nil =>
    rw [List.flatMap_nil, List.append_nil]
    exact h
  | cons request requests ih =>
    obtain ⟨hrequest, hrest⟩ := List.forall_mem_cons.mp hrange
    rw [List.flatMap_cons, ← List.append_assoc]
    exact ih (h.ask hrows hrequest) hrest

theorem Filed.select {f : Session TraceViewerStorage} (h : Filed rows before f.storage) (k : Nat)
    (isSelected : Bool) :
    Filed rows before (f.select (fileBacked builtins floatRepr) k isSelected).storage := by
  rw [Session.select]
  split
  · exact h
  · exact ⟨⟨h.opened.file, h.opened.offsets⟩, h.keys⟩

/-- Selecting a row that is not selected, or the other way round, changes how many are. -/
theorem length_filter_select (hi : i < rows.length) :
    ((rows.modify i (·.select (!rows[i].isSelected))).filter (·.isSelected)).length ≠
      (rows.filter (·.isSelected)).length := by
  have hsplit : rows = rows.take i ++ rows[i] :: rows.drop (i + 1) := by
    rw [← List.drop_eq_getElem_cons hi, List.take_append_drop]
  rw [List.modify_eq_take_cons_drop hi, List.filter_append, List.filter_cons]
  conv_rhs => rw [hsplit, List.filter_append, List.filter_cons]
  cases hselected : rows[i].isSelected <;>
    simp [TraceViewerRow.select]

/-- Something in one of the parts of a list, found. -/
theorem exists_flatMap_split {α β : Type} {g : α → List β} {l : List α} {front back : List β}
    {b : β} (h : l.flatMap g = front ++ b :: back) : ∃ before a after pre post,
      l = before ++ a :: after ∧ g a = pre ++ b :: post ∧ front = before.flatMap g ++ pre := by
  induction l generalizing front with
  | nil => simp at h
  | cons a l ih =>
    rw [List.flatMap_cons, List.append_eq_append_iff] at h
    rcases h with ⟨more, hfront, hrest⟩ | ⟨more, hpart, hrest⟩
    · obtain ⟨before, a', after, pre, post, rfl, ha', rfl⟩ := ih hrest
      refine ⟨a :: before, a', after, pre, post, rfl, ha', ?_⟩
      rw [hfront, List.flatMap_cons, List.append_assoc]
    · cases more with
      | nil =>
        rw [List.append_nil] at hpart
        obtain ⟨before, a', after, pre, post, rfl, ha', hpre⟩ := ih
          (show l.flatMap g = [] ++ b :: back from hrest.symm)
        refine ⟨a :: before, a', after, pre, post, rfl, ha', ?_⟩
        rw [List.flatMap_cons, List.append_assoc, ← hpre, List.append_nil, hpart]
      | cons b' more =>
        obtain ⟨rfl, rfl⟩ := List.cons.inj hrest
        exact ⟨[], a, l, front, more, rfl, hpart, rfl⟩

theorem requestsOf_append (steps others : List Step) :
    requestsOf (steps ++ others) = requestsOf steps ++ requestsOf others :=
  List.filterMap_append ..

theorem requestsOf_ask (requests : List Request) : requestsOf (requests.map .ask) = requests := by
  rw [requestsOf, List.filterMap_map]
  exact List.filterMap_some

/-- A row that is handed out before a request is looked up in it is handed out by the requests
before it. -/
theorem handedOut_earlier {request : Request} (hrange : request.InRange rows.length)
    {pre post : List Reading} {reading : Reading}
    (hreadings : request.readings rows.length = pre ++ reading :: post)
    (hhanded : HandedOut rows (before ++ pre) i)
    (hfile : FromFile (before ++ pre) i reading) : HandedOut rows before i := by
  refine (handedOut_append.mp hhanded).resolve_right fun hpre => ?_
  rcases Request.cases hrange with rfl | ⟨indices, hindices, hnodup, -⟩
  · change [Reading.all] = pre ++ reading :: post at hreadings
    obtain rfl : pre = [] := by
      cases pre with
      | nil => rfl
      | cons first pre =>
        have := (List.cons.inj hreadings).2
        simp at this
    simp [HandedOut] at hpre
  · rw [hindices, List.map_eq_append_iff] at hreadings
    obtain ⟨front, rest, rfl, rfl, hrest⟩ := hreadings
    obtain ⟨j, back, rfl, rfl, -⟩ := List.map_eq_cons_iff.mp hrest
    obtain ⟨rfl, -⟩ := hfile
    exact (List.disjoint_of_nodup_append hnodup) (handedOut_rows.mp hpre) List.mem_cons_self

/-- Where a request takes a row from the file, it shows the row as it was written, and another
one than in memory, where the row was selected or unselected since. -/
theorem ask_ne {f : Session TraceViewerStorage} {m : Session InMemoryStorage}
    (h : Filed rows before f.storage) (hrows : ∀ row ∈ rows, Storable floatRepr row)
    {request : Request} (hrange : request.InRange rows.length) {pre post : List Reading}
    {reading : Reading} (hreadings : request.readings rows.length = pre ++ reading :: post)
    (hfile : FromFile (before ++ pre) i reading) (hi : i < rows.length)
    (hm : m.storage.rows = rows.modify i (·.select (!rows[i].isSelected))) :
    (f.ask (fileBacked builtins floatRepr) request).1 ≠ (m.ask inMemory request).1 := by
  have hlength : m.storage.rows.length = rows.length := by
    rw [hm]
    exact List.length_modify ..
  intro heq
  rcases Request.cases hrange with rfl | ⟨indices, hindices, -, hlt, hask, hmemory⟩
  · have hf : (f.ask (fileBacked builtins floatRepr) .iterSelected).1 =
        .ok ((rows.filter (·.isSelected)).map some) := by
      have hask : (fileBacked builtins floatRepr).ask .iterSelected f.storage =
          f.storage.iterSelected builtins floatRepr := rfl
      rw [Session.ask, hask, TraceViewerStorage.iterSelected, h.opened.iterRows hrows]
      refine congrArg Except.ok (List.ext_getElem (by simp) fun k hk hk' => ?_)
      rw [List.getElem_map, List.getElem_map, List.getElem_range', Nat.one_mul]
      change (f.storage.objects ++ _)[_]? = _
      rw [List.getElem?_append_right (Nat.le_add_right _ _), Nat.add_sub_cancel_left]
      exact List.getElem?_eq_getElem _
    have hmem : (m.ask inMemory .iterSelected).1 =
        .ok ((m.storage.rows.filter (·.isSelected)).map some) :=
      congrArg Except.ok (map_selectedIndices m.storage.rows)
    rw [hf, hmem, hm] at heq
    have hcount := congrArg List.length (Except.ok.inj heq)
    rw [List.length_map, List.length_map] at hcount
    exact length_filter_select hi hcount.symm
  · rw [hindices, List.map_eq_append_iff] at hreadings
    obtain ⟨front, rest, rfl, rfl, hrest⟩ := hreadings
    obtain ⟨j, back, rfl, rfl, -⟩ := List.map_eq_cons_iff.mp hrest
    obtain ⟨rfl, hnew⟩ := hfile
    obtain ⟨objects, f', hget, -, -, hreload⟩ := h.getRows builtins hrows hlt
    obtain ⟨object, hobject, hwritten⟩ := hreload front j back rfl hnew
    rw [Session.ask, Session.ask, hask _ _ _ h.opened, hget, hmemory _ hlength] at heq
    have hplace := congrArg (·[front.length]?) (Except.ok.inj heq)
    simp only [List.getElem?_map, hobject, Option.map_some] at hplace
    rw [List.getElem?_append_right (Nat.le_refl _), Nat.sub_self] at hplace
    change some (f'.objects[object]?) = some (m.storage.rows[j]?) at hplace
    rw [hwritten, hm, List.getElem?_modify, List.getElem?_eq_getElem hi] at hplace
    have hselected := congrArg TraceViewerRow.isSelected
      (Option.some.inj (Option.some.inj hplace))
    cases hrow : rows[j].isSelected <;> simp [TraceViewerRow.select, hrow] at hselected

/-- A storage that fits into the cache takes each row from the file once. -/
theorem neverReread_of_small (hsmall : rows.length ≤ cacheLimit) {requests : List Request}
    (hrange : ∀ request ∈ requests, request.InRange rows.length)
    (hrows : .iterSelected ∉ requests) :
    NeverReread rows (requests.flatMap (Request.readings rows.length)) := by
  have hreadings : ∀ reading ∈ requests.flatMap (Request.readings rows.length),
      ∃ i < rows.length, reading = .row i := by
    intro reading hreading
    obtain ⟨request, hrequest, hmem⟩ := List.mem_flatMap.mp hreading
    rcases Request.cases (hrange request hrequest) with rfl | ⟨indices, hindices, -, hlt, -⟩
    · exact absurd hrequest hrows
    · rw [hindices] at hmem
      obtain ⟨i, hi, rfl⟩ := List.mem_map.mp hmem
      exact ⟨i, hlt i hi, rfl⟩
  intro before reading after hsplit i hi hhanded hfile
  rw [hsplit, List.forall_mem_append, List.forall_mem_cons] at hreadings
  obtain ⟨hbefore, ⟨j, hj, rfl⟩, -⟩ := hreadings
  obtain ⟨rfl, hnew⟩ := hfile
  have hread : j ∈ rowsRead before := by
    rcases hhanded with hrow | ⟨hall, -⟩
    · exact List.mem_filterMap.mpr ⟨_, hrow, rfl⟩
    · obtain ⟨k, -, hk⟩ := hbefore _ hall
      cases hk
  have hshort : (rowsRead before).dedup.length ≤ cacheLimit := by
    have hsubset : (rowsRead before).dedup ⊆ List.range rows.length := by
      intro k hk
      obtain ⟨reading, hreading, hrow⟩ := List.mem_filterMap.mp (List.mem_dedup.mp hk)
      obtain ⟨l, hl, rfl⟩ := hbefore reading hreading
      obtain rfl : l = k := Option.some.inj hrow
      exact List.mem_range.mpr hl
    have hle := (List.subperm_of_subset (List.nodup_dedup _) hsubset).length_le
    rw [List.length_range] at hle
    exact hle.trans hsmall
  refine hnew ?_
  rw [recent, List.rtake, Nat.sub_eq_zero_of_le hshort, List.drop_zero]
  exact List.mem_dedup.mpr hread

end

def sampleBuiltins : Builtins where
  int
    | .int n => some n
    | .bool b => some (if b then 1 else 0)
    | .str s => parseInt s
    | _ => none
  str
    | .str s => s
    | value => Json.dumps {} value
  float
    | .float repr => some repr
    | .int n => some (toString n ++ ".0")
    | _ => none
  int_int _ := rfl
  str_str _ := rfl
  float_float _ := rfl

def sampleRow : TraceViewerRow where
  studentIndex := 3
  mentorId := "M1"
  mentorType := "school"
  passed := true
  occupancyRatio := some "0.5"
  currentLoad := some 2
  trace := [⟨[("code", .str "GENDER_MATCH"), ("passed", .bool true)], by decide⟩]
  rankingKey := some [.float "0.5", .int 2, .int 7]
  studentGroup := "۱۲\n"

theorem storable_sampleRow (mentorId : String) (passed : Bool) :
    Storable id { sampleRow with mentorId, passed } := by
  refine ⟨?_, by simp [sampleRow]⟩
  simp [sampleRow, TraceViewerRow.toSerialisable, TraceViewerRow.members,
    TraceViewerRow.rankingJson, orNull, Json.Valid, Json.ValidMembers, Json.ValidItems, intStr]
  exact ⟨by decide, rfl, by decide, rfl, by decide, by decide⟩

def sampleRows : List TraceViewerRow :=
  [sampleRow, { sampleRow with mentorId := "M2" }, { sampleRow with passed := false }]

theorem storable_sampleRows : ∀ row ∈ sampleRows, Storable id row := by
  simp only [sampleRows, List.forall_mem_cons]
  exact ⟨storable_sampleRow _ _, storable_sampleRow _ _, storable_sampleRow _ _, nofun⟩

/-- A row read and selected, a page with it, and both of the page's rows read again. -/
def sampleSteps : List Step :=
  [.ask (.getRow 1), .select 0 true, .ask (.page 1 5), .select 2 true, .select 1 false,
    .ask (.getRow 2), .ask (.getRow 1)]

end Ui.Storage

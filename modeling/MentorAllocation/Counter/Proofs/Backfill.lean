import MentorAllocation.Counter.Backfill
import MentorAllocation.Counter.Proofs.Assign
import MentorAllocation.Data.Except

namespace Counter
open Text Data
open SqlAlchemyCounterRepository (fetchStudentCounter)

def BackfillRow.genderCode (row : BackfillRow) : String := (genderPrefix row.gender).getD ""

def BackfillRow.seqKey (row : BackfillRow) : String × String := (row.yearCode, row.genderCode)

/-- A row as `_parse_rows` yields it, of a student who exists. -/
structure BackfillRow.Valid (nfkc : String → String) (s : CounterStore) (row : BackfillRow) :
    Prop where
  accepted : ensureValidInputs nfkc row.nationalId row.gender row.yearCode =
    .ok (row.nationalId, row.yearCode)
  student : (s.lockStudent row.nationalId).isSome = true

theorem BackfillRow.Valid.gender {nfkc : String → String} {s : CounterStore} {row : BackfillRow}
    (h : row.Valid nfkc s) : genderPrefix row.gender = some row.genderCode := by
  have hsome := (ensureValidInputs_ok.mp h.accepted).2.2.gender
  obtain ⟨code, hcode⟩ := Option.isSome_iff_exists.mp hsome
  rw [BackfillRow.genderCode, hcode]
  rfl

theorem BackfillRow.Valid.year {nfkc : String → String} {s : CounterStore} {row : BackfillRow}
    (h : row.Valid nfkc s) : digitsPattern 2 row.yearCode = true :=
  (ensureValidInputs_ok.mp h.accepted).2.2.yearCode

theorem BackfillRow.Valid.awaiting {nfkc : String → String} {s : CounterStore} {row : BackfillRow}
    (h : row.Valid nfkc s) (hk : s.Keyed)
    (hfree : fetchStudentCounter nfkc s row.nationalId = .ok none) :
    Awaiting nfkc s row.nationalId row.gender row.yearCode row.genderCode :=
  ⟨hk, h.year, h.gender, h.student, hfree⟩

/-- The serial of a stored counter is a number. -/
theorem serial_of_format {nfkc : String → String} {counter value : String}
    (h : ensureCounterFormat nfkc counter = .ok value) :
    ∃ n : Nat, serial value = some (n : Int) := by
  have hregex : counterRegex value = true := by
    unfold ensureCounterFormat validateCounter at h
    split at h
    · next hv =>
      obtain rfl := Except.ok.inj h
      dsimp only at hv
      split at hv
      · next hr =>
        obtain rfl := Option.some.inj hv
        exact hr
      · cases hv
    · cases h
  unfold counterRegex at hregex
  split at hregex
  · next y₁ y₂ p₁ p₂ p₃ s₁ s₂ s₃ s₄ hl =>
    have hdecimal : ∀ c ∈ [s₁, s₂, s₃, s₄], isDecimal c = true := by
      rw [Bool.and_eq_true] at hregex
      have hall := List.all_eq_true.mp hregex.1
      exact fun c hc => hall c (List.mem_cons_of_mem _ (List.mem_cons_of_mem _ hc))
    obtain ⟨n, hn⟩ := digitsValue_decimals hdecimal 0 0 (by simp)
    refine ⟨n, ?_⟩
    have hdrop : value.toList.drop (value.toList.length - 4) = [s₁, s₂, s₃, s₄] := by
      rw [hl]
      rfl
    have hstrip : strip (String.ofList [s₁, s₂, s₃, s₄]) = String.ofList [s₁, s₂, s₃, s₄] := by
      refine strip_eq_self fun c hc => isSpace_of_decimal (hdecimal c ?_)
      rwa [String.toList_ofList] at hc
    have hs₁ : isDecimal s₁ = true := hdecimal s₁ (by simp)
    rw [serial, hdrop, parseInt, hstrip, String.toList_ofList]
    split
    · next heq => exact absurd ((List.cons.inj heq).1 ▸ hs₁) (by decide)
    · next heq => exact absurd ((List.cons.inj heq).1 ▸ hs₁) (by decide)
    · dsimp only
      rw [hn]
      rfl
  · cases hregex

section
variable {nfkc : String → String} {s t : CounterStore} {nationalId : String}

theorem fetchStudentCounter_serial {counter : String}
    (h : fetchStudentCounter nfkc s nationalId = .ok (some counter)) :
    ∃ n : Nat, serial counter = some (n : Int) := by
  rw [fetchStudentCounter] at h
  split at h
  · cases h
  · next stored _ =>
    cases he : ensureCounterFormat nfkc stored with
    | error e =>
      rw [he] at h
      cases h
    | ok value =>
      rw [he] at h
      obtain rfl := Option.some.inj (Except.ok.inj h)
      exact serial_of_format he

theorem mem_counterRows (hk : s.Keyed) {nationalIds : List String} (counter : String) :
    (nationalId, counter) ∈ s.counterRows nationalIds ↔ nationalId ∈ nationalIds ∧
      truthy ((s.lockStudent nationalId).bind StudentModel.counter) = some counter := by
  rw [CounterStore.counterRows, List.mem_filterMap]
  constructor
  · rintro ⟨student, hstudent, hpair⟩
    obtain ⟨value, hvalue, he⟩ := Option.map_eq_some_iff.mp hpair
    obtain ⟨rfl, rfl⟩ := Prod.mk.inj he
    obtain ⟨hmem, hcontains⟩ := List.mem_filter.mp hstudent
    rw [hk.lockStudent hmem]
    exact ⟨List.contains_iff_mem.mp hcontains, hvalue⟩
  · rintro ⟨hmem, h⟩
    cases hstudent : s.lockStudent nationalId with
    | none =>
      rw [hstudent] at h
      cases h
    | some student =>
      rw [hstudent] at h
      have hkey := CounterStore.lockStudent_key hstudent
      refine ⟨student, List.mem_filter.mpr ⟨List.mem_of_find?_eq_some hstudent, ?_⟩, ?_⟩
      · rw [hkey]
        exact List.contains_iff_mem.mpr hmem
      · rw [hkey]
        exact congrArg _ h

theorem nodup_counterRows (hk : s.Keyed) (nationalIds : List String) :
    ((s.counterRows nationalIds).map Prod.fst).Nodup := by
  refine hk.students.sublist ?_
  have hrows : ∀ l : List StudentModel, ((l.filterMap fun student => (truthy student.counter).map
      fun counter => (student.nationalId, counter)).map Prod.fst).Sublist
        (l.map StudentModel.nationalId) := by
    intro l
    induction l with
    | nil => exact List.Sublist.refl []
    | cons student l ih =>
      rw [List.filterMap_cons]
      cases truthy student.counter with
      | none => exact ih.cons _
      | some counter => exact ih.cons_cons _
  exact (hrows _).trans (List.filter_sublist.map _)

theorem fetchStudentCounter_some {counter : String}
    (h : truthy ((s.lockStudent nationalId).bind StudentModel.counter) = some counter) :
    fetchStudentCounter nfkc s nationalId = (ensureCounterFormat nfkc counter).map some := by
  rw [fetchStudentCounter, h]

/-- Where no student of a chunk has a malformed counter, all of their counters are fetched. -/
theorem fetchExistingCounters_ok (hk : s.Keyed) (nationalIds : List String)
    (hok : ∀ nid ∈ nationalIds, (fetchStudentCounter nfkc s nid).isOk = true) :
    ∃ existing, s.fetchExistingCounters nfkc nationalIds = .ok existing ∧
      ∀ nid ∈ nationalIds, fetchStudentCounter nfkc s nid = .ok (existing.get? nid) := by
  have hrow : ∀ nid counter, (nid, counter) ∈ s.counterRows nationalIds →
      ∃ value, ensureCounterFormat nfkc counter = .ok value := by
    intro nid counter h
    obtain ⟨hmem, hstored⟩ := (mem_counterRows hk counter).mp h
    have hfetch := hok nid hmem
    rw [fetchStudentCounter_some hstored] at hfetch
    cases hvalue : ensureCounterFormat nfkc counter with
    | error e =>
      rw [hvalue] at hfetch
      cases hfetch
    | ok value => exact ⟨value, rfl⟩
  have hformat : ∀ row value, (ensureCounterFormat nfkc row.2).map
      (fun value => ((row : String × String).1, value)) = .ok value ↔
        value = (row.1, (ensureCounterFormat nfkc row.2).toOption.getD "") ∧
          (ensureCounterFormat nfkc row.2).isOk = true := by
    intro row value
    cases ensureCounterFormat nfkc row.2 with
    | error e => simp [Except.map, Except.isOk, Except.toBool]
    | ok v => simp [Except.map, Except.isOk, Except.toBool, Except.toOption, eq_comm]
  refine ⟨_, congrArg (Except.map Dict.ofList) ((mapM_eq_ok hformat _ _).mpr ⟨rfl, ?_⟩), ?_⟩
  · intro row hmem
    obtain ⟨value, hvalue⟩ := hrow row.1 row.2 hmem
    rw [hvalue]
    rfl
  · intro nid hmem
    have hnodup : (((s.counterRows nationalIds).map fun row =>
        (row.1, (ensureCounterFormat nfkc row.2).toOption.getD "")).map Prod.fst).Nodup := by
      rw [List.map_map]
      exact nodup_counterRows hk nationalIds
    cases hstored : truthy ((s.lockStudent nid).bind StudentModel.counter) with
    | none =>
      rw [fetchStudentCounter_none.mpr hstored]
      refine congrArg Except.ok (Option.eq_none_iff_forall_ne_some.mpr fun value hget => ?_).symm
      obtain ⟨row, hin, he⟩ := List.mem_map.mp ((Dict.get?_ofList_iff hnodup).mp hget)
      obtain ⟨rfl, -⟩ := Prod.mk.inj he
      have hsome := ((mem_counterRows hk row.2).mp hin).2
      rw [hstored] at hsome
      cases hsome
    | some counter =>
      have hin := (mem_counterRows hk _).mpr ⟨hmem, hstored⟩
      obtain ⟨value, hvalue⟩ := hrow nid counter hin
      rw [fetchStudentCounter_some hstored, hvalue]
      refine congrArg Except.ok ((Dict.get?_ofList_iff hnodup).mpr ?_).symm
      exact List.mem_map.mpr ⟨(nid, counter), hin, by rw [hvalue]; rfl⟩

/-- A malformed counter ends the chunk that one of its rows is in. -/
theorem fetchExistingCounters_error (hk : s.Keyed) {nationalIds : List String}
    (hmem : nationalId ∈ nationalIds)
    (hbad : (fetchStudentCounter nfkc s nationalId).isOk = false) :
    s.fetchExistingCounters nfkc nationalIds = .error counterMalformed := by
  have hstored : ∃ counter e,
      truthy ((s.lockStudent nationalId).bind StudentModel.counter) = some counter ∧
        ensureCounterFormat nfkc counter = .error e := by
    cases hstored : truthy ((s.lockStudent nationalId).bind StudentModel.counter) with
    | none =>
      rw [fetchStudentCounter_none.mpr hstored] at hbad
      cases hbad
    | some counter =>
      rw [fetchStudentCounter_some hstored] at hbad
      cases hvalue : ensureCounterFormat nfkc counter with
      | error e => exact ⟨counter, e, rfl, hvalue⟩
      | ok value =>
        rw [hvalue] at hbad
        cases hbad
  obtain ⟨counter, e, hstored, hvalue⟩ := hstored
  unfold CounterStore.fetchExistingCounters
  dsimp only
  rw [mapM_eq_error (e := counterMalformed) ?_
    ⟨_, (mem_counterRows hk counter).mpr ⟨hmem, hstored⟩, e, by simp only [hvalue, Except.map]⟩]
  · rfl
  · intro row e' he
    cases hrow : ensureCounterFormat nfkc row.2 with
    | error e =>
      simp only [hrow, Except.map] at he
      rw [← Except.error.inj he, ensureCounterFormat_error hrow]
    | ok value =>
      simp only [hrow, Except.map] at he
      cases he

end

/-- `assign_counter` for each row in turn, up to the first exception. -/
def assignRows (R : SqlAlchemyCounterRepository) (nfkc : String → String) :
    List BackfillRow → CounterStore → Except AssignError Unit × CounterStore
  | [], s => (.ok (), s)
  | row :: rows, s => andThen (assignCounter R nfkc s row.nationalId row.gender row.yearCode)
    fun _ s => assignRows R nfkc rows s

def CounterStore.drawn (R : SqlAlchemyCounterRepository) (s : CounterStore)
    (key : String × String) : Drawn :=
  draw counterMaxSeq (s.taken key) R.numbersTried (s.lastSeq key)

/-- The calls that `assignRows` makes, each with what it does. -/
inductive Assigns (R : SqlAlchemyCounterRepository) (nfkc : String → String) :
    List BackfillRow → CounterStore → Except AssignError Unit → CounterStore → Prop
  | done (s : CounterStore) : Assigns R nfkc [] s (.ok ()) s
  | known {row : BackfillRow} {rows : List BackfillRow} {s t : CounterStore}
      {outcome : Except AssignError Unit} {counter : String}
      (hfetch : fetchStudentCounter nfkc s row.nationalId = .ok (some counter))
      (hcall : assignCounter R nfkc s row.nationalId row.gender row.yearCode = (.ok counter, s))
      (hrest : Assigns R nfkc rows s outcome t) : Assigns R nfkc (row :: rows) s outcome t
  | failed {row : BackfillRow} {rows : List BackfillRow} {s t : CounterStore} {error : AssignError}
      (hfetch : fetchStudentCounter nfkc s row.nationalId = .ok none)
      (hcall : assignCounter R nfkc s row.nationalId row.gender row.yearCode = (.error error, t))
      (hsame : t.students = s.students)
      (hcause : s.drawn R row.seqKey = .refused ∧
        (∃ message, error = .service (dbConflict message)) ∨
        s.drawn R row.seqKey = .exhausted ∧ error = .service sequenceExhausted) :
      Assigns R nfkc (row :: rows) s (.error error) t
  | assigned {row : BackfillRow} {rows : List BackfillRow} {s t : CounterStore}
      {outcome : Except AssignError Unit} {n : Int} {counter : String} (hvalid : row.Valid nfkc s)
      (hfetch : fetchStudentCounter nfkc s row.nationalId = .ok none)
      (hdraw : s.drawn R row.seqKey = .number n)
      (hcall : assignCounter R nfkc s row.nationalId row.gender row.yearCode =
        (.ok counter, s.bind row.nationalId row.yearCode row.genderCode n))
      (hself : fetchStudentCounter nfkc (s.bind row.nationalId row.yearCode row.genderCode n)
        row.nationalId = .ok (some counter))
      (hrest : Assigns R nfkc rows (s.bind row.nationalId row.yearCode row.genderCode n)
        outcome t) :
      Assigns R nfkc (row :: rows) s outcome t

section
variable {R : SqlAlchemyCounterRepository} {nfkc : String → String} {s t : CounterStore}
  {row : BackfillRow} {rows : List BackfillRow} {outcome : Except AssignError Unit}
  {nationalId nid yearCode code : String} {n : Int}

theorem lockStudent_isSome :
    (s.lockStudent nid).isSome = true ↔ nid ∈ s.students.map StudentModel.nationalId := by
  rw [CounterStore.lockStudent, List.find?_isSome, List.mem_map]
  simp only [beq_iff_eq]

theorem BackfillRow.Valid.bind (h : row.Valid nfkc s) :
    row.Valid nfkc (s.bind nationalId yearCode code n) := by
  refine ⟨h.accepted, ?_⟩
  rw [lockStudent_isSome, CounterStore.nationalIds_bind, ← lockStudent_isSome]
  exact h.student

theorem inRange_of_draw {taken : Int → Bool} {tries : Nat} {last : Int}
    (h : draw counterMaxSeq taken tries last = .number n) : InRange n := by
  have hfirst := draw_eq_number.mp h
  have hstart := hfirst.start
  have hbehind := hfirst.behind
  exact ⟨by omega, hfirst.limit⟩

theorem assignRows_assigns (hn : DigitByDigit nfkc) (hk : s.Keyed)
    (hrows : ∀ row ∈ rows, row.Valid nfkc s)
    (hok : ∀ row ∈ rows, (fetchStudentCounter nfkc s row.nationalId).isOk = true) :
    Assigns R nfkc rows s (assignRows R nfkc rows s).1 (assignRows R nfkc rows s).2 := by
  induction rows generalizing s with
  | nil => exact .done s
  | cons row rows ih =>
    obtain ⟨hrow, hrows⟩ := List.forall_mem_cons.mp hrows
    obtain ⟨hrowOk, hok⟩ := List.forall_mem_cons.mp hok
    cases hfetch : fetchStudentCounter nfkc s row.nationalId with
    | error e =>
      rw [hfetch] at hrowOk
      cases hrowOk
    | ok stored =>
      cases stored with
      | some counter =>
        have hcall := assignCounter_known (R := R) hrow.accepted hfetch
        rw [assignRows, hcall]
        exact .known hfetch hcall (ih hk hrows hok)
      | none =>
        have hawaiting := hrow.awaiting hk hfetch
        have hcause := assignCounter_free (R := R) hrow.accepted hn hawaiting
        generalize hcall : assignCounter R nfkc s row.nationalId row.gender row.yearCode = result
          at hcause
        rw [assignRows, hcall]
        cases hcause with
        | conflict message hsame hdraw =>
          exact .failed hfetch hcall hsame (.inl ⟨hdraw, message, rfl⟩)
        | exhausted hsame hdraw => exact .failed hfetch hcall hsame (.inr ⟨hdraw, rfl⟩)
        | assigned hdraw =>
          have hself := fetchStudentCounter_bind_self hn hawaiting (inRange_of_draw hdraw)
          refine .assigned hrow hfetch hdraw hcall hself
            (ih hk.bind (fun r hr => (hrows r hr).bind) ?_)
          intro r hr
          by_cases he : r.nationalId = row.nationalId
          · rw [he, hself]
            rfl
          · rw [fetchStudentCounter_bind_other he]
            exact hok r hr

/-- Students keep their counters, and no counter that comes is malformed. -/
structure Grown (nfkc : String → String) (s t : CounterStore) : Prop where
  kept : ∀ nid, fetchStudentCounter nfkc s nid ≠ .ok none →
    fetchStudentCounter nfkc t nid = fetchStudentCounter nfkc s nid
  isOk : ∀ nid, (fetchStudentCounter nfkc t nid).isOk = (fetchStudentCounter nfkc s nid).isOk
  nationalIds : t.students.map StudentModel.nationalId = s.students.map StudentModel.nationalId
  keyed : s.Keyed → t.Keyed

theorem Grown.valid (h : Grown nfkc s t) (hrow : row.Valid nfkc s) : row.Valid nfkc t := by
  refine ⟨hrow.accepted, ?_⟩
  rw [lockStudent_isSome, h.nationalIds, ← lockStudent_isSome]
  exact hrow.student

theorem Assigns.grown (h : Assigns R nfkc rows s (.ok ()) t) : Grown nfkc s t := by
  generalize houtcome : (Except.ok () : Except AssignError Unit) = outcome at h
  induction h with
  | done s => exact ⟨fun _ _ => rfl, fun _ => rfl, rfl, id⟩
  | known hfetch hcall hrest ih => exact ih houtcome
  | failed hfetch hcall hsame hcause => cases houtcome
  | @assigned row rows s t outcome n counter hvalid hfetch hdraw hcall hself hrest ih =>
    have hgrown := ih houtcome
    refine ⟨fun nid hnid => ?_, fun nid => ?_,
      hgrown.nationalIds.trans CounterStore.nationalIds_bind, fun hk => hgrown.keyed hk.bind⟩
    · have hne : nid ≠ row.nationalId := by
        rintro rfl
        exact hnid hfetch
      have hother : fetchStudentCounter nfkc
          (s.bind row.nationalId row.yearCode row.genderCode n) nid =
            fetchStudentCounter nfkc s nid := fetchStudentCounter_bind_other hne
      exact (hgrown.kept nid (hother ▸ hnid)).trans hother
    · rw [hgrown.isOk nid]
      by_cases he : nid = row.nationalId
      · rw [he, hself, hfetch]
        rfl
      · rw [fetchStudentCounter_bind_other he]

/-- Afterwards every student of a row has a counter. -/
theorem Assigns.settled (h : Assigns R nfkc rows s (.ok ()) t) :
    ∀ row ∈ rows, fetchStudentCounter nfkc t row.nationalId ≠ .ok none := by
  generalize houtcome : (Except.ok () : Except AssignError Unit) = outcome at h
  induction h with
  | done s => exact fun _ hr => absurd hr List.not_mem_nil
  | known hfetch hcall hrest ih =>
    subst houtcome
    refine List.forall_mem_cons.mpr ⟨?_, ih rfl⟩
    rw [hrest.grown.kept _ (by rw [hfetch]; simp), hfetch]
    simp
  | failed hfetch hcall hsame hcause => cases houtcome
  | assigned hvalid hfetch hdraw hcall hself hrest ih =>
    subst houtcome
    refine List.forall_mem_cons.mpr ⟨?_, ih rfl⟩
    rw [hrest.grown.kept _ (by rw [hself]; simp), hself]
    simp

/-- Students without a row stay as they are. -/
theorem Assigns.other (h : Assigns R nfkc rows s outcome t)
    (hnid : nid ∉ rows.map BackfillRow.nationalId) :
    fetchStudentCounter nfkc t nid = fetchStudentCounter nfkc s nid := by
  induction h with
  | done s => rfl
  | known hfetch hcall hrest ih => exact ih fun hmem => hnid (List.mem_cons_of_mem _ hmem)
  | failed hfetch hcall hsame hcause =>
    simp only [fetchStudentCounter, CounterStore.lockStudent, hsame]
  | assigned hvalid hfetch hdraw hcall hself hrest ih =>
    rw [ih fun hmem => hnid (List.mem_cons_of_mem _ hmem)]
    exact fetchStudentCounter_bind_other fun he => hnid (he ▸ List.mem_cons_self)

end

/-- The last number of a sequence in a run's picture of it. -/
def Progress.last (p : Progress) (key : String × String) : Int := (p.seqSnapshot.get? key).getD 0

/-- What a run notes for a student who has a counter with this serial. -/
def Progress.reuse (p : Progress) (row : BackfillRow) (counter : String) (n : Int) : Progress :=
  if hasPrefix counter (row.yearCode ++ row.genderCode) then
    { p with
      seqSnapshot := p.seqSnapshot.set row.seqKey (max (p.last row.seqKey) n)
      reused := p.reused + 1 }
  else { p with prefixMismatches := p.prefixMismatches + 1, reused := p.reused + 1 }

/-- What the statistics of an applied run become with a row, by the counters that were
fetched. -/
def BackfillStats.count (known : String → Option String) (stats : BackfillStats)
    (row : BackfillRow) : BackfillStats :=
  match known row.nationalId with
  | none => { stats with applied := stats.applied + 1 }
  | some counter =>
    if hasPrefix counter (row.yearCode ++ row.genderCode) then
      { stats with reused := stats.reused + 1 }
    else { stats with
      prefixMismatches := stats.prefixMismatches + 1, reused := stats.reused + 1 }

section
variable {R : SqlAlchemyCounterRepository} {nfkc : String → String} {apply : Bool}
  {s t : CounterStore} {row : BackfillRow} {rows : List BackfillRow} {p : Progress}
  {outcome : Except AssignError Unit} {existing : Dict String String} {counter : String} {n : Int}

theorem processRow_known (hgender : genderPrefix row.gender = some row.genderCode)
    (hget : existing.get? row.nationalId = some counter) (hserial : serial counter = some n) :
    processRow R nfkc apply existing row p s = (.ok (p.reuse row counter n), s) := by
  rw [processRow, hgender]
  simp only [hget, processKnown, hserial, Progress.reuse]
  cases hasPrefix counter (row.yearCode ++ row.genderCode) <;> rfl

theorem Progress.stats_reuse (hget : existing.get? row.nationalId = some counter) :
    (p.reuse row counter n).stats apply = (p.stats apply).count existing.get? row := by
  rw [BackfillStats.count, hget]
  simp only [Progress.reuse]
  cases hasPrefix counter (row.yearCode ++ row.genderCode) <;> rfl

theorem processRow_new (hgender : genderPrefix row.gender = some row.genderCode)
    (hget : existing.get? row.nationalId = none) :
    processRow R nfkc apply existing row p s = processNew R nfkc apply row row.seqKey p s := by
  rw [processRow, hgender]
  simp only [hget]
  rfl

theorem processNew_assigned (hserial : serial counter = some n)
    (hcall : assignCounter R nfkc s row.nationalId row.gender row.yearCode = (.ok counter, t)) :
    processNew R nfkc true row row.seqKey p s = (.ok { p with
      seqSnapshot := p.seqSnapshot.set row.seqKey (max (p.last row.seqKey) n)
      applied := p.applied + 1 }, t) := by
  unfold processNew
  rw [hcall]
  simp only [Except.mapError, andThen_ok, hserial]
  rfl

theorem processNew_failed {error : AssignError}
    (hcall : assignCounter R nfkc s row.nationalId row.gender row.yearCode = (.error error, t)) :
    processNew R nfkc true row row.seqKey p s = (.error (.ofAssign error), t) := by
  unfold processNew
  rw [hcall]
  rfl

/-- What was fetched is still so, though students may have got counters since. -/
def Fetched (nfkc : String → String) (existing : Dict String String) (rows : List BackfillRow)
    (s : CounterStore) : Prop :=
  ∀ row ∈ rows, ∀ counter, existing.get? row.nationalId = some counter →
    fetchStudentCounter nfkc s row.nationalId = .ok (some counter)

/-- A row whose student got a counter, now or since the chunk was fetched. -/
theorem processRow_assigned (hgender : genderPrefix row.gender = some row.genderCode)
    (hget : existing.get? row.nationalId = none) (hserial : serial counter = some n)
    (hcall : assignCounter R nfkc s row.nationalId row.gender row.yearCode = (.ok counter, t)) :
    ∃ q, processRow R nfkc true existing row p s = (.ok q, t) ∧
      q.stats true = (p.stats true).count existing.get? row := by
  refine ⟨_, (processRow_new hgender hget).trans (processNew_assigned hserial hcall), ?_⟩
  rw [BackfillStats.count, hget]
  rfl

/-- What the run of a chunk ends in, by the calls of `assign_counter` that it makes. -/
structure ChunkOutcome (existing : Dict String String) (rows : List BackfillRow) (p : Progress)
    (outcome : Except AssignError Unit) (t : CounterStore)
    (result : Except BackfillError Progress × CounterStore) : Prop where
  failed : ∀ error, outcome = .error error → result = (.error (.ofAssign error), t)
  done : outcome = .ok () → ∃ q, result = (.ok q, t) ∧
    q.stats true = rows.foldl (BackfillStats.count existing.get?) (p.stats true)

theorem ChunkOutcome.cons {q : Progress}
    {result : Except BackfillError Progress × CounterStore}
    (h : ChunkOutcome existing rows q outcome t result)
    (hstats : q.stats true = (p.stats true).count existing.get? row) :
    ChunkOutcome existing (row :: rows) p outcome t result := by
  refine ⟨h.failed, fun houtcome => ?_⟩
  rw [List.foldl_cons, ← hstats]
  exact h.done houtcome

/-- A chunk does to the tables what the calls of `assign_counter` do. -/
theorem processChunk_apply (h : Assigns R nfkc rows s outcome t)
    (hgender : ∀ row ∈ rows, genderPrefix row.gender = some row.genderCode)
    (hfetched : Fetched nfkc existing rows s) :
    ChunkOutcome existing rows p outcome t (processChunk R nfkc true existing rows p s) := by
  induction h generalizing p with
  | done s => exact ⟨nofun, fun _ => ⟨p, rfl, rfl⟩⟩
  | @known row rows s t outcome counter hfetch hcall hrest ih =>
    obtain ⟨hrow, hgender⟩ := List.forall_mem_cons.mp hgender
    obtain ⟨n, hserial⟩ := fetchStudentCounter_serial hfetch
    have hfetched' : Fetched nfkc existing rows s :=
      fun r hr => hfetched r (List.mem_cons_of_mem _ hr)
    rw [processChunk]
    cases hget : existing.get? row.nationalId with
    | none =>
      obtain ⟨q, hq, hstats⟩ := processRow_assigned (p := p) hrow hget hserial hcall
      rw [hq, andThen_ok]
      exact (ih hgender hfetched').cons hstats
    | some counter' =>
      have hsame := hfetched row List.mem_cons_self counter' hget
      rw [hfetch] at hsame
      obtain rfl := Option.some.inj (Except.ok.inj hsame)
      rw [processRow_known hrow hget hserial, andThen_ok]
      exact (ih hgender hfetched').cons (Progress.stats_reuse hget)
  | @failed row rows s t error hfetch hcall hsame hcause =>
    have hget : existing.get? row.nationalId = none := by
      refine Option.eq_none_iff_forall_ne_some.mpr fun counter hget => ?_
      have := hfetched row List.mem_cons_self counter hget
      rw [hfetch] at this
      cases this
    refine ⟨fun error' he => ?_, nofun⟩
    obtain rfl := Except.error.inj he
    rw [processChunk, processRow_new (hgender row List.mem_cons_self) hget,
      processNew_failed hcall, andThen_error]
  | @assigned row rows s t outcome n₀ counter hvalid hfetch hdraw hcall hself hrest ih =>
    obtain ⟨hrow, hgender⟩ := List.forall_mem_cons.mp hgender
    obtain ⟨n, hserial⟩ := fetchStudentCounter_serial hself
    have hget : existing.get? row.nationalId = none := by
      refine Option.eq_none_iff_forall_ne_some.mpr fun counter hget => ?_
      have := hfetched row List.mem_cons_self counter hget
      rw [hfetch] at this
      cases this
    have hfetched' : Fetched nfkc existing rows
        (s.bind row.nationalId row.yearCode row.genderCode n₀) := by
      intro r hr counter' hget'
      have hne : r.nationalId ≠ row.nationalId := by
        intro he
        rw [he, hget] at hget'
        cases hget'
      rw [fetchStudentCounter_bind_other hne]
      exact hfetched r (List.mem_cons_of_mem _ hr) counter' hget'
    obtain ⟨q, hq, hstats⟩ := processRow_assigned (p := p) hrow hget hserial hcall
    rw [processChunk, hq, andThen_ok]
    exact (ih hgender hfetched').cons hstats

end

end Counter

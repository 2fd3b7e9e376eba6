import MentorAllocation.Counter.Proofs.Chunking
import MentorAllocation.Data.Numbering

namespace Counter
open Text Data
open SqlAlchemyCounterRepository (fetchStudentCounter)

/-- What a row does to the sequences in a dry run. -/
def CounterStore.use (nfkc : String → String) (s : CounterStore) (row : BackfillRow) :
    Use (String × String) :=
  match s.known nfkc row.nationalId with
  | none => .take row.seqKey
  | some counter =>
    if hasPrefix counter (row.yearCode ++ row.genderCode) then
      (serial counter).elim .pass (.seen row.seqKey)
    else .pass

section
variable {R : SqlAlchemyCounterRepository} {nfkc : String → String} {s t : CounterStore}
  {row : BackfillRow} {rows chunk : List BackfillRow} {chunks : List (List BackfillRow)}
  {p : Progress} {existing : Dict String String} {nationalId : String}

theorem known_of_fetch {stored : Option String}
    (h : fetchStudentCounter nfkc s nationalId = .ok stored) :
    s.known nfkc nationalId = stored := by
  rw [CounterStore.known, h]
  rfl

theorem last_snapshot (hk : s.Keyed) (key : String × String) :
    (s.snapshotSequences.get? key).getD 0 = s.lastSeq key := by
  have hnodup : ((s.sequences.map fun row => ((row.yearCode, row.genderCode), row.lastSeq)).map
      Prod.fst).Nodup := by
    rw [List.map_map]
    exact hk.sequences
  rw [CounterStore.lastSeq]
  cases hrow : s.selectSequenceRow key.1 key.2 with
  | none =>
    have hnone : s.snapshotSequences.get? key = none := by
      refine Option.eq_none_iff_forall_ne_some.mpr fun n hn => ?_
      obtain ⟨row, hmem, he⟩ := List.mem_map.mp ((Dict.get?_ofList_iff hnodup).mp hn)
      obtain ⟨rfl, -⟩ := Prod.mk.inj he
      have := List.find?_eq_none.mp hrow row hmem
      simp at this
    rw [hnone]
    rfl
  | some row =>
    obtain ⟨hy, hg⟩ := CounterStore.selectSequenceRow_key hrow
    have hsome : s.snapshotSequences.get? key = some row.lastSeq := by
      refine (Dict.get?_ofList_iff hnodup).mpr (List.mem_map.mpr
        ⟨row, List.mem_of_find?_eq_some hrow, ?_⟩)
      rw [hy, hg]
    rw [hsome]
    rfl

theorem Progress.last_set (key : String × String) (n : Int) (q : Progress)
    (h : q.seqSnapshot = p.seqSnapshot.set key n) : q.last = Function.update p.last key n := by
  funext other
  rw [Progress.last, h, Dict.get?_set]
  by_cases he : other = key
  · rw [if_pos he, he, Function.update_self]
    rfl
  · rw [if_neg he, Function.update_of_ne he]
    rfl

/-- A row of a dry run takes the next number of its sequence, or notes the student's own. -/
theorem processRow_dry (hgender : genderPrefix row.gender = some row.genderCode)
    (hget : fetchStudentCounter nfkc s row.nationalId =
      .ok (existing.get? row.nationalId)) :
    (∀ key, s.use nfkc row = .take key → ¬ InRange (p.last key + 1) →
      processRow R nfkc false existing row p s = (.error (.service sequenceExhausted), s)) ∧
    ((∀ key, s.use nfkc row = .take key → InRange (p.last key + 1)) →
      ∃ q, processRow R nfkc false existing row p s = (.ok q, s) ∧
        q.last = (s.use nfkc row).next p.last ∧
        q.skipped = p.skipped + (freeRows s [row]).length) := by
  have hknown := known_of_fetch hget
  cases hstored : existing.get? row.nationalId with
  | none =>
    rw [hstored] at hget hknown
    have huse : s.use nfkc row = .take row.seqKey := by rw [CounterStore.use, hknown]
    have hfree : freeRows s [row] = [row] := by
      simp [freeRows, hasCounter_eq_false.mpr hget]
    rw [processRow_new hgender hstored, huse, hfree]
    rcases ensureSequenceBounds_eq (n := p.last row.seqKey + 1) with
      ⟨hbounds, hrange⟩ | ⟨hbounds, hrange⟩
    · refine ⟨fun key hkey hnot => ?_, fun _ => ?_⟩
      · obtain rfl := Use.take.inj hkey
        exact absurd hrange hnot
      · refine ⟨{ p with
          seqSnapshot := p.seqSnapshot.set row.seqKey (p.last row.seqKey + 1)
          skipped := p.skipped + 1 }, ?_, Progress.last_set _ _ _ rfl, rfl⟩
        have hbounds' : ensureSequenceBounds ((p.seqSnapshot.get? row.seqKey).getD 0 + 1) =
            .ok (p.last row.seqKey + 1) := hbounds
        unfold processNew
        simp only [Bool.not_false, if_true, hbounds']
    · refine ⟨fun key hkey _ => ?_, fun h => absurd (h row.seqKey rfl) hrange⟩
      have hbounds' : ensureSequenceBounds ((p.seqSnapshot.get? row.seqKey).getD 0 + 1) =
          .error sequenceExhausted := hbounds
      unfold processNew
      simp only [Bool.not_false, if_true, hbounds']
  | some counter =>
    rw [hstored] at hget hknown
    obtain ⟨n, hserial⟩ := fetchStudentCounter_serial hget
    have hbound : freeRows s [row] = [] := by
      have hhas : s.hasCounter row.nationalId = true := by
        by_contra hnone
        rw [Bool.not_eq_true, hasCounter_eq_false, hget] at hnone
        cases hnone
      simp [freeRows, hhas]
    have huse : s.use nfkc row = if hasPrefix counter (row.yearCode ++ row.genderCode) then
        .seen row.seqKey n else .pass := by
      rw [CounterStore.use, hknown]
      simp only [hserial, Option.elim_some]
    rw [processRow_known hgender hstored hserial, huse, hbound]
    split
    · next hinit =>
      refine ⟨fun _ htake => absurd htake (by simp), fun _ => ⟨_, rfl, ?_, ?_⟩⟩
      · exact Progress.last_set _ _ _ (by rw [Progress.reuse, if_pos hinit])
      · rw [Progress.reuse, if_pos hinit]
        rfl
    · next hinit =>
      refine ⟨fun _ htake => absurd htake (by simp), fun _ => ⟨_, rfl, ?_, ?_⟩⟩
      · rw [Progress.reuse, if_neg hinit]
        rfl
      · rw [Progress.reuse, if_neg hinit]
        rfl

/-- What a dry run of rows ends in, by the numbers that they take. -/
structure DryOutcome (nfkc : String → String) (s : CounterStore) (rows : List BackfillRow)
    (p : Progress) (result : Except BackfillError Progress × CounterStore) : Prop where
  exhausted : ¬ Use.Fit counterMaxSeq p.last (rows.map (s.use nfkc)) →
    result = (.error (.service sequenceExhausted), s)
  done : Use.Fit counterMaxSeq p.last (rows.map (s.use nfkc)) → ∃ q, result = (.ok q, s) ∧
    q.last = Use.after p.last (rows.map (s.use nfkc)) ∧
    q.skipped = p.skipped + (freeRows s rows).length

theorem DryOutcome.append (rows : List BackfillRow) {more : List BackfillRow} {q : Progress}
    {result : Except BackfillError Progress × CounterStore}
    (h : DryOutcome nfkc s more q result)
    (hlast : q.last = Use.after p.last (rows.map (s.use nfkc)))
    (hfit : Use.Fit counterMaxSeq p.last (rows.map (s.use nfkc)))
    (hskipped : q.skipped = p.skipped + (freeRows s rows).length) :
    DryOutcome nfkc s (rows ++ more) p result := by
  have hiff : Use.Fit counterMaxSeq p.last ((rows ++ more).map (s.use nfkc)) ↔
      Use.Fit counterMaxSeq q.last (more.map (s.use nfkc)) := by
    rw [List.map_append, Use.fit_append, ← hlast, and_iff_right hfit]
  refine ⟨fun hnot => h.exhausted fun hmore => hnot (hiff.mpr hmore), fun hall => ?_⟩
  obtain ⟨final, hresult, hfinal, hcount⟩ := h.done (hiff.mp hall)
  refine ⟨final, hresult, ?_, ?_⟩
  · rw [hfinal, hlast, List.map_append, Use.after, Use.after, Use.after, List.foldl_append]
  · rw [hcount, hskipped, freeRows, freeRows, freeRows, List.filter_append, List.length_append,
      Nat.add_assoc]

theorem processChunk_dry (hgender : ∀ row ∈ rows, genderPrefix row.gender = some row.genderCode)
    (hget : ∀ row ∈ rows,
      fetchStudentCounter nfkc s row.nationalId = .ok (existing.get? row.nationalId)) :
    DryOutcome nfkc s rows p (processChunk R nfkc false existing rows p s) := by
  induction rows generalizing p with
  | nil => exact ⟨fun h => absurd trivial h, fun _ => ⟨p, rfl, rfl, rfl⟩⟩
  | cons row rows ih =>
    obtain ⟨hrow, hgender⟩ := List.forall_mem_cons.mp hgender
    obtain ⟨hrowGet, hget⟩ := List.forall_mem_cons.mp hget
    obtain ⟨hexhausted, hdone⟩ := processRow_dry (R := R) (p := p) hrow hrowGet
    rw [processChunk]
    by_cases hfits : ∀ key, s.use nfkc row = .take key → InRange (p.last key + 1)
    · obtain ⟨q, hq, hlast, hskipped⟩ := hdone hfits
      rw [hq, andThen_ok]
      exact (ih hgender hget).append [row] hlast ⟨hfits, trivial⟩ hskipped
    · obtain ⟨key, hkey⟩ := not_forall.mp hfits
      obtain ⟨huse, hrange⟩ := Classical.not_imp.mp hkey
      rw [hexhausted key huse hrange, andThen_error]
      exact ⟨fun _ => rfl, fun h => absurd (h.1 key huse) hrange⟩

/-- A dry run over sound chunks. -/
theorem processChunks_dry (hk : s.Keyed) (hvalid : ∀ row ∈ chunks.flatten, row.Valid nfkc s)
    (hok : ∀ row ∈ chunks.flatten, (fetchStudentCounter nfkc s row.nationalId).isOk = true) :
    DryOutcome nfkc s chunks.flatten p
      (processChunks R nfkc false (chunks.map Except.ok) p s) := by
  induction chunks generalizing p with
  | nil => exact ⟨fun h => absurd trivial h, fun _ => ⟨p, rfl, rfl, rfl⟩⟩
  | cons chunk chunks ih =>
    rw [List.flatten_cons] at hvalid hok ⊢
    have hhead : ∀ row ∈ chunk, row.Valid nfkc s :=
      fun row hrow => hvalid row (List.mem_append_left _ hrow)
    obtain ⟨existing, hexisting, hget⟩ :=
      fetchExistingCounters_ok hk (chunk.map BackfillRow.nationalId) (by
        intro nid hnid
        obtain ⟨row, hrow, rfl⟩ := List.mem_map.mp hnid
        exact hok row (List.mem_append_left _ hrow))
    have hchunk := processChunk_dry (R := R)
      (p := { p with totalRows := p.totalRows + chunk.length })
      (fun row hrow => (hhead row hrow).gender)
      (fun row hrow => hget _ (List.mem_map_of_mem hrow))
    rw [List.map_cons, processChunks, hexisting]
    by_cases hfits : Use.Fit counterMaxSeq p.last (chunk.map (s.use nfkc))
    · obtain ⟨q, hq, hlast, hskipped⟩ := hchunk.done hfits
      simp only [hq, andThen_ok]
      exact (ih (fun row hrow => hvalid row (List.mem_append_right _ hrow))
        fun row hrow => hok row (List.mem_append_right _ hrow)).append _ hlast hfits hskipped
    · simp only [hchunk.exhausted hfits, andThen_error]
      refine ⟨fun _ => rfl, fun h => absurd ?_ hfits⟩
      rw [List.map_append, Use.fit_append] at h
      exact h.1

/-- A malformed counter ends a dry run, unless a sequence is exhausted before. -/
theorem processChunks_dry_malformed (hk : s.Keyed)
    (hvalid : ∀ row ∈ chunks.flatten, row.Valid nfkc s)
    (hbad : ∃ row ∈ chunks.flatten, Malformed nfkc s row) :
    ∃ error, (processChunks R nfkc false (chunks.map Except.ok) p s).1 = .error (.service error) ∧
      error.code = "E_COUNTER_EXHAUSTED" := by
  induction chunks generalizing p with
  | nil =>
    obtain ⟨row, hrow, -⟩ := hbad
    cases hrow
  | cons chunk chunks ih =>
    rw [List.map_cons]
    cases hsound : soundChunk nfkc s chunk with
    | false =>
      rw [processChunks_unsound hk hsound]
      exact ⟨_, rfl, rfl⟩
    | true =>
      have hok : ∀ row ∈ chunk, (fetchStudentCounter nfkc s row.nationalId).isOk = true :=
        List.all_eq_true.mp hsound
      rw [List.flatten_cons] at hvalid hbad
      have htail : ∃ row ∈ chunks.flatten, Malformed nfkc s row := by
        obtain ⟨row, hrow, hmalformed⟩ := hbad
        rcases List.mem_append.mp hrow with h | h
        · have hisOk := hok row h
          rw [hmalformed] at hisOk
          cases hisOk
        · exact ⟨row, h, hmalformed⟩
      obtain ⟨existing, hexisting, hget⟩ :=
        fetchExistingCounters_ok hk (chunk.map BackfillRow.nationalId) (by simpa using hok)
      have hchunk := processChunk_dry (R := R)
        (p := { p with totalRows := p.totalRows + chunk.length })
        (fun row hrow => (hvalid row (List.mem_append_left _ hrow)).gender)
        (fun row hrow => hget _ (List.mem_map_of_mem hrow))
      rw [processChunks, hexisting]
      by_cases hfits : Use.Fit counterMaxSeq p.last (chunk.map (s.use nfkc))
      · obtain ⟨q, hq, -, -⟩ := hchunk.done hfits
        simp only [hq, andThen_ok]
        exact ih (fun row hrow => hvalid row (List.mem_append_right _ hrow)) htail
      · simp only [hchunk.exhausted hfits, andThen_error]
        exact ⟨_, rfl, rfl⟩

end

end Counter

import Mathlib.Data.List.Nodup
import MentorAllocation.Counter.Proofs.Digits
import MentorAllocation.Counter.Repository
import MentorAllocation.Data.Drawing
import MentorAllocation.Text.Padding

namespace Counter
open Text Data

/-- What ends a call when the numbers of a sequence are used up. -/
def sequenceExhausted : CounterServiceError :=
  counterExhausted "محدوده شماره شمارنده به پایان رسیده است."

/-- What ends a call that meets a stored counter of another form. -/
def counterMalformed : CounterServiceError :=
  counterExhausted "فرمت شمارنده معتبر نیست یا ظرفیت پایان یافته است."

def InRange (n : Int) : Prop := 1 ≤ n ∧ n ≤ counterMaxSeq

theorem ensureSequenceBounds_eq {n : Int} :
    ensureSequenceBounds n = .ok n ∧ InRange n ∨
      ensureSequenceBounds n = .error sequenceExhausted ∧ ¬ InRange n := by
  by_cases h : InRange n
  · exact .inl ⟨if_pos (by simpa [InRange] using h), h⟩
  · exact .inr ⟨if_neg (by simpa [InRange] using h), h⟩

theorem ensureCounterFormat_error {nfkc : String → String} {text : String}
    {error : CounterServiceError} (h : ensureCounterFormat nfkc text = .error error) :
    error = counterMalformed := by
  unfold ensureCounterFormat at h
  split at h
  · cases h
  · exact (Except.error.inj h).symm

theorem digitsPattern_iff {n : Nat} {text : String} :
    digitsPattern n text = true ↔ text.toList.length = n ∧ text.toList.all isDecimal = true := by
  rw [digitsPattern, Bool.and_eq_true, beq_iff_eq]

section
variable {nfkc : String → String} {rawId rawYear nationalId yearCode code : String} {gender : Int}

structure Accepted (nationalId : String) (gender : Int) (yearCode : String) : Prop where
  nationalId : digitsPattern 10 nationalId = true
  gender : (genderPrefix gender).isSome = true
  yearCode : digitsPattern 2 yearCode = true

theorem ensureValidInputs_ok :
    ensureValidInputs nfkc rawId gender rawYear = .ok (nationalId, yearCode) ↔
      normalize nfkc rawId = nationalId ∧ normalize nfkc rawYear = yearCode ∧
        Accepted nationalId gender yearCode := by
  constructor
  · intro h
    simp only [ensureValidInputs] at h
    split_ifs at h with hid hgender hyear
    obtain ⟨rfl, rfl⟩ := Prod.mk.inj (Except.ok.inj h)
    exact ⟨rfl, rfl, by simpa using hid, by simpa [Option.isSome_iff_ne_none] using hgender,
      by simpa using hyear⟩
  · rintro ⟨rfl, rfl, hid, hgender, hyear⟩
    have hnone : (genderPrefix gender).isNone = false := by
      rw [← Option.not_isSome, hgender]
      rfl
    simp [ensureValidInputs, hid, hnone, hyear]

/-- Accepted inputs are accepted again in the form that they were given. -/
theorem ensureValidInputs_again (hf : NormalForm nfkc) (hn : DigitByDigit nfkc)
    (h : ensureValidInputs nfkc rawId gender rawYear = .ok (nationalId, yearCode)) :
    ensureValidInputs nfkc nationalId gender yearCode = .ok (nationalId, yearCode) := by
  obtain ⟨rfl, rfl, hok⟩ := ensureValidInputs_ok.mp h
  exact ensureValidInputs_ok.mpr ⟨normalize_again hf hn (digitsPattern_iff.mp hok.nationalId).2,
    normalize_again hf hn (digitsPattern_iff.mp hok.yearCode).2, hok⟩

end

def counterText (yearCode code : String) (n : Int) : String :=
  foldedText yearCode ++ code ++ zeroPad 4 n

section
variable {nfkc : String → String} {yearCode code : String} {n : Int} {gender : Int}

theorem foldedText_append (s t : String) : foldedText (s ++ t) = foldedText s ++ foldedText t := by
  rw [← String.toList_inj]
  simp [foldedText]

theorem foldedText_ascii {s : String} (h : ∀ c ∈ s.toList, c.isDigit = true) :
    s.toList.all isDecimal = true ∧ foldedText s = s := by
  refine ⟨List.all_eq_true.mpr fun c hc => (ascii_digit (h c hc)).1, ?_⟩
  rw [foldedText, List.map_congr_left fun c hc => (ascii_digit (h c hc)).2, List.map_id',
    String.ofList_toList]

theorem zeroPad_digits (h : 0 ≤ n) : ∀ c ∈ (zeroPad 4 n).toList, c.isDigit = true := by
  intro c hc
  obtain ⟨k, rfl⟩ := Int.eq_ofNat_of_zero_le h
  rcases zeroPad_chars hc with rfl | hc'
  · exact absurd hc (zeroPad_no_sign 4 k)
  · exact hc'

theorem genderPrefix_digits (h : genderPrefix gender = some code) :
    (∀ c ∈ code.toList, c.isDigit = true) ∧
      ∃ p₁ p₂ p₃, code.toList = [p₁, p₂, p₃] ∧ (code = "357" ∨ code = "373") := by
  rcases genderPrefix_cases h with ⟨-, rfl⟩ | ⟨-, rfl⟩
  · exact ⟨List.all_eq_true.mp rfl, _, _, _, rfl, .inr rfl⟩
  · exact ⟨List.all_eq_true.mp rfl, _, _, _, rfl, .inl rfl⟩

theorem zeroPad_four (h : InRange n) : ∃ s₁ s₂ s₃ s₄, (zeroPad 4 n).toList = [s₁, s₂, s₃, s₄] := by
  obtain ⟨k, rfl⟩ := Int.eq_ofNat_of_zero_le (Int.le_trans (by decide) h.1)
  have hk : k < 10 ^ 4 := by
    have := h.2
    simp only [counterMaxSeq] at this
    omega
  have hlength := zeroPad_length (by decide) hk
  exact List.length_eq_four.mp hlength

/-- A new counter is stored as it was made, its year's digits apart. -/
theorem ensureCounterFormat_new (hn : DigitByDigit nfkc) (hy : digitsPattern 2 yearCode = true)
    (hcode : genderPrefix gender = some code) (hr : InRange n) :
    ensureCounterFormat nfkc (yearCode ++ code ++ zeroPad 4 n) =
      .ok (counterText yearCode code n) := by
  obtain ⟨hlength, hdecimal⟩ := digitsPattern_iff.mp hy
  obtain ⟨hcodeDigits, p₁, p₂, p₃, hp, hcode'⟩ := genderPrefix_digits hcode
  obtain ⟨hcodeDecimal, hcodeFolded⟩ := foldedText_ascii hcodeDigits
  obtain ⟨hseqDecimal, hseqFolded⟩ :=
    foldedText_ascii (zeroPad_digits (n := n) (Int.le_trans (by decide) hr.1))
  have hfolded : foldedText (yearCode ++ code ++ zeroPad 4 n) = counterText yearCode code n := by
    rw [foldedText_append, foldedText_append, hcodeFolded, hseqFolded, counterText]
  have hall : (yearCode ++ code ++ zeroPad 4 n).toList.all isDecimal = true := by
    simp only [String.toList_append, List.all_append, hdecimal, hcodeDecimal, hseqDecimal,
      Bool.and_self]
  have hregex : counterRegex (counterText yearCode code n) = true := by
    have hyear := foldedText_decimal hdecimal
    have hlen : (foldedText yearCode).toList.length = 2 := by
      rw [foldedText, String.toList_ofList, List.length_map, hlength]
    obtain ⟨y₁, y₂, hy₁⟩ := List.length_eq_two.mp hlen
    obtain ⟨s₁, s₂, s₃, s₄, hs⟩ := zeroPad_four hr
    rw [hs] at hseqDecimal
    rw [hy₁] at hyear
    simp only [counterRegex, counterText, String.toList_append, hy₁, hp, hs, List.cons_append,
      List.nil_append]
    rw [← hp, String.ofList_toList]
    simp only [List.all_cons, List.all_nil, Bool.and_true, Bool.and_eq_true] at hyear hseqDecimal
    simp only [List.all_cons, List.all_nil, hyear, hseqDecimal, Bool.and_true, Bool.true_and]
    rcases hcode' with rfl | rfl <;> rfl
  rw [← hfolded]
  exact ensureCounterFormat_digits hn hall (hfolded ▸ hregex)

end

namespace CounterStore

/-- The last number of a sequence, zero where there is no row. -/
def lastSeq (s : CounterStore) (key : String × String) : Int :=
  ((s.selectSequenceRow key.1 key.2).map CounterSequenceModel.lastSeq).getD 0

/-- The sequence's row now holds the number; it is added when there was none. -/
def withLastSeq (s : CounterStore) (key : String × String) (n : Int) : CounterStore :=
  (if (s.selectSequenceRow key.1 key.2).isSome then s else s.addSequenceRow key.1 key.2).setLastSeq
    key.1 key.2 n

structure Keyed (s : CounterStore) : Prop where
  students : (s.students.map StudentModel.nationalId).Nodup
  sequences : (s.sequences.map fun row => (row.yearCode, row.genderCode)).Nodup

section
variable {s : CounterStore} {key other : String × String} {n : Int}
  {nationalId nid counter : String}

theorem students_withLastSeq : (s.withLastSeq key n).students = s.students := by
  rw [withLastSeq]
  split <;> rfl

theorem lockStudent_withLastSeq : (s.withLastSeq key n).lockStudent nid = s.lockStudent nid := by
  rw [lockStudent, students_withLastSeq, lockStudent]

theorem selectSequenceRow_setLastSeq (y g : String) :
    (s.setLastSeq key.1 key.2 n).selectSequenceRow y g =
      (s.selectSequenceRow y g).map fun row =>
        if row.yearCode == key.1 && row.genderCode == key.2 then { row with lastSeq := n }
        else row := by
  simp only [selectSequenceRow, setLastSeq, List.find?_map]
  congr 2
  funext row
  simp only [Function.comp_apply]
  split <;> rfl

theorem selectSequenceRow_key {y g : String} {row : CounterSequenceModel}
    (h : s.selectSequenceRow y g = some row) : row.yearCode = y ∧ row.genderCode = g := by
  have := List.find?_some h
  simpa using this

theorem selectSequenceRow_addSequenceRow (y g y' g' : String) :
    (s.addSequenceRow y g).selectSequenceRow y' g' =
      (s.selectSequenceRow y' g').or (if y = y' ∧ g = g' then some ⟨y, g, 0⟩ else none) := by
  simp only [selectSequenceRow, addSequenceRow, List.find?_append, List.find?_cons,
    List.find?_nil]
  by_cases h : y = y' ∧ g = g'
  · simp [h]
  · have hb : (y == y' && g == g') = false := by simpa using h
    simp [h, hb]

/-- `_next_sequence` finds the row that it looks for or adds. -/
theorem selectSequenceRow_ensured (s : CounterStore) (y g : String) :
    ∃ row, CounterStore.selectSequenceRow (if (s.selectSequenceRow y g).isSome then s
      else s.addSequenceRow y g) y g = some row ∧ row.lastSeq = s.lastSeq (y, g) := by
  split
  · next h =>
    obtain ⟨row, hrow⟩ := Option.isSome_iff_exists.mp h
    exact ⟨row, hrow, by rw [lastSeq, hrow]; rfl⟩
  · next h =>
    have hnone := Option.not_isSome_iff_eq_none.mp h
    rw [selectSequenceRow_addSequenceRow, hnone]
    exact ⟨_, if_pos ⟨rfl, rfl⟩, by rw [lastSeq, hnone]; rfl⟩

theorem lastSeq_withLastSeq :
    (s.withLastSeq key n).lastSeq other = if other = key then n else s.lastSeq other := by
  rw [lastSeq, withLastSeq, selectSequenceRow_setLastSeq]
  by_cases hother : other = key
  · subst hother
    obtain ⟨row, hrow, -⟩ := s.selectSequenceRow_ensured other.1 other.2
    obtain ⟨hy, hg⟩ := selectSequenceRow_key hrow
    simp [hrow, hy, hg]
  · have hsame : CounterStore.selectSequenceRow (if (s.selectSequenceRow key.1 key.2).isSome
        then s else s.addSequenceRow key.1 key.2) other.1 other.2 =
          s.selectSequenceRow other.1 other.2 := by
      split
      · rfl
      · have hne : ¬ (key.1 = other.1 ∧ key.2 = other.2) :=
          fun h => hother (Prod.ext h.1.symm h.2.symm)
        rw [selectSequenceRow_addSequenceRow, if_neg hne, Option.or_none]
    rw [hsame, if_neg hother, lastSeq, Option.map_map]
    congr 1
    refine Option.map_congr fun row hrow => ?_
    obtain ⟨hy, hg⟩ := selectSequenceRow_key hrow
    have hne : ¬ (row.yearCode = key.1 ∧ row.genderCode = key.2) :=
      fun h => hother (Prod.ext (hy.symm.trans h.1) (hg.symm.trans h.2))
    have hb : (row.yearCode == key.1 && row.genderCode == key.2) = false := by simpa using hne
    rw [Function.comp_apply, hb]
    rfl

theorem Keyed.withLastSeq (h : s.Keyed) : (s.withLastSeq key n).Keyed := by
  refine ⟨by rw [students_withLastSeq]; exact h.students, ?_⟩
  have hset : ∀ t : CounterStore, (t.setLastSeq key.1 key.2 n).sequences.map
      (fun row => (row.yearCode, row.genderCode)) =
        t.sequences.map fun row => (row.yearCode, row.genderCode) := by
    intro t
    rw [setLastSeq, List.map_map]
    refine List.map_congr_left fun row _ => ?_
    rw [Function.comp_apply]
    split <;> rfl
  rw [CounterStore.withLastSeq, hset]
  split
  · exact h.sequences
  · next hnone =>
    rw [addSequenceRow, List.map_append]
    refine List.nodup_append.mpr ⟨h.sequences, List.nodup_singleton _, ?_⟩
    rintro _ hx _ hy rfl
    obtain ⟨row, hrow, he⟩ := List.mem_map.mp hx
    have hkey : (row.yearCode, row.genderCode) = key := he.trans (List.mem_singleton.mp hy)
    refine hnone (List.find?_isSome.mpr ⟨row, hrow, ?_⟩)
    rw [← hkey]
    simp

theorem lockStudent_setCounter : (s.setCounter nationalId counter).lockStudent nid =
    (s.lockStudent nid).map fun student =>
      if student.nationalId == nationalId then { student with counter := some counter }
      else student := by
  simp only [lockStudent, setCounter, List.find?_map]
  congr 2
  funext student
  simp only [Function.comp_apply]
  split <;> rfl

theorem nationalIds_setCounter : (s.setCounter nationalId counter).students.map
    StudentModel.nationalId = s.students.map StudentModel.nationalId := by
  rw [setCounter, List.map_map]
  refine List.map_congr_left fun student _ => ?_
  rw [Function.comp_apply]
  split <;> rfl

theorem Keyed.setCounter (h : s.Keyed) : (s.setCounter nationalId counter).Keyed :=
  ⟨by rw [nationalIds_setCounter]; exact h.students, h.sequences⟩

theorem lockStudent_key {student : StudentModel} (h : s.lockStudent nid = some student) :
    student.nationalId = nid := by
  have := List.find?_some h
  simpa using this

/-- A sequence that is set twice has the last number. -/
theorem withLastSeq_withLastSeq {m : Int} :
    (s.withLastSeq key m).withLastSeq key n = s.withLastSeq key n := by
  have hsome : ((s.withLastSeq key m).selectSequenceRow key.1 key.2).isSome = true := by
    obtain ⟨row, hrow, -⟩ := s.selectSequenceRow_ensured key.1 key.2
    rw [CounterStore.withLastSeq, selectSequenceRow_setLastSeq, hrow]
    rfl
  rw [withLastSeq, if_pos hsome, withLastSeq, withLastSeq]
  generalize (if (s.selectSequenceRow key.1 key.2).isSome then s
    else s.addSequenceRow key.1 key.2) = ensured
  simp only [setLastSeq, List.map_map]
  congr 1
  refine List.map_congr_left fun row _ => ?_
  simp only [Function.comp_apply]
  by_cases h : (row.yearCode == key.1 && row.genderCode == key.2) = true
  · simp [h]
  · simp [h]

/-- A number of a sequence that `flush` refuses: its counter breaks the pattern, or a student
has it. -/
def taken (s : CounterStore) (key : String × String) (n : Int) : Bool :=
  !ckCounterPattern (counterText key.1 key.2 n) ||
    s.students.any fun student => student.counter == some (counterText key.1 key.2 n)

theorem taken_withLastSeq {m : Int} : (s.withLastSeq key m).taken other n = s.taken other n := by
  rw [taken, students_withLastSeq, taken]

theorem Keyed.lockStudent (hk : s.Keyed) {student : StudentModel}
    (h : student ∈ s.students) : s.lockStudent student.nationalId = some student := by
  obtain ⟨found, hfound⟩ := Option.isSome_iff_exists.mp
    (List.find?_isSome (p := fun row => row.nationalId == student.nationalId).mpr
      ⟨student, h, beq_self_eq_true student.nationalId⟩)
  have hmem := List.mem_of_find?_eq_some hfound
  have hkey := CounterStore.lockStudent_key hfound
  rw [CounterStore.lockStudent, hfound, List.inj_on_of_nodup_map hk.students hmem h hkey]

theorem truthy_counterText (yearCode code : String) (n : Int) :
    truthy (some (counterText yearCode code n)) = some (counterText yearCode code n) := by
  have hne : counterText yearCode code n ≠ "" := by
    intro he
    have := congrArg String.toList he
    rw [counterText, String.toList_append] at this
    exact List.append_ne_nil_of_right_ne_nil _ (zeroPad_ne_nil 4 n) this
  unfold truthy
  split
  · next h => exact absurd (Option.some.inj h) hne
  · rfl

/-- For a student without a counter `flush` refuses the counters of taken numbers. -/
theorem flushCounter_free (hk : s.Keyed)
    (hfree : truthy ((s.lockStudent nationalId).bind StudentModel.counter) = none) :
    (s.taken key n = true → ∃ message,
      s.flushCounter nationalId (counterText key.1 key.2 n) = .error (.integrity message)) ∧
    (s.taken key n = false → s.flushCounter nationalId (counterText key.1 key.2 n) =
      .ok (s.setCounter nationalId (counterText key.1 key.2 n))) := by
  have hother : (s.students.any fun student => student.nationalId != nationalId &&
      student.counter == some (counterText key.1 key.2 n)) =
        s.students.any fun student => student.counter == some (counterText key.1 key.2 n) := by
    rw [Bool.eq_iff_iff, List.any_eq_true, List.any_eq_true]
    refine exists_congr fun student => and_congr_right fun hmem => ?_
    simp only [Bool.and_eq_true, bne_iff_ne, beq_iff_eq, and_iff_right_iff_imp]
    rintro hcounter rfl
    rw [hk.lockStudent hmem, Option.bind_some, hcounter, truthy_counterText] at hfree
    cases hfree
  rw [flushCounter, taken, hother]
  cases ckCounterPattern (counterText key.1 key.2 n) with
  | false => exact ⟨fun _ => ⟨_, rfl⟩, fun h => absurd h (by simp)⟩
  | true =>
    cases s.students.any fun student => student.counter == some (counterText key.1 key.2 n) with
    | false => exact ⟨fun h => absurd h (by simp), fun _ => rfl⟩
    | true => exact ⟨fun _ => ⟨_, rfl⟩, fun h => absurd h (by simp)⟩

end

end CounterStore

/-- The tables after a student got the counter of a number of a sequence. -/
def CounterStore.bind (s : CounterStore) (nationalId yearCode code : String) (n : Int) :
    CounterStore :=
  (s.withLastSeq (yearCode, code) n).setCounter nationalId (counterText yearCode code n)

/-- How many numbers the attempts of a call try: a rollback leads back to the same number where
it takes back what the released savepoints left. -/
def SqlAlchemyCounterRepository.numbersTried (R : SqlAlchemyCounterRepository) : Nat :=
  match R.engine with
  | .pysqlite => R.maxRetries
  | .transactional => min R.maxRetries 1

/-- What `assign_counter` makes of a student without a counter, whose inputs are accepted. -/
inductive Assigned (s : CounterStore) (nationalId yearCode code : String) (tries : Nat) :
    Except AssignError String × CounterStore → Prop
  | conflict (message : String) {t : CounterStore} (hsame : t.students = s.students)
      (hdraw : draw counterMaxSeq (s.taken (yearCode, code)) tries
        (s.lastSeq (yearCode, code)) = .refused) :
    Assigned s nationalId yearCode code tries (.error (.service (dbConflict message)), t)
  | exhausted {t : CounterStore} (hsame : t.students = s.students)
      (hdraw : draw counterMaxSeq (s.taken (yearCode, code)) tries
        (s.lastSeq (yearCode, code)) = .exhausted) :
    Assigned s nationalId yearCode code tries (.error (.service sequenceExhausted), t)
  | assigned {n : Int} (hdraw : draw counterMaxSeq (s.taken (yearCode, code)) tries
      (s.lastSeq (yearCode, code)) = .number n) :
    Assigned s nationalId yearCode code tries
      (.ok (counterText yearCode code n), s.bind nationalId yearCode code n)

section
variable {R : SqlAlchemyCounterRepository} {nfkc : String → String} {s t : CounterStore}
  {rawId rawYear nationalId yearCode code : String} {gender : Int} {tries : Nat}
  {result : Except AssignError String × CounterStore}

/-- `_next_sequence` with a turn of its loop left. -/
theorem nextSequence_eq (turns : Nat) :
    (ensureSequenceBounds (s.lastSeq (yearCode, code) + 1) =
        .ok (s.lastSeq (yearCode, code) + 1) →
      SqlAlchemyCounterRepository.nextSequence s yearCode code (turns + 1) =
        (.ok (s.lastSeq (yearCode, code) + 1),
          s.withLastSeq (yearCode, code) (s.lastSeq (yearCode, code) + 1))) ∧
    (ensureSequenceBounds (s.lastSeq (yearCode, code) + 1) = .error sequenceExhausted →
      ∃ t, t.students = s.students ∧
        SqlAlchemyCounterRepository.nextSequence s yearCode code (turns + 1) =
          (.error (.service sequenceExhausted), t)) := by
  obtain ⟨row, hrow, hlast⟩ := s.selectSequenceRow_ensured yearCode code
  rw [SqlAlchemyCounterRepository.nextSequence, ← hlast]
  cases hselect : s.selectSequenceRow yearCode code with
  | none =>
    have hif : (if (s.selectSequenceRow yearCode code).isSome then s
        else s.addSequenceRow yearCode code) = s.addSequenceRow yearCode code := by
      rw [hselect]
      rfl
    rw [hif] at hrow
    simp only [hrow, CounterStore.withLastSeq, hif]
    exact ⟨fun h => by rw [h], fun h => ⟨s.addSequenceRow yearCode code, rfl, by rw [h]⟩⟩
  | some row' =>
    have hif : (if (s.selectSequenceRow yearCode code).isSome then s
        else s.addSequenceRow yearCode code) = s := by
      rw [hselect]
      rfl
    rw [hif] at hrow
    simp only [hrow, CounterStore.withLastSeq, Option.isSome_some, if_true]
    exact ⟨fun h => by rw [h], fun h => ⟨s, rfl, by rw [h]⟩⟩

theorem fetchStudentCounter_none :
    SqlAlchemyCounterRepository.fetchStudentCounter nfkc s nationalId = .ok none ↔
      truthy ((s.lockStudent nationalId).bind StudentModel.counter) = none := by
  rw [SqlAlchemyCounterRepository.fetchStudentCounter]
  cases truthy ((s.lockStudent nationalId).bind StudentModel.counter) with
  | none => exact iff_of_true rfl rfl
  | some counter =>
    refine iff_of_false (fun h => ?_) (by simp)
    dsimp only at h
    cases he : ensureCounterFormat nfkc counter with
    | error e =>
      rw [he] at h
      cases h
    | ok v =>
      rw [he] at h
      cases h

theorem fetchStudentCounter_withLastSeq {key : String × String} {n : Int} :
    SqlAlchemyCounterRepository.fetchStudentCounter nfkc (s.withLastSeq key n) nationalId =
      SqlAlchemyCounterRepository.fetchStudentCounter nfkc s nationalId := by
  rw [SqlAlchemyCounterRepository.fetchStudentCounter, CounterStore.lockStudent_withLastSeq,
    SqlAlchemyCounterRepository.fetchStudentCounter]

/-- What a call of `assign_counter` for an accepted student starts from. -/
structure Awaiting (nfkc : String → String) (s : CounterStore) (nationalId : String) (gender : Int)
    (yearCode code : String) : Prop where
  keyed : s.Keyed
  year : digitsPattern 2 yearCode = true
  code : genderPrefix gender = some code
  student : (s.lockStudent nationalId).isSome = true
  free : SqlAlchemyCounterRepository.fetchStudentCounter nfkc s nationalId = .ok none

theorem Awaiting.withLastSeq (h : Awaiting nfkc s nationalId gender yearCode code)
    (key : String × String) (n : Int) :
    Awaiting nfkc (s.withLastSeq key n) nationalId gender yearCode code :=
  ⟨h.keyed.withLastSeq, h.year, h.code,
    by rw [CounterStore.lockStudent_withLastSeq]; exact h.student,
    by rw [fetchStudentCounter_withLastSeq]; exact h.free⟩

/-- An attempt tries the next number of the sequence. -/
theorem attempt_free (hn : DigitByDigit nfkc)
    (h : Awaiting nfkc s nationalId gender yearCode code) (hretries : R.maxRetries ≠ 0)
    (onIntegrityError : String → CounterStore → Except AssignError String × CounterStore) :
    (¬ InRange (s.lastSeq (yearCode, code) + 1) → ∃ t, t.students = s.students ∧
      R.attempt nfkc s nationalId gender yearCode onIntegrityError =
        (.error (.service sequenceExhausted), t)) ∧
    (InRange (s.lastSeq (yearCode, code) + 1) →
      (s.taken (yearCode, code) (s.lastSeq (yearCode, code) + 1) = true → ∃ message,
        R.attempt nfkc s nationalId gender yearCode onIntegrityError =
          onIntegrityError message (R.engine.rollback s
            (s.withLastSeq (yearCode, code) (s.lastSeq (yearCode, code) + 1)))) ∧
      (s.taken (yearCode, code) (s.lastSeq (yearCode, code) + 1) = false →
        R.attempt nfkc s nationalId gender yearCode onIntegrityError =
          (.ok (counterText yearCode code (s.lastSeq (yearCode, code) + 1)),
            s.bind nationalId yearCode code (s.lastSeq (yearCode, code) + 1)))) := by
  obtain ⟨student, hstudent⟩ := Option.isSome_iff_exists.mp h.student
  have hnone : truthy student.counter = none := by
    have := fetchStudentCounter_none.mp h.free
    rwa [hstudent] at this
  obtain ⟨turns, hturns⟩ := Nat.exists_eq_succ_of_ne_zero hretries
  obtain ⟨hnext, hend⟩ := @nextSequence_eq s yearCode code turns
  rw [SqlAlchemyCounterRepository.attempt, SqlAlchemyCounterRepository.reserveOnce, hstudent]
  simp only [hnone, h.code, hturns]
  rcases ensureSequenceBounds_eq (n := s.lastSeq (yearCode, code) + 1) with
    ⟨hbounds, hrange⟩ | ⟨hbounds, hrange⟩
  · refine ⟨fun hnot => absurd hrange hnot, fun _ => ?_⟩
    have hlater := h.withLastSeq (yearCode, code) (s.lastSeq (yearCode, code) + 1)
    obtain ⟨htaken, hfree⟩ := @CounterStore.flushCounter_free _ (yearCode, code)
      (s.lastSeq (yearCode, code) + 1) _ hlater.keyed (fetchStudentCounter_none.mp hlater.free)
    rw [CounterStore.taken_withLastSeq] at htaken hfree
    simp only [Nat.succ_eq_add_one, hnext hbounds, hbounds,
      ensureCounterFormat_new hn h.year h.code hrange]
    constructor
    · intro he
      obtain ⟨message, hflush⟩ := htaken he
      exact ⟨message, by rw [hflush]⟩
    · intro he
      rw [hfree he]
      rfl
  · refine ⟨fun _ => ?_, fun h => absurd h hrange⟩
    obtain ⟨t, hsame, hsequence⟩ := hend hbounds
    simp only [Nat.succ_eq_add_one, hsequence]
    refine ⟨R.engine.rollback s t, ?_, rfl⟩
    cases R.engine with
    | pysqlite => exact hsame
    | transactional => rfl

/-- A taken number that was tried is behind the ones that are tried next. -/
theorem Assigned.after_taken (hrange : InRange (s.lastSeq (yearCode, code) + 1))
    (htaken : s.taken (yearCode, code) (s.lastSeq (yearCode, code) + 1) = true)
    (h : Assigned (s.withLastSeq (yearCode, code) (s.lastSeq (yearCode, code) + 1)) nationalId
      yearCode code tries result) : Assigned s nationalId yearCode code (tries + 1) result := by
  have hdraw : draw counterMaxSeq (s.taken (yearCode, code)) (tries + 1)
      (s.lastSeq (yearCode, code)) =
        draw counterMaxSeq ((s.withLastSeq (yearCode, code)
          (s.lastSeq (yearCode, code) + 1)).taken (yearCode, code)) tries
            ((s.withLastSeq (yearCode, code) (s.lastSeq (yearCode, code) + 1)).lastSeq
              (yearCode, code)) := by
    have hsame : (s.withLastSeq (yearCode, code) (s.lastSeq (yearCode, code) + 1)).taken
        (yearCode, code) = s.taken (yearCode, code) :=
      funext fun n => CounterStore.taken_withLastSeq
    rw [draw_taken hrange htaken, hsame, CounterStore.lastSeq_withLastSeq, if_pos rfl]
  cases h with
  | conflict message hsame h =>
    exact .conflict message (hsame.trans CounterStore.students_withLastSeq) (hdraw.trans h)
  | exhausted hsame h =>
    exact .exhausted (hsame.trans CounterStore.students_withLastSeq) (hdraw.trans h)
  | @assigned n h =>
    have hbind : (s.withLastSeq (yearCode, code) (s.lastSeq (yearCode, code) + 1)).bind nationalId
        yearCode code n = s.bind nationalId yearCode code n := by
      rw [CounterStore.bind, CounterStore.withLastSeq_withLastSeq, CounterStore.bind]
    rw [hbind]
    exact .assigned (hdraw.trans h)

/-- What an attempt ends in, by what follows when the next number is taken. -/
theorem Assigned.of_attempt (hn : DigitByDigit nfkc)
    (h : Awaiting nfkc s nationalId gender yearCode code) (hretries : R.maxRetries ≠ 0)
    {onIntegrityError : String → CounterStore → Except AssignError String × CounterStore}
    (hnext : InRange (s.lastSeq (yearCode, code) + 1) →
      s.taken (yearCode, code) (s.lastSeq (yearCode, code) + 1) = true → ∀ message,
        Assigned s nationalId yearCode code (tries + 1) (onIntegrityError message
          (R.engine.rollback s (s.withLastSeq (yearCode, code)
            (s.lastSeq (yearCode, code) + 1))))) :
    Assigned s nationalId yearCode code (tries + 1)
      (R.attempt nfkc s nationalId gender yearCode onIntegrityError) := by
  obtain ⟨hend, hrest⟩ := attempt_free hn h hretries onIntegrityError
  by_cases hrange : InRange (s.lastSeq (yearCode, code) + 1)
  · obtain ⟨htried, hgot⟩ := hrest hrange
    cases htaken : s.taken (yearCode, code) (s.lastSeq (yearCode, code) + 1) with
    | true =>
      obtain ⟨message, hattempt⟩ := htried htaken
      rw [hattempt]
      exact hnext hrange htaken message
    | false =>
      rw [hgot htaken]
      exact .assigned (draw_free hrange htaken)
  · obtain ⟨t, hsame, hattempt⟩ := hend hrange
    rw [hattempt]
    exact .exhausted hsame (draw_beyond hrange)

/-- Where the released savepoints stay, each further attempt tries a further number. -/
theorem reserveAndBind_pysqlite (hn : DigitByDigit nfkc) (hengine : R.engine = .pysqlite)
    (hretries : R.maxRetries ≠ 0) (h : Awaiting nfkc s nationalId gender yearCode code)
    (further : Nat) : Assigned s nationalId yearCode code (further + 1)
      (R.reserveAndBind nfkc s nationalId gender yearCode further) := by
  induction further generalizing s with
  | zero =>
    refine .of_attempt hn h hretries fun hrange htaken message => ?_
    rw [hengine]
    exact .conflict _ CounterStore.students_withLastSeq (draw_taken hrange htaken)
  | succ further ih =>
    refine .of_attempt hn h hretries fun hrange htaken message => ?_
    have hlater := h.withLastSeq (yearCode, code) (s.lastSeq (yearCode, code) + 1)
    have hgoes := ih hlater
    rw [hengine]
    simp only [Engine.rollback, hlater.free]
    exact hgoes.after_taken hrange htaken

/-- Where a rollback takes everything back, each further attempt tries the same number. -/
theorem reserveAndBind_transactional (hn : DigitByDigit nfkc) (hengine : R.engine = .transactional)
    (hretries : R.maxRetries ≠ 0) (h : Awaiting nfkc s nationalId gender yearCode code)
    (further : Nat) : Assigned s nationalId yearCode code 1
      (R.reserveAndBind nfkc s nationalId gender yearCode further) := by
  induction further with
  | zero =>
    refine .of_attempt hn h hretries fun hrange htaken message => ?_
    rw [hengine]
    exact .conflict _ rfl (draw_taken hrange htaken)
  | succ further ih =>
    refine .of_attempt hn h hretries fun _ _ message => ?_
    rw [hengine]
    simp only [Engine.rollback, h.free]
    exact ih

/-- Without a turn for its loop `_next_sequence` ends the first attempt. -/
theorem reserveAndBind_turnless (hretries : R.maxRetries = 0)
    (h : Awaiting nfkc s nationalId gender yearCode code) (further : Nat) : ∃ message,
    R.reserveAndBind nfkc s nationalId gender yearCode further =
      (.error (.service (dbConflict message)), s) := by
  obtain ⟨student, hstudent⟩ := Option.isSome_iff_exists.mp h.student
  have hnone : truthy student.counter = none := by
    have := fetchStudentCounter_none.mp h.free
    rwa [hstudent] at this
  have hattempt : ∀ onIntegrityError,
      R.attempt nfkc s nationalId gender yearCode onIntegrityError =
        (.error (.service (dbConflict "Could not fetch sequence row after retries")), s) := by
    intro onIntegrityError
    rw [SqlAlchemyCounterRepository.attempt, SqlAlchemyCounterRepository.reserveOnce, hstudent]
    simp only [hnone, h.code, hretries, SqlAlchemyCounterRepository.nextSequence]
    cases R.engine <;> rfl
  cases further with
  | zero => exact ⟨_, hattempt _⟩
  | succ further => exact ⟨_, hattempt _⟩

theorem reserveAndBind_free (hn : DigitByDigit nfkc)
    (h : Awaiting nfkc s nationalId gender yearCode code) :
    Assigned s nationalId yearCode code R.numbersTried
      (R.reserveAndBind nfkc s nationalId gender yearCode (R.maxRetries - 1)) := by
  by_cases hretries : R.maxRetries = 0
  · obtain ⟨message, hcall⟩ := reserveAndBind_turnless hretries h (R.maxRetries - 1)
    have hzero : R.numbersTried = 0 := by
      rw [SqlAlchemyCounterRepository.numbersTried, hretries]
      cases R.engine <;> rfl
    rw [hcall, hzero]
    exact .conflict message rfl rfl
  · cases hengine : R.engine with
    | pysqlite =>
      have htries : R.numbersTried = R.maxRetries - 1 + 1 := by
        rw [SqlAlchemyCounterRepository.numbersTried, hengine]
        dsimp only
        omega
      rw [htries]
      exact reserveAndBind_pysqlite hn hengine hretries h _
    | transactional =>
      have htries : R.numbersTried = 1 := by
        rw [SqlAlchemyCounterRepository.numbersTried, hengine]
        dsimp only
        omega
      rw [htries]
      exact reserveAndBind_transactional hn hengine hretries h _

variable (hv : ensureValidInputs nfkc rawId gender rawYear = .ok (nationalId, yearCode))
include hv

theorem assignCounter_free (hn : DigitByDigit nfkc)
    (h : Awaiting nfkc s nationalId gender yearCode code) :
    Assigned s nationalId yearCode code R.numbersTried
      (assignCounter R nfkc s rawId gender rawYear) := by
  unfold assignCounter
  rw [hv]
  dsimp only
  rw [h.free]
  exact reserveAndBind_free hn h

theorem assignCounter_known {counter : String}
    (hknown : SqlAlchemyCounterRepository.fetchStudentCounter nfkc s nationalId =
      .ok (some counter)) :
    assignCounter R nfkc s rawId gender rawYear = (.ok counter, s) := by
  unfold assignCounter
  rw [hv]
  dsimp only
  rw [hknown]

end

section
variable {nfkc : String → String} {s : CounterStore} {nationalId nid yearCode code : String}
  {gender n : Int} {key : String × String}

theorem CounterStore.lastSeq_bind : (s.bind nationalId yearCode code n).lastSeq key =
    if key = (yearCode, code) then n else s.lastSeq key :=
  CounterStore.lastSeq_withLastSeq

theorem CounterStore.Keyed.bind (h : s.Keyed) : (s.bind nationalId yearCode code n).Keyed :=
  h.withLastSeq.setCounter

theorem CounterStore.lockStudent_bind : (s.bind nationalId yearCode code n).lockStudent nid =
    (s.lockStudent nid).map fun student =>
      if student.nationalId == nationalId then
        { student with counter := some (counterText yearCode code n) }
      else student := by
  rw [CounterStore.bind, CounterStore.lockStudent_setCounter,
    CounterStore.lockStudent_withLastSeq]

theorem CounterStore.nationalIds_bind : (s.bind nationalId yearCode code n).students.map
    StudentModel.nationalId = s.students.map StudentModel.nationalId := by
  rw [CounterStore.bind, CounterStore.nationalIds_setCounter, CounterStore.students_withLastSeq]

/-- Other students keep what they have. -/
theorem fetchStudentCounter_bind_other (h : nid ≠ nationalId) :
    SqlAlchemyCounterRepository.fetchStudentCounter nfkc (s.bind nationalId yearCode code n) nid =
      SqlAlchemyCounterRepository.fetchStudentCounter nfkc s nid := by
  rw [SqlAlchemyCounterRepository.fetchStudentCounter,
    SqlAlchemyCounterRepository.fetchStudentCounter, CounterStore.lockStudent_bind]
  have hsame : (s.lockStudent nid).map (fun student => if student.nationalId == nationalId then
      { student with counter := some (counterText yearCode code n) } else student) =
        s.lockStudent nid := by
    refine (Option.map_congr fun student hstudent => ?_).trans Option.map_id'
    have hb : (student.nationalId == nationalId) = false := by
      simpa [CounterStore.lockStudent_key hstudent] using h
    rw [hb]
    rfl
  rw [hsame]

theorem ensureCounterFormat_again (hn : DigitByDigit nfkc) (hyear : digitsPattern 2 yearCode = true)
    (hcode : genderPrefix gender = some code) (hrange : InRange n) :
    ensureCounterFormat nfkc (counterText yearCode code n) = .ok (counterText yearCode code n) := by
  obtain ⟨hlength, hdecimal⟩ := digitsPattern_iff.mp hyear
  have hfolded : digitsPattern 2 (foldedText yearCode) = true :=
    digitsPattern_iff.mpr ⟨by rw [foldedText, String.toList_ofList, List.length_map, hlength],
      foldedText_decimal hdecimal⟩
  have hnew := ensureCounterFormat_new hn hfolded hcode hrange
  rwa [counterText, foldedText_foldedText] at hnew

theorem fetchStudentCounter_bind_self (hn : DigitByDigit nfkc)
    (h : Awaiting nfkc s nationalId gender yearCode code) (hrange : InRange n) :
    SqlAlchemyCounterRepository.fetchStudentCounter nfkc (s.bind nationalId yearCode code n)
      nationalId = .ok (some (counterText yearCode code n)) := by
  obtain ⟨student, hstudent⟩ := Option.isSome_iff_exists.mp h.student
  rw [SqlAlchemyCounterRepository.fetchStudentCounter, CounterStore.lockStudent_bind, hstudent]
  simp only [Option.map_some, CounterStore.lockStudent_key hstudent, beq_self_eq_true, if_true,
    Option.bind_some, CounterStore.truthy_counterText,
    ensureCounterFormat_again hn h.year h.code hrange, Except.map]

end

end Counter

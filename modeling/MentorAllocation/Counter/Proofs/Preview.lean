import MentorAllocation.Concurrency.Requests
import MentorAllocation.Counter.Proofs.RedisSafety
import MentorAllocation.Text.Numbers

namespace Counter
open Text Concurrency

/-- Sequences hold numbers from zero on, and students' keys never hold numbers. -/
structure Store.Shaped (N : RedisNamespaces) (s : Store) : Prop where
  sequences : ∀ yearCode gender, s.value (N.counterSequence yearCode gender) = none ∨
    ∃ n : Int, 0 ≤ n ∧ s.value (N.counterSequence yearCode gender) = some (.number n)
  students : ∀ yearCode studentId n, s.value (N.counterStudent yearCode studentId) ≠
    some (.number n)

/-- A command as the runtime sends it: its script is given a student's key and a sequence's. -/
def Request.Proper (N : RedisNamespaces) : Request → Prop
  | .get _ => True
  | .eval args => (∃ yearCode studentId, args.studentKey = N.counterStudent yearCode studentId) ∧
      ∃ yearCode gender, args.sequenceKey = N.counterSequence yearCode gender

/-- A script call of a runtime, with a year code of two characters and its gender's prefix. -/
def Request.Sent (N : RedisNamespaces) : Request → Prop
  | .get _ => True
  | .eval args => ∃ C normalized prefixCode,
      args = CounterRuntime.scriptArgs C N normalized prefixCode ∧
      normalized.yearCode.toList.length = 2 ∧ genderPrefix normalized.gender = some prefixCode

theorem Request.Sent.proper {N : RedisNamespaces} {r : Request} (h : r.Sent N) : r.Proper N := by
  cases r with
  | get key => trivial
  | eval args =>
    obtain ⟨C, normalized, prefixCode, rfl, -, -⟩ := h
    exact ⟨⟨_, _, rfl⟩, _, _, rfl⟩

namespace Store
variable {N : RedisNamespaces} {s t : Store} {yearCode studentId : String} {gender : Int}

theorem shaped_empty (N : RedisNamespaces) : Shaped N (fun _ => none) :=
  ⟨fun _ _ => .inl rfl, fun _ _ _ h => by cases h⟩

theorem value_del (key key' : String) :
    (s.del key).value key' = if key' = key then none else s.value key' := by
  by_cases h : key' = key <;> simp [value, del, h]

theorem Shaped.expire (h : s.Shaped N) (keys : List String) : (s.expire keys).Shaped N := by
  have hval : ∀ key,
      (s.expire keys).value key = s.value key ∨ (s.expire keys).value key = none := by
    intro key
    cases hk : s key with
    | none => exact .inr (by simp [value, Store.expire, hk])
    | some e =>
      by_cases hkept : (!(e.volatile && keys.contains key)) = true
      · exact .inl (by rw [value, value, Store.expire, hk, Option.filter_some, if_pos hkept])
      · exact .inr (by rw [value, Store.expire, hk, Option.filter_some, if_neg hkept]; rfl)
  constructor
  · intro yearCode gender
    rcases hval (N.counterSequence yearCode gender) with he | he
    · rw [he]
      exact h.sequences yearCode gender
    · exact .inl he
  · intro yearCode studentId n hn
    rcases hval (N.counterStudent yearCode studentId) with he | he
    · exact h.students yearCode studentId n (he ▸ hn)
    · rw [he] at hn
      cases hn

theorem expire_nil (s : Store) : s.expire [] = s := by
  funext key
  cases hk : s key with
  | none => simp [Store.expire, hk]
  | some e => simp [Store.expire, hk]

/-- A store in which only a student's key changed, not to a number. -/
theorem Shaped.student (h : s.Shaped N)
    (hsame : ∀ key, key ≠ N.counterStudent yearCode studentId → t.value key = s.value key)
    (hnew : ∀ n, t.value (N.counterStudent yearCode studentId) ≠ some (.number n)) :
    t.Shaped N where
  sequences := by
    intro yearCode' gender
    rw [hsame _ RedisNamespaces.counterStudent_ne.symm]
    exact h.sequences yearCode' gender
  students := by
    intro yearCode' studentId' n
    by_cases hk : N.counterStudent yearCode' studentId' = N.counterStudent yearCode studentId
    · rw [hk]
      exact hnew n
    · rw [hsame _ hk]
      exact h.students yearCode' studentId' n

theorem Shaped.set_student (h : s.Shaped N) {v : Value} (hv : ∀ n, v ≠ .number n)
    (volatile : Bool) : (s.set (N.counterStudent yearCode studentId) v volatile).Shaped N := by
  refine h.student (fun key hk => value_set_other hk v volatile) fun n hn => ?_
  rw [value_set_self] at hn
  exact hv n (Option.some.inj hn)

theorem Shaped.del_student (h : s.Shaped N) :
    (s.del (N.counterStudent yearCode studentId)).Shaped N := by
  refine h.student (fun key hk => by rw [value_del, if_neg hk]) fun n hn => ?_
  rw [value_del, if_pos rfl] at hn
  cases hn

theorem Shaped.set_sequence (h : s.Shaped N) {n : Int} (hn : 0 ≤ n) (volatile : Bool) :
    (s.set (N.counterSequence yearCode gender) (.number n) volatile).Shaped N where
  sequences := by
    intro yearCode' gender'
    by_cases hk : N.counterSequence yearCode' gender' = N.counterSequence yearCode gender
    · exact .inr ⟨n, hn, by rw [hk, value_set_self]⟩
    · rw [value_set_other hk]
      exact h.sequences yearCode' gender'
  students := by
    intro yearCode' studentId n'
    rw [value_set_other RedisNamespaces.counterStudent_ne]
    exact h.students yearCode' studentId n'

theorem Shaped.sequence_nonneg (h : s.Shaped N) (yearCode : String) (gender : Int) :
    0 ≤ s.sequence N yearCode gender := by
  rw [Store.sequence]
  rcases h.sequences yearCode gender with he | ⟨n, hn, he⟩
  · rw [he]
  · rw [he]
    exact hn

/-- The sequence grows by one until it would overflow. -/
theorem Shaped.incr (h : s.Shaped N) (yearCode : String) (gender : Int) :
    0 ≤ s.sequence N yearCode gender ∧ ((∃ volatile,
      s.incr (N.counterSequence yearCode gender) = .ok (s.sequence N yearCode gender + 1,
        s.set (N.counterSequence yearCode gender) (.number (s.sequence N yearCode gender + 1))
          volatile) ∧ s.sequence N yearCode gender + 1 < 2 ^ 63) ∨
      ((∃ message, s.incr (N.counterSequence yearCode gender) = .error message) ∧
        ¬ s.sequence N yearCode gender + 1 < 2 ^ 63)) := by
  cases hk : s (N.counterSequence yearCode gender) with
  | none =>
    have hseq : s.sequence N yearCode gender = 0 := by simp [Store.sequence, value, hk]
    rw [hseq]
    exact ⟨le_refl 0, .inl ⟨false, by simp [Store.incr, hk], by decide⟩⟩
  | some e =>
    obtain ⟨v, volatile⟩ := e
    have hval : s.value (N.counterSequence yearCode gender) = some v := by simp [value, hk]
    rcases h.sequences yearCode gender with hnone | ⟨n, hn, hnum⟩
    · rw [hval] at hnone
      cases hnone
    · obtain rfl : v = .number n := Option.some.inj (hval.symm.trans hnum)
      have hseq : s.sequence N yearCode gender = n := by simp [Store.sequence, hval]
      rw [hseq]
      refine ⟨hn, ?_⟩
      by_cases hmax : n < 2 ^ 63 - 1
      · exact .inl ⟨volatile, by simp only [Store.incr, hk, if_pos hmax], by omega⟩
      · exact .inr ⟨⟨_, by simp only [Store.incr, hk, if_neg hmax]; rfl⟩, by omega⟩

end Store

variable {N : RedisNamespaces} {s t : Store}

/-- The script keeps the shape, whatever happens inside it. -/
theorem allocateScript_shaped (h : s.Shaped N) {args : ScriptArgs}
    (hargs : (Request.eval args).Proper N) : (allocateScript args s).2.Shaped N := by
  obtain ⟨⟨yearCode, studentId, hstudent⟩, yearCode', gender, hsequence⟩ := hargs
  have hpending : (s.set args.studentKey .pending true).Shaped N := by
    rw [hstudent]
    exact h.set_student (fun n hn => by cases hn) true
  obtain ⟨hle, hincr⟩ := hpending.incr yearCode' gender
  rw [← hsequence] at hincr
  rw [allocateScript]
  split
  · exact h
  · exact h
  · exact h
  · rcases hincr with ⟨⟨volatile, hincr, -⟩⟩ | ⟨⟨message, hincr⟩, -⟩
    · have hnext : ((s.set args.studentKey .pending true).set args.sequenceKey
          (.number ((s.set args.studentKey .pending true).sequence N yearCode' gender + 1))
            volatile).Shaped N := by
        rw [hsequence]
        exact hpending.set_sequence (by omega) volatile
      simp only [hincr]
      split
      · rw [hstudent] at hnext ⊢
        exact hnext.del_student
      · rw [hstudent] at hnext ⊢
        exact hnext.set_student (fun n hn => by cases hn) false
    · simp only [hincr]
      exact hpending

section
variable {C : CounterRuntime} {nfkc : String → String} {attempts : Nat}

theorem asking_call {r : Request} (h : r.Sent N) (lastExc : Option String) (attempts : Nat) :
    Program.Asking (Request.Sent N) (RedisExecutor.call r lastExc attempts) := by
  induction attempts generalizing lastExc with
  | zero => trivial
  | succ attempts ih =>
    refine ⟨h, fun x => ?_⟩
    cases x with
    | ok result => trivial
    | error e => exact ih (some e)

theorem asking_program (call : CounterCall) :
    Program.Asking (Request.Sent N) (call.program N nfkc) := by
  cases call with
  | preview C payload =>
    simp only [CounterCall.program, CounterRuntime.preview]
    generalize C.previewInputs nfkc payload = inputs
    cases inputs with
    | error e => trivial
    | ok inputs =>
      have hget : (Request.get (N.counterSequence inputs.2 inputs.1)).Sent N := trivial
      refine Fallible.asking_bind (asking_call hget none C.executorAttempts) fun raw => ?_
      split
      · trivial
      · split <;> trivial
  | allocate C payload =>
    simp only [CounterCall.program, CounterRuntime.allocate]
    cases hnormalized : C.normalizePayload nfkc payload with
    | error e => trivial
    | ok normalized =>
      simp only [CounterRuntime.allocateWithRetry]
      split
      · trivial
      · next prefixCode hcode =>
        have heval : (Request.eval (C.scriptArgs N normalized prefixCode)).Sent N :=
          ⟨C, normalized, prefixCode, rfl, normalizePayload_length hnormalized, hcode⟩
        generalize C.attemptLimit = attempts
        induction attempts with
        | zero => trivial
        | succ attempts ih =>
          refine Fallible.asking_bind (asking_call heval none C.executorAttempts) fun reply => ?_
          cases reply with
          | new counter serial =>
            simp only [CounterRuntime.checked]
            split <;> trivial
          | reused counter serial =>
            simp only [CounterRuntime.checked]
            split <;> trivial
          | pending => exact ih
          | exhausted => trivial

/-- How a command ends: not carried out, carried out with its answer lost, or answered. -/
theorem Store.answer_cases {ι : Type} {ch : Choice} {i : ι} {r : Request} {x : r.Response}
    (h : Store.answer ch i r s = some (x, t)) :
    (∃ error, x = .error error) ∧
        (t = s.expire ch.expired ∨ t = ((s.expire ch.expired).execute r).2) ∨
      (s.expire ch.expired).execute r = (x, t) := by
  simp only [Store.answer, Option.some.injEq] at h
  cases hd : ch.delivery with
  | delivered =>
    rw [hd] at h
    exact .inr h
  | lost error =>
    rw [hd] at h
    obtain ⟨rfl, rfl⟩ := Prod.mk.inj h
    exact .inl ⟨⟨error, rfl⟩, .inr rfl⟩
  | refused error =>
    rw [hd] at h
    obtain ⟨rfl, rfl⟩ := Prod.mk.inj h
    exact .inl ⟨⟨error, rfl⟩, .inl rfl⟩

theorem answer_shaped {ι : Type} {ch : Choice} {i : ι} {r : Request} {x : r.Response}
    (hr : r.Proper N) (hs : s.Shaped N) (h : Store.answer ch i r s = some (x, t)) :
    t.Shaped N := by
  have hexecute : ((s.expire ch.expired).execute r).2.Shaped N := by
    cases r with
    | get key => exact hs.expire ch.expired
    | eval args => exact allocateScript_shaped (hs.expire ch.expired) hr
  rcases Store.answer_cases h with ⟨-, rfl | rfl⟩ | he
  · exact hs.expire ch.expired
  · exact hexecute
  · rwa [he] at hexecute

/-- The store keeps its shape through any calls, in any order of their commands. -/
theorem reachable_shaped {ι : Type} [DecidableEq ι] {calls : ι → CounterCall}
    {trace : List (CounterSystem ι × (ι × Choice))} {c : CounterSystem ι}
    (h : Run CounterSystem.Step (CounterSystem.start N nfkc calls) trace c) : c.store.Shaped N :=
  (Config.run_keeps (I := Store.Shaped N) h (Store.shaped_empty N)
    (fun i => asking_program (calls i)) fun _ _ _ _ _ _ hr hs => answer_shaped hr.proper hs).2

/-- A server that answers every command at once, while nothing expires. -/
def Store.serve (r : Request) (s : Store) : Option (r.Response × Store) :=
  Store.answer {} () r s

theorem serve_eq (r : Request) (s : Store) : Store.serve r s = some (s.execute r) := by
  simp only [Store.serve, Store.answer, Store.expire_nil]

theorem alone_call_ok {r : Request} {result : r.Result} (attempts : Nat) (lastExc : Option String)
    (h : s.execute r = (.ok result, t)) :
    Program.alone Store.serve (RedisExecutor.call r lastExc (attempts + 1)) s =
      some (.ok result, t) := by
  simp only [RedisExecutor.call, Program.alone, serve_eq, h, Option.bind_some]

theorem alone_call_zero (r : Request) (s : Store) :
    Program.alone Store.serve (RedisExecutor.call r none 0) s =
      some (.error (.operation "redis operation failed without exception"), s) := rfl

theorem execute_pending {args : ScriptArgs} (h : s.value args.studentKey = some .pending) :
    s.execute (.eval args) = (.ok .pending, s) := by
  obtain ⟨e, he, hv⟩ := Option.map_eq_some_iff.mp h
  obtain ⟨v, volatile⟩ := e
  obtain rfl : v = .pending := hv
  simp only [Store.execute, allocateScript, he]
  rfl

/-- A student whose key holds a placeholder waits until the attempts are used up. -/
theorem alone_allocateLoop_pending {args : ScriptArgs} (hpending : s.value args.studentKey =
    some .pending) (hattempts : 0 < C.executorAttempts) (attempts : Nat) :
    Program.alone Store.serve (C.allocateLoop args attempts) s =
      some (.error (CounterRuntime.retryExhausted C.attemptLimit), s) := by
  obtain ⟨n, hn⟩ : ∃ n, C.executorAttempts = n + 1 := ⟨C.executorAttempts - 1, by omega⟩
  have hexecute := execute_pending hpending
  induction attempts with
  | zero => rfl
  | succ attempts ih =>
    have hcall := alone_call_ok n none hexecute
    rw [← hn] at hcall
    rw [CounterRuntime.allocateLoop, Fallible.alone_bind_ok hcall]
    exact ih

theorem currentSerial_eq (s : Store) (yearCode : String) (gender : Int) :
    CounterRuntime.currentSerial ((s (N.counterSequence yearCode gender)).map Entry.value) =
      s.sequence N yearCode gender := rfl

def Store.nextSerial (s : Store) (N : RedisNamespaces) (yearCode : String) (gender : Int) : Int :=
  s.sequence N yearCode gender + 1

/-- What a preview that is accepted returns. -/
theorem alone_preview {payload : RawPayload} {gender : Int} {yearCode prefixCode : String}
    (hinputs : C.previewInputs nfkc payload = .ok (gender, yearCode))
    (hcode : genderPrefix gender = some prefixCode) (hattempts : 0 < C.executorAttempts) :
    Program.alone Store.serve (C.preview N nfkc payload) s =
      some (if C.maxSerial < s.nextSerial N yearCode gender then .error CounterRuntime.exhausted
        else .ok ⟨yearCode ++ prefixCode ++ zeroPad 4 (s.nextSerial N yearCode gender), yearCode,
          "preview"⟩, s) := by
  obtain ⟨n, hn⟩ : ∃ n, C.executorAttempts = n + 1 := ⟨C.executorAttempts - 1, by omega⟩
  have hexecute : s.execute (.get (N.counterSequence yearCode gender)) =
      (.ok ((s (N.counterSequence yearCode gender)).map Entry.value), s) := rfl
  have hcall := alone_call_ok n none hexecute
  rw [← hn] at hcall
  simp only [CounterRuntime.preview, hinputs]
  rw [Fallible.alone_bind_ok hcall, currentSerial_eq, Store.nextSerial]
  split
  · rfl
  · rw [hcode]
    rfl

/-- What the script does for a student without an entry. -/
theorem allocateScript_free (hs : s.Shaped N) {normalized : NormalizedPayload}
    (prefixCode : String)
    (hfree : s.value (N.counterStudent normalized.yearCode normalized.studentId) = none) :
    0 < s.nextSerial N normalized.yearCode normalized.gender ∧
    ((s.nextSerial N normalized.yearCode normalized.gender < 2 ^ 63 ∧
        ∃ t, allocateScript (C.scriptArgs N normalized prefixCode) s = (.ok
          (if luaNumber C.maxSerial <
              luaNumber (s.nextSerial N normalized.yearCode normalized.gender)
          then .exhausted
          else .new (normalized.yearCode ++ prefixCode ++
            zeroPad 4 (luaNumber (s.nextSerial N normalized.yearCode normalized.gender)))
            (zeroPad 4 (luaNumber (s.nextSerial N normalized.yearCode normalized.gender)))), t)) ∨
      (¬ s.nextSerial N normalized.yearCode normalized.gender < 2 ^ 63 ∧
        ∃ message t, allocateScript (C.scriptArgs N normalized prefixCode) s =
          (.error message, t) ∧
        t.value (N.counterStudent normalized.yearCode normalized.studentId) = some .pending)) := by
  have hkey : s (N.counterStudent normalized.yearCode normalized.studentId) = none :=
    Option.map_eq_none_iff.mp hfree
  have hpending : (s.set (N.counterStudent normalized.yearCode normalized.studentId) .pending
      true).Shaped N := hs.set_student (fun n hn => by cases hn) true
  obtain ⟨hle, hincr⟩ := hpending.incr normalized.yearCode normalized.gender
  have hsame : (s.set (N.counterStudent normalized.yearCode normalized.studentId) .pending
      true).sequence N normalized.yearCode normalized.gender =
        s.sequence N normalized.yearCode normalized.gender := by
    simp only [Store.sequence, Store.value_set_other RedisNamespaces.counterStudent_ne.symm]
  rw [hsame] at hle hincr
  rw [Store.nextSerial]
  refine ⟨by omega, ?_⟩
  simp only [allocateScript, CounterRuntime.scriptArgs, hkey]
  rcases hincr with ⟨volatile, hincr, hlt⟩ | ⟨⟨message, hincr⟩, hlt⟩
  · refine .inl ⟨hlt, ?_⟩
    simp only [hincr]
    by_cases hmax : luaNumber C.maxSerial <
        luaNumber (s.sequence N normalized.yearCode normalized.gender + 1)
    · rw [if_pos hmax]
      exact ⟨_, if_pos hmax⟩
    · rw [if_neg hmax]
      exact ⟨_, if_neg hmax⟩
  · simp only [hincr]
    exact .inr ⟨hlt, message, _, rfl, Store.value_set_self _ _⟩

/-- A preview tells the counter of the allocation that comes next, or its exhaustion. -/
structure Agree (preview allocate : Except Failure CounterResult) : Prop where
  counters : ∀ counter, (∃ r, preview = .ok r ∧ r.counter = counter) ↔
    ∃ r, allocate = .ok r ∧ r.counter = counter ∧ r.status = "new"
  exhausted : preview = .error CounterRuntime.exhausted ↔
    allocate = .error CounterRuntime.exhausted

/-- When a preview tells what the next allocation does. The runtime sends commands, the
student's key is free, and the next serial either is refused by the script as well, or gives
a counter of nine decimal digits. -/
def Foretold (C : CounterRuntime) (N : RedisNamespaces) (s : Store)
    (normalized : NormalizedPayload) : Prop :=
  C.executorAttempts = 0 ∨
    s.value (N.counterStudent normalized.yearCode normalized.studentId) = none ∧
      if C.maxSerial < s.nextSerial N normalized.yearCode normalized.gender then
        s.nextSerial N normalized.yearCode normalized.gender < 2 ^ 63 ∧
          luaNumber C.maxSerial < luaNumber (s.nextSerial N normalized.yearCode normalized.gender)
      else normalized.yearCode.toList.all isDecimal = true ∧
        s.nextSerial N normalized.yearCode normalized.gender ≤ 9999

theorem counterRegex_length {value : String} (h : counterRegex value = true) :
    value.toList.length = 9 := by
  rw [counterRegex] at h
  split at h
  · next hl => rw [hl]; rfl
  · cases h

theorem isDecimal_zeroPad {width n : Nat} {c : Char} (h : c ∈ (zeroPad width n).toList) :
    isDecimal c = true := by
  rcases zeroPad_chars h with rfl | hc
  · exact absurd h (zeroPad_no_sign width n)
  · rw [isDecimal, decimal?_digit hc]
    rfl

/-- The pattern of a counter made of a year code of two characters and a serial. -/
theorem counterRegex_counter {yearCode prefixCode : String} {gender serial : Int}
    (hlen : yearCode.toList.length = 2) (hcode : genderPrefix gender = some prefixCode)
    (hpos : 0 < serial) : counterRegex (yearCode ++ prefixCode ++ zeroPad 4 serial) = true ↔
      yearCode.toList.all isDecimal = true ∧ serial ≤ 9999 := by
  obtain ⟨n, rfl⟩ := Int.eq_ofNat_of_zero_le hpos.le
  have hcodes : (prefixCode.toList = ['3', '7', '3'] ∨ prefixCode.toList = ['3', '5', '7']) := by
    rcases genderPrefix_cases hcode with ⟨-, rfl⟩ | ⟨-, rfl⟩
    · exact .inl rfl
    · exact .inr rfl
  have hthree : prefixCode.toList.length = 3 := genderPrefix_length hcode
  by_cases hn : n < 10 ^ 4
  · have hserial : ∀ c ∈ (zeroPad 4 n).toList, isDecimal c = true := fun c => isDecimal_zeroPad
    have hfour : (zeroPad 4 n).toList.length = 4 := zeroPad_length (by omega) hn
    have hle : (n : Int) ≤ 9999 := by omega
    obtain ⟨y₁, y₂, hy⟩ := List.length_eq_two.mp hlen
    obtain ⟨s₁, s₂, s₃, s₄, hs⟩ := List.length_eq_four.mp hfour
    simp only [hs, List.forall_mem_cons] at hserial
    obtain ⟨h₁, h₂, h₃, h₄, -⟩ := hserial
    rcases hcodes with hp | hp
    · simp only [counterRegex, String.toList_append, hy, hp, hs, List.cons_append, List.nil_append,
        List.all_cons, List.all_nil, h₁, h₂, h₃, h₄, Bool.and_true, hle, and_true]
      simp
    · simp only [counterRegex, String.toList_append, hy, hp, hs, List.cons_append, List.nil_append,
        List.all_cons, List.all_nil, h₁, h₂, h₃, h₄, Bool.and_true, hle, and_true]
      simp
  · have hlong : 4 < (zeroPad 4 n).toList.length := by
      have hdigits := mt (Nat.length_toDigits_le_iff (b := 10) (n := n) (by omega) (by omega)).mp hn
      rw [zeroPad_toList, List.length_append]
      omega
    constructor
    · intro h
      have := counterRegex_length h
      simp only [String.toList_append, List.length_append] at this
      omega
    · rintro ⟨-, hle⟩
      omega

theorem luaNumber_pos {n : Int} (h : 0 < n) : 0 < luaNumber n ∧
    (luaNumber n ≤ 9999 ↔ n ≤ 9999) := by
  by_cases hsmall : n.natAbs ≤ 2 ^ 53
  · rw [luaNumber_small hsmall]
    exact ⟨h, Iff.rfl⟩
  · have := luaNumber_large h.le hsmall
    omega

theorem normalizeIntField_allowed {value : Option String} {field : String} {allowed : List Int}
    {n : Int} (h : normalizeIntField nfkc value field allowed = .ok n) : n ∈ allowed := by
  simp only [normalizeIntField] at h
  split at h
  · cases h
  split at h
  · cases h
  split at h
  · next hmem =>
    obtain rfl := Except.ok.inj h
    simpa using hmem
  · cases h

/-- A preview and an allocation for the same year and gender are about the same sequence. -/
theorem inputs_eq {payload other : RawPayload} {normalized : NormalizedPayload}
    {inputs : Int × String} (hinputs : C.previewInputs nfkc payload = .ok inputs)
    (hnormalized : C.normalizePayload nfkc other = .ok normalized)
    (hyear : payload.year = other.year) (hgender : payload.gender = other.gender) :
    inputs = (normalized.gender, normalized.yearCode) ∧
      ∃ prefixCode, genderPrefix normalized.gender = some prefixCode := by
  unfold CounterRuntime.previewInputs at hinputs
  unfold CounterRuntime.normalizePayload at hnormalized
  obtain ⟨gender, hg, hnormalized⟩ := bind_ok hnormalized
  obtain ⟨center, _, hnormalized⟩ := bind_ok hnormalized
  obtain ⟨studentId, _, hnormalized⟩ := bind_ok hnormalized
  obtain ⟨yearCode, hy, hnormalized⟩ := bind_ok hnormalized
  obtain ⟨gender', hg', hinputs⟩ := bind_ok hinputs
  obtain ⟨center', _, hinputs⟩ := bind_ok hinputs
  obtain ⟨yearCode', hy', hinputs⟩ := bind_ok hinputs
  rw [hgender, hg] at hg'
  rw [hyear, hy] at hy'
  obtain rfl := Except.ok.inj hg'
  obtain rfl := Except.ok.inj hy'
  obtain rfl := Except.ok.inj hinputs
  obtain rfl := Except.ok.inj hnormalized
  refine ⟨rfl, ?_⟩
  have hmem := normalizeIntField_allowed hg
  simp only [List.mem_cons, List.not_mem_nil, or_false] at hmem
  rcases hmem with rfl | rfl
  · exact ⟨_, rfl⟩
  · exact ⟨_, rfl⟩

/-- What the script's answer to a free student becomes. -/
def allocated (C : CounterRuntime) (yearCode prefixCode : String) (next : Int) :
    Except Failure CounterResult :=
  if luaNumber C.maxSerial < luaNumber next then .error CounterRuntime.exhausted
  else if counterRegex (yearCode ++ prefixCode ++ zeroPad 4 (luaNumber next)) then
    .ok ⟨yearCode ++ prefixCode ++ zeroPad 4 (luaNumber next), yearCode, "new"⟩
  else .error CounterRuntime.invalidPattern

theorem attemptLimit_pos (C : CounterRuntime) : ∃ n, C.attemptLimit = n + 1 :=
  ⟨C.attemptLimit - 1, by simp only [CounterRuntime.attemptLimit]; omega⟩

/-- What an allocation for an unbound student returns. -/
theorem alone_allocate (hs : s.Shaped N) {payload : RawPayload} {normalized : NormalizedPayload}
    {prefixCode : String} (hn : C.normalizePayload nfkc payload = .ok normalized)
    (hcode : genderPrefix normalized.gender = some prefixCode)
    (hunbound : s.boundTo N normalized.yearCode normalized.studentId = none)
    (hattempts : 0 < C.executorAttempts) :
    ∃ y t, Program.alone Store.serve (C.allocate N nfkc payload) s = some (y, t) ∧
      (s.value (N.counterStudent normalized.yearCode normalized.studentId) = none ∧
          s.nextSerial N normalized.yearCode normalized.gender < 2 ^ 63 ∧
          y = allocated C normalized.yearCode prefixCode
            (s.nextSerial N normalized.yearCode normalized.gender) ∨
        ¬ (s.value (N.counterStudent normalized.yearCode normalized.studentId) = none ∧
          s.nextSerial N normalized.yearCode normalized.gender < 2 ^ 63) ∧
          ∃ e, y = .error e ∧ e ≠ CounterRuntime.exhausted) := by
  obtain ⟨n, hattempt⟩ : ∃ n, C.executorAttempts = n + 1 := ⟨C.executorAttempts - 1, by omega⟩
  obtain ⟨m, hlimit⟩ := attemptLimit_pos C
  have hretry : CounterRuntime.retryExhausted C.attemptLimit ≠ CounterRuntime.exhausted := by
    simp [CounterRuntime.retryExhausted, CounterRuntime.exhausted]
  simp only [CounterRuntime.allocate, hn, CounterRuntime.allocateWithRetry, hcode]
  cases hvalue : s.value (N.counterStudent normalized.yearCode normalized.studentId) with
  | some v =>
    have hpending : v = .pending := by
      cases v with
      | pending => rfl
      | number k => exact absurd hvalue (hs.students _ _ k)
      | assigned a => simp [Store.boundTo, hvalue] at hunbound
    rw [hpending] at hvalue
    exact ⟨_, s, alone_allocateLoop_pending hvalue hattempts _, .inr ⟨by simp, _, rfl, hretry⟩⟩
  | none =>
    obtain ⟨-, ⟨hlt, t, hscript⟩ | ⟨hlt, message, t, hscript, hpending⟩⟩ :=
      allocateScript_free (C := C) hs prefixCode hvalue
    · refine ⟨_, t, ?_, .inl ⟨rfl, hlt, rfl⟩⟩
      by_cases hmax : luaNumber C.maxSerial <
          luaNumber (s.nextSerial N normalized.yearCode normalized.gender)
      · rw [if_pos hmax] at hscript
        have hcall := alone_call_ok (r := .eval _) n none hscript
        rw [← hattempt] at hcall
        rw [hlimit, CounterRuntime.allocateLoop, Fallible.alone_bind_ok hcall, allocated,
          if_pos hmax]
        rfl
      · rw [if_neg hmax] at hscript
        have hcall := alone_call_ok (r := .eval _) n none hscript
        rw [← hattempt] at hcall
        rw [hlimit, CounterRuntime.allocateLoop, Fallible.alone_bind_ok hcall, allocated,
          if_neg hmax]
        simp only [CounterRuntime.checked]
        split <;> rfl
    · -- The first attempt fails in `INCR` and leaves the placeholder for the later ones.
      have hfailed : s.execute (.eval (C.scriptArgs N normalized prefixCode)) =
        (.error message, t) :=
        hscript
      have hfirst : Program.alone Store.serve (RedisExecutor.call (.eval (C.scriptArgs N normalized
          prefixCode)) none (n + 1)) s = Program.alone Store.serve (RedisExecutor.call
            (.eval (C.scriptArgs N normalized prefixCode)) (some message) n) t := by
        simp only [RedisExecutor.call, Program.alone, serve_eq, hfailed, Option.bind_some]
      cases n with
      | zero =>
        have hcall : Program.alone Store.serve (RedisExecutor.call (.eval (C.scriptArgs N normalized
            prefixCode)) none C.executorAttempts) s = some (.error (.operation message), t) := by
          rw [hattempt, hfirst]
          rfl
        refine ⟨_, t, ?_, .inr ⟨fun h => hlt h.2, .operation message, rfl, ?_⟩⟩
        · rw [hlimit, CounterRuntime.allocateLoop, Fallible.alone_bind_error hcall]
        · simp [CounterRuntime.exhausted]
      | succ n =>
        have hcall := hfirst.trans (alone_call_ok n (some message) (execute_pending hpending))
        rw [← hattempt] at hcall
        refine ⟨_, t, ?_, .inr ⟨fun h => hlt h.2, _, rfl, hretry⟩⟩
        rw [hlimit, CounterRuntime.allocateLoop, Fallible.alone_bind_ok hcall, ← hlimit]
        exact alone_allocateLoop_pending hpending hattempts m

theorem agree_exhausted {y : Except Failure CounterResult} :
    Agree (.error CounterRuntime.exhausted) y ↔ y = .error CounterRuntime.exhausted := by
  refine ⟨fun h => h.exhausted.mp rfl, fun h => ⟨fun counter => ?_, by simp [h]⟩⟩
  simp [h]

theorem agree_ok {r : CounterResult} {y : Except Failure CounterResult} :
    Agree (.ok r) y ↔ ∃ r', y = .ok r' ∧ r'.counter = r.counter ∧ r'.status = "new" := by
  constructor
  · intro h
    exact (h.counters r.counter).mp ⟨r, rfl, rfl⟩
  · rintro ⟨r', rfl, hcounter, hstatus⟩
    constructor
    · intro counter
      constructor
      · rintro ⟨r₁, hr, rfl⟩
        obtain rfl := Except.ok.inj hr
        exact ⟨r', rfl, hcounter, hstatus⟩
      · rintro ⟨r₁, hr, rfl, -⟩
        obtain rfl := Except.ok.inj hr
        exact ⟨r, rfl, hcounter.symm⟩
    · simp

theorem agree_failures {e e' : Failure} (h : e ≠ CounterRuntime.exhausted)
    (h' : e' ≠ CounterRuntime.exhausted) : Agree (.error e) (.error e') where
  counters := by simp
  exhausted := by simp [h, h']

theorem allocated_exhausted {yearCode prefixCode : String} {next : Int} :
    allocated C yearCode prefixCode next = .error CounterRuntime.exhausted ↔
      luaNumber C.maxSerial < luaNumber next := by
  rw [allocated]
  split
  · next h => simp [h]
  · next h =>
    split
    · simp [h]
    · simp [h, CounterRuntime.exhausted, CounterRuntime.invalidPattern]

/-- Up to the bound, the script's counter is the previewed one exactly when it passes. -/
theorem allocated_new {yearCode prefixCode : String} {gender next : Int}
    (hlen : yearCode.toList.length = 2) (hcode : genderPrefix gender = some prefixCode)
    (hpos : 0 < next) (hmax : next ≤ C.maxSerial) :
    (∃ r, allocated C yearCode prefixCode next = .ok r ∧
      r.counter = yearCode ++ prefixCode ++ zeroPad 4 next ∧ r.status = "new") ↔
      yearCode.toList.all isDecimal = true ∧ next ≤ 9999 := by
  have hlua := luaNumber_pos hpos
  have hregex := counterRegex_counter hlen hcode hlua.1
  rw [hlua.2] at hregex
  by_cases hsmall : next ≤ 9999
  · have hbound := luaNumber_pos (lt_of_lt_of_le hpos hmax)
    have hnext : luaNumber next = next := luaNumber_small (by omega)
    have hnot : ¬ luaNumber C.maxSerial < luaNumber next := by
      by_cases hbig : C.maxSerial ≤ 9999
      · rw [luaNumber_small (n := C.maxSerial) (by omega)]
        omega
      · omega
    rw [allocated, if_neg hnot]
    rw [hnext] at hregex ⊢
    by_cases hdecimal : yearCode.toList.all isDecimal = true ∧ next ≤ 9999
    · rw [if_pos (hregex.mpr hdecimal)]
      exact ⟨fun _ => hdecimal, fun _ => ⟨_, rfl, rfl, rfl⟩⟩
    · rw [if_neg (mt hregex.mp hdecimal)]
      exact iff_of_false (by simp) hdecimal
  · have hfail : ¬ (yearCode.toList.all isDecimal = true ∧ next ≤ 9999) := fun h => hsmall h.2
    rw [allocated]
    split
    · exact iff_of_false (by simp) hfail
    · rw [if_neg (mt hregex.mp hfail)]
      exact iff_of_false (by simp) hfail

/-- An executor that makes no attempt fails either call. -/
theorem alone_no_attempts (hattempts : C.executorAttempts = 0) {payload other : RawPayload}
    {inputs : Int × String} {normalized : NormalizedPayload} {prefixCode : String}
    (hinputs : C.previewInputs nfkc payload = .ok inputs)
    (hn : C.normalizePayload nfkc other = .ok normalized)
    (hcode : genderPrefix normalized.gender = some prefixCode) : ∃ e,
    e ≠ CounterRuntime.exhausted ∧
    Program.alone Store.serve (C.preview N nfkc payload) s = some (.error e, s) ∧
    Program.alone Store.serve (C.allocate N nfkc other) s = some (.error e, s) := by
  obtain ⟨m, hlimit⟩ := attemptLimit_pos C
  refine ⟨.operation "redis operation failed without exception", by simp [CounterRuntime.exhausted],
    ?_, ?_⟩
  · simp only [CounterRuntime.preview, hinputs, hattempts]
    rw [Fallible.alone_bind_error (alone_call_zero _ s)]
  · simp only [CounterRuntime.allocate, hn, CounterRuntime.allocateWithRetry, hcode, hlimit,
      CounterRuntime.allocateLoop, hattempts]
    rw [Fallible.alone_bind_error (alone_call_zero _ s)]

/-- In every state the calls reach, a preview and the next allocation of an unbound student
for the same year and gender agree exactly when the allocation is foretold. -/
theorem preview_foretells_iff {ι : Type} [DecidableEq ι] (calls : ι → CounterCall)
    (trace : List (CounterSystem ι × (ι × Choice))) (c : CounterSystem ι)
    (h : Run CounterSystem.Step (CounterSystem.start N nfkc calls) trace c)
    (payload other : RawPayload) (inputs : Int × String) (normalized : NormalizedPayload)
    (hinputs : C.previewInputs nfkc payload = .ok inputs)
    (hnormalized : C.normalizePayload nfkc other = .ok normalized)
    (hyear : payload.year = other.year) (hgender : payload.gender = other.gender)
    (hunbound : c.store.boundTo N normalized.yearCode normalized.studentId = none) :
    ∃ x s y t, Program.alone Store.serve (C.preview N nfkc payload) c.store = some (x, s) ∧
      Program.alone Store.serve (C.allocate N nfkc other) s = some (y, t) ∧
      (Agree x y ↔ Foretold C N c.store normalized) := by
  obtain ⟨rfl, prefixCode, hcode⟩ := inputs_eq hinputs hnormalized hyear hgender
  have hs := reachable_shaped h
  by_cases hattempts : C.executorAttempts = 0
  · obtain ⟨e, he, hx, hy⟩ := alone_no_attempts (s := c.store) hattempts hinputs hnormalized hcode
    exact ⟨_, _, _, _, hx, hy, iff_of_true (agree_failures he he) (.inl hattempts)⟩
  have hsome : 0 < C.executorAttempts := Nat.pos_of_ne_zero hattempts
  obtain ⟨y, t, hy, hcases⟩ := alone_allocate hs hnormalized hcode hunbound hsome
  refine ⟨_, _, y, t, alone_preview hinputs hcode hsome, hy, ?_⟩
  rw [Foretold, or_iff_right hattempts]
  have hpos : 0 < c.store.nextSerial N normalized.yearCode normalized.gender :=
    Int.lt_add_one_of_le (hs.sequence_nonneg _ _)
  by_cases hmax : C.maxSerial < c.store.nextSerial N normalized.yearCode normalized.gender
  · rw [if_pos hmax, if_pos hmax, agree_exhausted]
    rcases hcases with ⟨hfree, hlt, rfl⟩ | ⟨hnot, e, rfl, he⟩
    · rw [allocated_exhausted]
      exact ⟨fun hlua => ⟨hfree, hlt, hlua⟩, fun hall => hall.2.2⟩
    · refine iff_of_false (fun hy => he (Except.error.inj hy)) fun hall => hnot ⟨hall.1, hall.2.1⟩
  · rw [if_neg hmax, if_neg hmax, agree_ok]
    rcases hcases with ⟨hfree, hlt, rfl⟩ | ⟨hnot, e, rfl, he⟩
    · rw [and_iff_right hfree]
      exact allocated_new (normalizePayload_length hnormalized) hcode hpos (not_lt.mp hmax)
    · refine iff_of_false (by simp) fun hall => hnot ⟨hall.1, ?_⟩
      have := hall.2.2
      omega

end

/-- An allocation that is foretold: the first serial of a sequence. -/
theorem preview_foretells_first : ∃ x s y t,
    Program.alone Store.serve (sampleRuntime.preview ⟨"sma"⟩ id (samplePayload "0012345678"))
      (fun _ => none) = some (x, s) ∧
    Program.alone Store.serve (sampleRuntime.allocate ⟨"sma"⟩ id (samplePayload "0012345678")) s =
      some (y, t) ∧ (Agree x y ↔ Foretold sampleRuntime ⟨"sma"⟩ (fun _ => none)
        ⟨"02", 1, 1, "0012345678"⟩) := by
  have hinputs : sampleRuntime.previewInputs id (samplePayload "0012345678") = .ok (1, "02") := by
    unfold CounterRuntime.previewInputs
    decide +kernel
  have hnormalized : sampleRuntime.normalizePayload id (samplePayload "0012345678") =
      .ok ⟨"02", 1, 1, "0012345678"⟩ := by
    unfold CounterRuntime.normalizePayload
    rfl
  exact preview_foretells_iff (N := ⟨"sma"⟩) sampleCalls [] _ Run.nil _ _ _ _ hinputs
    hnormalized rfl rfl rfl

/-- A year in digits that are not decimal: `isdigit` accepts them and `\d` does not. -/
def ethiopicPayload (studentId : String) : RawPayload :=
  { samplePayload studentId with year := some "፩፬፩፪" }

/-- The year passes every check, its preview succeeds, and the allocation then fails. -/
theorem preview_foretells_ethiopic :
    Run CounterSystem.Step (CounterSystem.start ⟨"sma"⟩ id sampleCalls) []
      (CounterSystem.start ⟨"sma"⟩ id sampleCalls) ∧
    (CounterSystem.start ⟨"sma"⟩ id sampleCalls).store.boundTo ⟨"sma"⟩ "፩፪" "0012345678" = none ∧
    ∃ r s t, Program.alone Store.serve (sampleRuntime.preview ⟨"sma"⟩ id
        (ethiopicPayload "0012345678"))
        (CounterSystem.start ⟨"sma"⟩ id sampleCalls).store = some (.ok r, s) ∧
      Program.alone Store.serve (sampleRuntime.allocate ⟨"sma"⟩ id
        (ethiopicPayload "0012345678")) s = some (.error CounterRuntime.invalidPattern, t) ∧
      ¬ Agree (.ok r) (.error CounterRuntime.invalidPattern) := by
  have hinputs : sampleRuntime.previewInputs id (ethiopicPayload "0012345678") =
      .ok (1, "፩፪") := by
    unfold CounterRuntime.previewInputs
    decide +kernel
  have hnormalized : sampleRuntime.normalizePayload id (ethiopicPayload "0012345678") =
      .ok ⟨"፩፪", 1, 1, "0012345678"⟩ := by
    unfold CounterRuntime.normalizePayload
    rfl
  have hshaped := Store.shaped_empty ⟨"sma"⟩
  have hnext : (Store.nextSerial (fun _ => none) ⟨"sma"⟩ "፩፪" 1) = 1 := rfl
  have hpreview := alone_preview (N := ⟨"sma"⟩) (s := fun _ => none) hinputs rfl (by decide)
  have hrefused : allocated sampleRuntime "፩፪" "357" 1 = .error CounterRuntime.invalidPattern := by
    decide +kernel
  obtain ⟨y, t, hy, ⟨-, -, rfl⟩ | ⟨hnot, -⟩⟩ :=
    alone_allocate hshaped hnormalized rfl rfl (by decide)
  · rw [hnext, hrefused] at hy
    rw [hnext] at hpreview
    refine ⟨Run.nil, rfl, _, _, t, hpreview, hy, ?_⟩
    rw [agree_ok]
    simp
  · exact absurd ⟨rfl, by decide⟩ hnot

end Counter

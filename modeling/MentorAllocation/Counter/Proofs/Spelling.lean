import MentorAllocation.Counter.Proofs.Issuing
import MentorAllocation.Data.Except

namespace Counter
open Text Concurrency Data

/-- Texts that differ only in the script of their digits, in the zero-width characters that are
stripped, in compatibility forms and in surrounding space. -/
inductive Respelled (nfkc : String → String) : String → String → Prop
  | digits {a b : String} (h : translate easternDigits a = translate easternDigits b) :
    Respelled nfkc a b
  | zeroWidth {a b : String} (h : stripControls a = stripControls b) : Respelled nfkc a b
  | forms {a b : String} (h : nfkc a = nfkc b) : Respelled nfkc a b
  | space {a b : String} (h : strip a = strip b) : Respelled nfkc a b
  | trans {a b c : String} (h : Respelled nfkc a b) (h' : Respelled nfkc b c) : Respelled nfkc a c

/-- Texts that agree in NFKC up to zero-width characters and surrounding space, each digit in
the same script. -/
def Alike (nfkc : String → String) (a b : String) : Prop :=
  strip (stripControls (nfkc a)) = strip (stripControls (nfkc b))

/-- An allocation, with the store to itself, returns the counter. -/
def ReturnsCounter (N : RedisNamespaces) (nfkc : String → String) (C : CounterRuntime)
    (payload : RawPayload) (counter : String) (s : Store) : Prop :=
  ∃ r t, Program.alone Store.serve (C.allocate N nfkc payload) s = some (.ok r, t) ∧
    r.counter = counter

section
variable {N : RedisNamespaces} {nfkc : String → String} {C : CounterRuntime}
  {payload other : RawPayload} {normalized : NormalizedPayload} {a b : String}

theorem normalizeIdentifier_congr (h : Alike nfkc a b) :
    normalizeIdentifier nfkc (some a) = normalizeIdentifier nfkc (some b) := by
  simp only [normalizeIdentifier, Option.getD_some]
  rw [Alike] at h
  rw [h]

theorem alike_of_normalizeIdentifier {studentId : String}
    (ha : normalizeIdentifier nfkc (some a) = .ok studentId)
    (hb : normalizeIdentifier nfkc (some b) = .ok studentId) : Alike nfkc a b := by
  have htext : ∀ {text : String}, normalizeIdentifier nfkc (some text) = .ok studentId →
      strip (stripControls (nfkc text)) = studentId := by
    intro text h
    simp only [normalizeIdentifier, Option.getD_some] at h
    split at h
    · cases h
    · exact Except.ok.inj h
  exact (htext ha).trans (htext hb).symm

/-- What payloads that differ in the student only are normalised to. -/
theorem normalizePayload_student (hyear : other.year = payload.year)
    (hgender : other.gender = payload.gender) (hcenter : other.center = payload.center)
    (h : C.normalizePayload nfkc payload = .ok normalized) :
    normalizeIdentifier nfkc payload.studentId = .ok normalized.studentId ∧
    C.normalizePayload nfkc other =
      (normalizeIdentifier nfkc other.studentId).map fun studentId =>
        { normalized with studentId } := by
  unfold CounterRuntime.normalizePayload at h ⊢
  obtain ⟨gender, hg, h⟩ := bind_eq_ok.mp h
  obtain ⟨center, hc, h⟩ := bind_eq_ok.mp h
  obtain ⟨studentId, hs, h⟩ := bind_eq_ok.mp h
  obtain ⟨yearCode, hy, h⟩ := bind_eq_ok.mp h
  obtain rfl := Except.ok.inj h
  refine ⟨hs, ?_⟩
  rw [hgender, hg, hcenter, hc, hyear, hy]
  cases normalizeIdentifier nfkc other.studentId with
  | error e => rfl
  | ok studentId => rfl

variable {s : Store} {r : CounterResult} {ι : Type} [DecidableEq ι] {calls : ι → CounterCall}
  {trace : List (CounterSystem ι × (ι × Choice))} {c : CounterSystem ι} {i : ι}

/-- A call that has returned a counter was accepted and could send commands. -/
theorem returned_accepted (h : Run CounterSystem.Step (CounterSystem.start N nfkc calls) trace c)
    (hcall : calls i = .allocate C payload) (hreturned : c.threads i = .ret (.ok r)) :
    0 < C.executorAttempts ∧ ∃ normalized, C.normalizePayload nfkc payload = .ok normalized ∧
      ∃ prefixCode, genderPrefix normalized.gender = some prefixCode := by
  have hfailed : ∀ e, C.allocate N nfkc payload ≠ .ret (.error e) := by
    intro e he
    have hstart : (CounterSystem.start N nfkc calls).threads i = .ret (.error e) := by
      simp only [CounterSystem.start, hcall, CounterCall.program, he]
    rw [Config.run_ended h hstart] at hreturned
    cases hreturned
  cases hnormalized : C.normalizePayload nfkc payload with
  | error details =>
    refine absurd ?_ (hfailed (CounterRuntime.validationError details))
    simp only [CounterRuntime.allocate, hnormalized]
    rfl
  | ok normalized =>
    cases hcode : genderPrefix normalized.gender with
    | none =>
      refine absurd ?_ (hfailed .keyError)
      simp only [CounterRuntime.allocate, hnormalized, CounterRuntime.allocateWithRetry, hcode]
      rfl
    | some prefixCode =>
      refine ⟨Nat.pos_of_ne_zero fun hattempts => ?_, normalized, rfl, prefixCode, hcode⟩
      obtain ⟨m, hlimit⟩ := attemptLimit_pos C
      refine absurd ?_ (hfailed (.operation "redis operation failed without exception"))
      simp only [CounterRuntime.allocate, hnormalized, CounterRuntime.allocateWithRetry, hcode,
        hlimit, CounterRuntime.allocateLoop, hattempts]
      rfl

/-- A student who has a counter is given it again. -/
theorem returnsCounter_bound {other : RawPayload} {prefixCode : String}
    (hnormalized : C.normalizePayload nfkc other = .ok normalized)
    (hcode : genderPrefix normalized.gender = some prefixCode)
    (hattempts : 0 < C.executorAttempts) (hbound : BoundResult N normalized r s)
    (hregex : counterRegex r.counter = true) :
    ReturnsCounter N nfkc C other r.counter s := by
  obtain ⟨n, hn⟩ : ∃ n, C.executorAttempts = n + 1 := ⟨C.executorAttempts - 1, by omega⟩
  obtain ⟨m, hlimit⟩ := attemptLimit_pos C
  obtain ⟨a, ha, hcounter⟩ := hbound
  obtain ⟨⟨value, volatile⟩, he, hvalue⟩ := Option.map_eq_some_iff.mp ha
  obtain rfl : value = .assigned a := hvalue
  have hscript : s.execute (.eval (C.scriptArgs N normalized prefixCode)) =
      (.ok (.reused a.counter a.serial), s) := by
    simp only [Store.execute, allocateScript, CounterRuntime.scriptArgs, he]
    rfl
  have hcall := alone_call_ok n none hscript
  rw [← hn] at hcall
  refine ⟨⟨a.counter, normalized.yearCode, "reused"⟩, s, ?_, hcounter⟩
  simp only [CounterRuntime.allocate, hnormalized, CounterRuntime.allocateWithRetry, hcode, hlimit,
    CounterRuntime.allocateLoop]
  rw [Fallible.alone_bind_ok hcall]
  rw [← hcounter] at hregex
  simp only [CounterRuntime.checked, if_pos hregex]
  rfl

/-- After a call has returned a student's counter, an allocation that differs in the student's
text alone returns the same one exactly for texts that are alike. -/
theorem returnsCounter_iff (h : Run CounterSystem.Step (CounterSystem.start N nfkc calls) trace c)
    (hcall : calls i = .allocate C payload) (hreturned : c.threads i = .ret (.ok r))
    (hyear : other.year = payload.year) (hgender : other.gender = payload.gender)
    (hcenter : other.center = payload.center) (ha : payload.studentId = some a)
    (hb : other.studentId = some b) :
    ReturnsCounter N nfkc C other r.counter c.store ↔ Alike nfkc a b := by
  obtain ⟨hattempts, normalized, hnormalized, prefixCode, hcode⟩ :=
    returned_accepted h hcall hreturned
  obtain ⟨hissuing, htold⟩ := reachable_issuing h
  have houtcome := htold i _ hreturned C payload normalized hcall hnormalized
  obtain ⟨hbound, hregex⟩ := houtcome.bound r rfl
  obtain ⟨hstudent, hother⟩ := normalizePayload_student hyear hgender hcenter hnormalized
  rw [ha] at hstudent
  constructor
  · rintro ⟨r', t, halone, hcounter⟩
    have hserved : Program.alone (Store.answer {} ()) (C.allocate N nfkc other) c.store =
        some (.ok r', t) := halone
    cases hid : normalizeIdentifier nfkc other.studentId with
    | error e =>
      rw [hid] at hother
      simp only [CounterRuntime.allocate, hother, Except.map] at halone
      cases halone
    | ok studentId =>
      rw [hid] at hother
      obtain ⟨choices, hplayed⟩ : ∃ choices, Program.played (fun ch => Store.answer ch ())
          (C.allocate N nfkc other) choices c.store = some (.ok r', t) :=
        Program.played_of_alone {} hserved
      have hsafe : (issueProtocol Unit N).Safe () (Outcome N c.store { normalized with studentId })
          (C.allocate N nfkc other) c.store := safe_allocate hother (.refl c.store)
      obtain ⟨ht, hafter⟩ := hsafe.played hissuing (fun _ _ _ => trivial) hplayed
      obtain ⟨assigned, hstored, hfirst⟩ := hbound
      obtain ⟨⟨assigned', hstored', hsecond⟩, -⟩ := hafter.bound r' rfl
      have hkey := ht.unique _ _ _ _ (hafter.later.keeps _ _ hstored) hstored'
        (hfirst.trans (hcounter.symm.trans hsecond.symm)) (hfirst ▸ hregex)
      obtain rfl : normalized.studentId = studentId := RedisNamespaces.counterStudent_inj hkey
      rw [hb] at hid
      exact alike_of_normalizeIdentifier hstudent hid
  · intro halike
    have hid : normalizeIdentifier nfkc other.studentId = .ok normalized.studentId := by
      rw [hb, ← normalizeIdentifier_congr halike, hstudent]
    rw [hid] at hother
    exact returnsCounter_bound hother hcode hattempts hbound hregex

end

/-- Once a call has returned a student's counter, an allocation for a respelled text returns the
same counter exactly when the spellings are alike. -/
theorem respelled_keeps_counter_iff {ι : Type} [DecidableEq ι] (N : RedisNamespaces)
    (nfkc : String → String) (calls : ι → CounterCall)
    (trace : List (CounterSystem ι × (ι × Choice))) (c : CounterSystem ι)
    (h : Run CounterSystem.Step (CounterSystem.start N nfkc calls) trace c)
    (i : ι) (C : CounterRuntime) (payload other : RawPayload) (r : CounterResult) (a b : String)
    (hcall : calls i = .allocate C payload) (hreturned : c.threads i = .ret (.ok r))
    (hyear : other.year = payload.year) (hgender : other.gender = payload.gender)
    (hcenter : other.center = payload.center) (ha : payload.studentId = some a)
    (hb : other.studentId = some b) :
    (Respelled nfkc a b → ReturnsCounter N nfkc C other r.counter c.store) ↔
      (Respelled nfkc a b → Alike nfkc a b) :=
  imp_congr_right fun _ => returnsCounter_iff h hcall hreturned hyear hgender hcenter ha hb

def spelledCalls : Fin 1 → CounterCall :=
  fun _ => .allocate sampleRuntime (samplePayload "0012345678")

/-- The student's first call has returned. -/
theorem spelledCalls_run : ∃ trace c,
    Run CounterSystem.Step (CounterSystem.start ⟨"sma"⟩ id spelledCalls) trace c ∧
    c.threads 0 = .ret (.ok ⟨"023570001", "02", "new"⟩) := by
  have hrun : ((replay (fun c l => c.next Store.answer l)
      (CounterSystem.start ⟨"sma"⟩ id spelledCalls) [(0, {})]).bind
      fun c => (c.threads 0).result?) = some (.ok ⟨"023570001", "02", "new"⟩) := by
    decide +kernel
  obtain ⟨c, hc, hresult⟩ := Option.bind_eq_some_iff.mp hrun
  exact ⟨_, c, run_of_replay hc, Program.result?_eq_some.mp hresult⟩

/-- Space around the text is no other spelling. -/
theorem respelled_keeps_counter_iff_space : ∃ s,
    (Respelled id "0012345678" " 0012345678 " →
      ReturnsCounter ⟨"sma"⟩ id sampleRuntime (samplePayload " 0012345678 ") "023570001" s) ↔
    (Respelled id "0012345678" " 0012345678 " → Alike id "0012345678" " 0012345678 ") := by
  obtain ⟨trace, c, hrun, hreturned⟩ := spelledCalls_run
  exact ⟨c.store, respelled_keeps_counter_iff ⟨"sma"⟩ id spelledCalls trace c hrun 0 sampleRuntime
    (samplePayload "0012345678") (samplePayload " 0012345678 ") _ _ _ rfl hreturned rfl rfl rfl rfl
    rfl⟩

/-- The same number in Persian digits is another student. -/
theorem persian_digits_draw_again : ∃ trace c,
    Run CounterSystem.Step (CounterSystem.start ⟨"sma"⟩ id spelledCalls) trace c ∧
    c.threads 0 = .ret (.ok ⟨"023570001", "02", "new"⟩) ∧
    Respelled id "0012345678" "۰۰۱۲۳۴۵۶۷۸" ∧
    ¬ ReturnsCounter ⟨"sma"⟩ id sampleRuntime (samplePayload "۰۰۱۲۳۴۵۶۷۸") "023570001" c.store := by
  obtain ⟨trace, c, hrun, hreturned⟩ := spelledCalls_run
  have hrespelled : Respelled id "0012345678" "۰۰۱۲۳۴۵۶۷۸" := .digits (by decide +kernel)
  have hdiffer : strip (stripControls "0012345678") ≠ strip (stripControls "۰۰۱۲۳۴۵۶۷۸") := by
    decide +kernel
  have hiff : ReturnsCounter ⟨"sma"⟩ id sampleRuntime (samplePayload "۰۰۱۲۳۴۵۶۷۸") "023570001"
      c.store ↔ Alike id "0012345678" "۰۰۱۲۳۴۵۶۷۸" :=
    returnsCounter_iff (i := 0) (a := "0012345678") (b := "۰۰۱۲۳۴۵۶۷۸") hrun rfl hreturned rfl rfl
      rfl rfl rfl
  exact ⟨trace, c, hrun, hreturned, hrespelled, fun hreturns => hdiffer (hiff.mp hreturns)⟩

end Counter

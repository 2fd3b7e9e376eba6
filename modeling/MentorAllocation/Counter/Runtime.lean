import MentorAllocation.Counter.Redis
import MentorAllocation.Counter.Rules

namespace Counter
open Text Concurrency

/-- `normalize_digits` of `sma.core.normalize`; `nfkc` is `unicodedata.normalize("NFKC", ·)`. -/
def normalizeDigits (nfkc : String → String) (value : String) : String :=
  translate easternDigits (nfkc value)

def stripControls (value : String) : String :=
  remove ['\u200c', '\u200d', '\u200e', '\u200f', '\ufeff'] value

def stripZw (text : String) : String := remove ['\u200c', '\u200d', '\u200e', '\u200f'] text

/-- `int(text)` on a text of digits, or the message of its `ValueError`. -/
def intOfDigits (text : String) : Except String Int :=
  match parseInt text with
  | some n => .ok n
  | none =>
    if text.toList.all isDecimal then
      .error ("Exceeds the limit (4300 digits) for integer string conversion: value has " ++
        toString text.length ++ " digits; use sys.set_int_max_str_digits() to increase the limit")
    else .error ("invalid literal for int() with base 10: '" ++ text ++ "'")

/-- `_normalize_identifier` of a value given by its `str`; `none` is `None`. -/
def normalizeIdentifier (nfkc : String → String) (value : Option String) : Except String String :=
  let text := strip (stripControls (nfkc (value.getD "")))
  if text.isEmpty then .error "شناسه دانش‌آموز نامعتبر است" else .ok text

def normalizeIntField (nfkc : String → String) (value : Option String) (field : String)
    (allowed : List Int) : Except String Int :=
  let normalized := strip (stripControls (normalizeDigits nfkc (nfkc (value.getD ""))))
  if !isDigitText normalized then .error (field ++ " نامعتبر است")
  else match intOfDigits normalized with
    | .error message => .error message
    | .ok parsed =>
      if allowed.contains parsed then .ok parsed else .error (field ++ " نامعتبر است")

structure AcademicYearProvider where
  codeMap : List (String × String)

/-- The mapped code of a year, or its last two characters if it has at least four. -/
def AcademicYearProvider.mapped (Y : AcademicYearProvider) (normalized : String) :
    Option String :=
  match Y.codeMap.lookup normalized with
  | some code => some code
  | none =>
    if normalized.length < 4 then none
    else some (String.ofList (normalized.toList.drop (normalized.length - 2)))

def AcademicYearProvider.codeFor (Y : AcademicYearProvider) (nfkc : String → String)
    (year : Option String) : Except String String :=
  let normalized := strip (stripZw (normalizeDigits nfkc (nfkc (year.getD ""))))
  if normalized.isEmpty || !isDigitText normalized then .error "سال نامعتبر است"
  else match Y.mapped normalized with
    | none => .error "سال نامعتبر است"
    | some code =>
      let code := strip (stripZw (normalizeDigits nfkc (nfkc code)))
      if !isDigitText code || code.length != 2 then .error "کد سال نامعتبر است"
      else .ok code

/-- The members of a payload that are read, each by its `str`; `none` is `None` or absent. -/
structure RawPayload where
  year : Option String
  gender : Option String
  center : Option String
  studentId : Option String

structure NormalizedPayload where
  yearCode : String
  gender : Int
  center : Int
  studentId : String

structure CounterResult where
  counter : String
  yearCode : String
  status : String
  deriving DecidableEq, Repr

/-- One client's `CounterRuntime` and the number of attempts its executor makes. -/
structure CounterRuntime where
  yearProvider : AcademicYearProvider
  maxSerial : Int
  waitAttempts : Int
  executorAttempts : Nat

namespace CounterRuntime
variable (C : CounterRuntime) (N : RedisNamespaces) (nfkc : String → String)

/-- What `allocate` and `preview` are: programs that send commands to one server. -/
abbrev Call := Fallible Request Request.Response Failure CounterResult

def validationError (details : String) : Failure :=
  .counter "COUNTER_VALIDATION_ERROR" "درخواست نامعتبر است؛ سال/جنسیت/مرکز را بررسی کنید."
    (some details)

def exhausted : Failure :=
  .counter "COUNTER_EXHAUSTED" "ظرفیت شماره ثبت برای این سال تکمیل شده است." none

def invalidPattern : Failure := .counter "COUNTER_STATE_ERROR" "الگوی شماره نامعتبر است." none

def retryExhausted (attempts : Nat) : Failure :=
  .counter "COUNTER_RETRY_EXHAUSTED" "امکان تخصیص شماره ثبت وجود ندارد؛ دوباره تلاش کنید."
    (some ("attempts=" ++ toString attempts))

@[irreducible] def normalizePayload (payload : RawPayload) : Except String NormalizedPayload := do
  let gender ← normalizeIntField nfkc payload.gender "جنسیت" [0, 1]
  let center ← normalizeIntField nfkc payload.center "مرکز" [0, 1, 2]
  let studentId ← normalizeIdentifier nfkc payload.studentId
  let yearCode ← C.yearProvider.codeFor nfkc payload.year
  return { yearCode, gender, center, studentId }

def attemptLimit : Nat := (max 1 C.waitAttempts).toNat

def scriptArgs (normalized : NormalizedPayload) (prefixCode : String) : ScriptArgs where
  studentKey := N.counterStudent normalized.yearCode normalized.studentId
  sequenceKey := N.counterSequence normalized.yearCode normalized.gender
  yearCode := normalized.yearCode
  prefixCode
  center := toString normalized.center
  gender := toString normalized.gender
  seqMax := C.maxSerial

/-- A counter is handed out once it matches the pattern. -/
def checked (counter yearCode status : String) : Call :=
  if counterRegex counter then pure { counter, yearCode, status }
  else Fallible.raise invalidPattern

def allocateLoop (args : ScriptArgs) : Nat → Call
  | 0 => Fallible.raise (retryExhausted C.attemptLimit)
  | attempts + 1 => do
    let reply ← RedisExecutor.call (.eval args) none C.executorAttempts
    match reply with
    | .new counter _ => checked counter args.yearCode "new"
    | .reused counter _ => checked counter args.yearCode "reused"
    | .pending => allocateLoop args attempts
    | .exhausted => Fallible.raise exhausted

def allocateWithRetry (normalized : NormalizedPayload) : Call :=
  match genderPrefix normalized.gender with
  | none => Fallible.raise .keyError
  | some prefixCode => C.allocateLoop (C.scriptArgs N normalized prefixCode) C.attemptLimit

def allocate (payload : RawPayload) : Call :=
  match C.normalizePayload nfkc payload with
  | .error details => Fallible.raise (validationError details)
  | .ok normalized => C.allocateWithRetry N normalized

/-- `_fetch_current` on what `GET` returned. -/
def currentSerial : Option Value → Int
  | some (.number n) => n
  | _ => 0

@[irreducible] def previewInputs (payload : RawPayload) : Except String (Int × String) := do
  let gender ← normalizeIntField nfkc payload.gender "جنسیت" [0, 1]
  let _ ← normalizeIntField nfkc payload.center "مرکز" [0, 1, 2]
  let yearCode ← C.yearProvider.codeFor nfkc payload.year
  return (gender, yearCode)

def preview (payload : RawPayload) : Call :=
  match C.previewInputs nfkc payload with
  | .error details => Fallible.raise (validationError details)
  | .ok (gender, yearCode) => do
    let raw ← RedisExecutor.call (.get (N.counterSequence yearCode gender)) none C.executorAttempts
    let nextSerial := currentSerial raw + 1
    if C.maxSerial < nextSerial then Fallible.raise exhausted
    else match genderPrefix gender with
      | none => Fallible.raise .keyError
      | some prefixCode =>
        pure { counter := yearCode ++ prefixCode ++ zeroPad 4 nextSerial, yearCode,
               status := "preview" }

end CounterRuntime

inductive CounterCall where
  | allocate (runtime : CounterRuntime) (payload : RawPayload)
  | preview (runtime : CounterRuntime) (payload : RawPayload)

def CounterCall.runtime : CounterCall → CounterRuntime
  | .allocate runtime _ => runtime
  | .preview runtime _ => runtime

def CounterCall.program (N : RedisNamespaces) (nfkc : String → String) :
    CounterCall → CounterRuntime.Call
  | .allocate runtime payload => runtime.allocate N nfkc payload
  | .preview runtime payload => runtime.preview N nfkc payload

abbrev CounterSystem (ι : Type) :=
  Config ι Store Request Request.Response (Except Failure CounterResult)

/-- No call has sent a command yet and the server is empty. -/
def CounterSystem.start {ι : Type} (N : RedisNamespaces) (nfkc : String → String)
    (calls : ι → CounterCall) : CounterSystem ι :=
  ⟨fun _ => none, fun i => (calls i).program N nfkc⟩

/-- The server handles one command of one of the calls. -/
abbrev CounterSystem.Step {ι : Type} [DecidableEq ι] :
    CounterSystem ι → ι × Choice → CounterSystem ι → Prop :=
  Config.Step Store.answer

end Counter

import MentorAllocation.Counter.Rules

namespace Counter
open Text

/-- `ErrorDetail`; what a `CounterServiceError` carries. -/
structure CounterServiceError where
  code : String
  messageFa : String
  details : String
  deriving DecidableEq, Repr

def invalidNationalId (message : String) : CounterServiceError :=
  ⟨"E_INVALID_NID", "کد ملی نامعتبر است.", message⟩

def invalidGender (message : String) : CounterServiceError :=
  ⟨"E_INVALID_GENDER", "جنسیت نامعتبر است.", message⟩

def invalidYearCode (message : String) : CounterServiceError :=
  ⟨"E_YEAR_CODE_INVALID", "کد سال نامعتبر است.", message⟩

def dbConflict (message : String) : CounterServiceError :=
  ⟨"E_DB_CONFLICT", "تعارض در پایگاه داده رخ داد.", message⟩

def counterExhausted (message : String) : CounterServiceError :=
  ⟨"E_COUNTER_EXHAUSTED", "ظرفیت شمارنده به پایان رسید.", message⟩

/-- `^\d{n}$` on a whole text. -/
def digitsPattern (n : Nat) (text : String) : Bool :=
  text.toList.length == n && text.toList.all isDecimal

def counterMaxSeq : Int := 9999

/-- Persian digits only; Arabic-Indic ones stay. -/
def persianDigits : List (Char × Char) :=
  [('۰', '0'), ('۱', '1'), ('۲', '2'), ('۳', '3'), ('۴', '4'),
   ('۵', '5'), ('۶', '6'), ('۷', '7'), ('۸', '8'), ('۹', '9')]

def zeroWidthTable : List Char := ['\u200b', '\ufeff']

/-- `nfkc` is `unicodedata.normalize("NFKC", ·)`. -/
def normalize (nfkc : String → String) (text : String) : String :=
  strip (remove zeroWidthTable (translate persianDigits (nfkc text)))

/-- The national id and year code in the form they are stored. -/
def ensureValidInputs (nfkc : String → String) (nationalId : String) (gender : Int)
    (yearCode : String) : Except CounterServiceError (String × String) :=
  let normalizedNid := normalize nfkc nationalId
  let normalizedYear := normalize nfkc yearCode
  if !digitsPattern 10 normalizedNid then
    .error (invalidNationalId "کد ملی باید دقیقا ۱۰ رقم باشد.")
  else if (genderPrefix gender).isNone then
    .error (invalidGender "جنسیت باید ۰ (زن) یا ۱ (مرد) باشد.")
  else if !digitsPattern 2 normalizedYear then
    .error (invalidYearCode "کد سال باید دقیقا دو رقم باشد.")
  else .ok (normalizedNid, normalizedYear)

def ensureCounterFormat (nfkc : String → String) (counter : String) :
    Except CounterServiceError String :=
  match validateCounter (normalize nfkc counter) with
  | some value => .ok value
  | none => .error (counterExhausted "فرمت شمارنده معتبر نیست یا ظرفیت پایان یافته است.")

def ensureSequenceBounds (seq : Int) : Except CounterServiceError Int :=
  if 1 ≤ seq && seq ≤ counterMaxSeq then .ok seq
  else .error (counterExhausted "محدوده شماره شمارنده به پایان رسیده است.")

end Counter

import MentorAllocation.Text.Normalization

namespace Core
open Text

/-- The values that are told apart; of any other object, `str` is taken. -/
inductive Value where
  | none
  | bool (b : Bool)
  | object (str : String)

def mobileError : String := "شمارهٔ همراه باید با ۰۹ شروع شود و دقیقاً ۱۱ رقم باشد."

def nationalIdError : String := "کد ملی نامعتبر است (۱۰ رقم و چک‌سام)."

/-- `re.sub(r"\D", "", text)`. -/
def onlyDigits (text : String) : List Char := text.toList.filter isDecimal

def normalizeMobilePrefix (digits : List Char) : List Char :=
  if "0098".toList.isPrefixOf digits && 4 < digits.length then '0' :: digits.drop 4
  else if "098".toList.isPrefixOf digits && 11 < digits.length then '0' :: digits.drop 3
  else if "98".toList.isPrefixOf digits && 10 < digits.length then '0' :: digits.drop 2
  else if "9".toList.isPrefixOf digits && digits.length == 10 then '0' :: digits
  else digits

/-- `^09\d{9}$`. -/
def mobilePattern (digits : List Char) : Bool :=
  "09".toList.isPrefixOf digits && digits.length == 11 && digits.all isDecimal

/-- `\d{10}`. -/
def nationalIdPattern (digits : List Char) : Bool := digits.length == 10 && digits.all isDecimal

/-- The check digit of an identity number is what its other digits expect. -/
def checksumHolds (numbers : List Nat) : Bool :=
  let checksum := numbers.getLastD 0
  let weightedSum := (List.range 9).foldl (fun sum i => sum + numbers[i]?.getD 0 * (10 - i)) 0
  let remainder := weightedSum % 11
  let expected := if remainder < 2 then remainder else 11 - remainder
  expected == checksum

section
variable (nfkc : String → String)

def normalizeDigits (value : String) : String := translate easternDigits (nfkc value)

def normalizeMobile : Value → Except String String
  | .none => .error mobileError
  | .bool _ => .error mobileError
  | .object str =>
    let text := nfkc (normalizeDigits nfkc str)
    let digits := normalizeMobilePrefix (onlyDigits text)
    if mobilePattern digits then .ok (String.ofList digits) else .error mobileError

def normalizeNationalId : Value → Except String String
  | .none => .error nationalIdError
  | .bool _ => .error nationalIdError
  | .object str =>
    let text := strip (nfkc (normalizeDigits nfkc str))
    let digits := onlyDigits text
    if !nationalIdPattern digits then .error nationalIdError
    else
      let numbers := digits.map fun ch => (decimal? ch).getD 0
      if checksumHolds numbers then .ok (String.ofList digits) else .error nationalIdError

end

end Core

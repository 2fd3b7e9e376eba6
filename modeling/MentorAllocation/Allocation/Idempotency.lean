import MentorAllocation.Text.Json

namespace Allocation
open Text

/-- Library functions the allocator calls: `unicodedata.normalize("NFKC", ·)`, the
hexadecimal SHA-256 of a text in UTF-8, and `str(uuid5(namespace, name))`. -/
structure Platform where
  nfkc : String → String
  sha256 : String → String
  uuid5 : String → String → String

/-- A value of any type, as far as `normalize_identifier` tells types apart. -/
inductive Raw where
  | none
  | bool (b : Bool)
  | int (n : Int)
  /-- A float, by its `"%f"` rendering. -/
  | float (fixed : String)
  /-- Bytes, by what `decode("utf-8", errors="ignore")` makes of them. -/
  | bytes (decoded : String)
  | str (s : String)
  /-- Anything else, by its `str`. -/
  | other (text : String)
  deriving DecidableEq, Repr

def zeroWidth : List Char := ['\u200c', '\u200d', '\ufeff']

def faToEnDigits : List (Char × Char) := easternDigits

def idempotencyNamespace : String := "7b6cd5b6-3ab7-4d1f-8bc4-3e244c1b9b79"

def stripZeroWidth (value : String) : String := remove zeroWidth value

def normalizeString (P : Platform) (value : String) : String :=
  let normalized := translate faToEnDigits (P.nfkc value)
  let normalized := translate [('\u064a', 'ی'), ('\u0643', 'ک')] normalized
  strip (stripZeroWidth normalized)

/-- `text.rstrip("0").rstrip(".")`. -/
def trimFixed (text : String) : String :=
  String.ofList (((text.toList.reverse.dropWhile (· == '0')).dropWhile (· == '.')).reverse)

def normalizeIdentifier (P : Platform) : Raw → String
  | .none => ""
  | .bool b => normalizeString P (if b then "True" else "False")
  | .int n => normalizeString P (toString n)
  | .float fixed => normalizeString P (trimFixed fixed)
  | .bytes decoded => normalizeString P decoded
  | .str s => normalizeString P s
  | .other text => normalizeString P text

/-- `json.dumps(payload, ensure_ascii=False, sort_keys=True, separators=(",", ":"))`. -/
def normalizePayload (payload : Json) : String :=
  Json.dumps { Json.Style.compact with sortKeys := true } payload

def joinParts (parts : List String) : String := "|".intercalate parts

/-- The text whose digest is the idempotency key. A request id that is empty once
normalised counts as absent. -/
def idempotencyMaterial (P : Platform) (studentId mentorId : Raw) (requestId : Raw)
    (payload : Json) : String :=
  let normalizedStudent := normalizeIdentifier P studentId
  let normalizedMentor := normalizeIdentifier P mentorId
  let normalizedRequest := normalizeIdentifier P requestId
  if normalizedRequest.isEmpty then
    joinParts [normalizedStudent, normalizedMentor, normalizePayload payload]
  else joinParts [normalizedStudent, normalizedMentor, normalizedRequest]

def deriveIdempotencyKey (P : Platform) (studentId mentorId : Raw) (requestId : Raw)
    (payload : Json) : String :=
  P.sha256 (idempotencyMaterial P studentId mentorId requestId payload)

def deriveEventId (P : Platform) (idempotencyKey : String) : String :=
  P.uuid5 idempotencyNamespace idempotencyKey

end Allocation

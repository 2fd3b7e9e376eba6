import MentorAllocation.Text.Python

namespace Export
open Text

def zeroWidthChars : List Char := ['\u200b', '\u200c', '\u200d', '\ufeff']

/-- `[\x00-\x08\x0b\x0c\x0e-\x1f\x7f]`. -/
def controlPattern (c : Char) : Bool :=
  let n := c.toNat
  n ≤ 0x08 || n == 0x0b || n == 0x0c || (0x0e ≤ n && n ≤ 0x1f) || n == 0x7f

def digitMap : List (Char × Char) := easternDigits

def foldDigits (value : String) : String := translate digitMap value

def stripZeroWidth (value : String) : String := remove zeroWidthChars value

/-- `normalize_text` on a text; `nfkc` is `unicodedata.normalize("NFKC", ·)`. -/
def normalizeText (nfkc : String → String) (text : String) : String :=
  if text.isEmpty then ""
  else
    let text := nfkc text
    let text := translate [('\u064a', 'ی'), ('\u0643', 'ک')] text
    let text := stripZeroWidth text
    let text := String.ofList (text.toList.filter (fun c => !controlPattern c))
    let text := foldDigits text
    let text := translate [('\r', ' '), ('\n', ' '), ('\t', ' ')] text
    strip text

end Export

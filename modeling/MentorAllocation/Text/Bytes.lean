import Mathlib.Data.List.DropRight
import Mathlib.Data.String.Basic

namespace Text

def encode (s : String) : List UInt8 := s.toList.flatMap String.utf8EncodeChar

/-- `data.decode("utf-8")`; `none` is its `UnicodeDecodeError`. -/
def decode (bytes : List UInt8) : Option String := String.fromUTF8? bytes.toByteArray

theorem encode_toByteArray (s : String) : (encode s).toByteArray = s.toByteArray := by
  rw [← String.utf8Encode_toList]
  rfl

theorem decode_encode (s : String) : decode (encode s) = some s := by
  rw [decode, encode_toByteArray, String.fromUTF8?, dif_pos s.isValidUTF8]
  rfl

theorem encode_injective : Function.Injective encode := by
  intro s t h
  have := congrArg decode h
  rwa [decode_encode, decode_encode, Option.some.injEq] at this

/-- The bytes that the decoder gives up together where they are not a character: as many
as still could have begun one. -/
def brokenPart : List UInt8 → Nat
  | a :: b :: rest =>
    let continues (x : UInt8) : Bool := 0x80 ≤ x && x ≤ 0xbf
    let three := a == 0xe0 && 0xa0 ≤ b && b ≤ 0xbf || a == 0xed && 0x80 ≤ b && b ≤ 0x9f ||
      0xe1 ≤ a && a ≤ 0xef && a != 0xed && continues b
    let four := a == 0xf0 && 0x90 ≤ b && b ≤ 0xbf || a == 0xf4 && 0x80 ≤ b && b ≤ 0x8f ||
      0xf1 ≤ a && a ≤ 0xf3 && continues b
    if three then 2
    else if four then (if (rest.head?.map continues).getD false then 3 else 2)
    else 1
  | _ => 1

/-- `data.decode("utf-8", "replace")` of at most `fuel` characters. -/
def decodeReplacing : Nat → List UInt8 → List Char
  | 0, _ => []
  | _, [] => []
  | fuel + 1, bytes => match bytes.toByteArray.utf8DecodeChar? 0 with
    | some c => c :: decodeReplacing fuel (bytes.drop c.utf8Size)
    | none => '\ufffd' :: decodeReplacing fuel (bytes.drop (brokenPart bytes))

theorem decodeReplacing_char (c : Char) (fuel : Nat) (bytes : List UInt8) :
    decodeReplacing (fuel + 1) (String.utf8EncodeChar c ++ bytes) =
      c :: decodeReplacing fuel bytes := by
  have hdecode : (String.utf8EncodeChar c ++ bytes).toByteArray.utf8DecodeChar? 0 = some c := by
    rw [List.toByteArray_append]
    exact ByteArray.utf8DecodeChar?_utf8EncodeChar_append
  cases hb : String.utf8EncodeChar c ++ bytes with
  | nil => simp at hb
  | cons b rest =>
    rw [hb] at hdecode
    simp only [decodeReplacing, hdecode]
    rw [← hb, ← String.length_utf8EncodeChar, List.drop_left]

/-- Decoding what was encoded replaces nothing. -/
theorem decodeReplacing_encode {cs : List Char} {fuel : Nat} (h : cs.length ≤ fuel) :
    decodeReplacing fuel (cs.flatMap String.utf8EncodeChar) = cs := by
  induction cs generalizing fuel with
  | nil => cases fuel <;> rfl
  | cons c cs ih =>
    cases fuel with
    | zero => simp at h
    | succ fuel =>
      rw [List.flatMap_cons, decodeReplacing_char, ih (by simpa using h)]

/-- The digits of the URL-safe base64 alphabet. -/
def base64Char (n : Nat) : Char :=
  if n < 26 then Char.ofNat (n + 65)
  else if n < 52 then Char.ofNat (n + 71)
  else if n < 62 then Char.ofNat (n - 4)
  else if n = 62 then '-' else '_'

def urlsafeB64encode : List UInt8 → List Char
  | [] => []
  | [a] => [base64Char (a.toNat / 4), base64Char (a.toNat % 4 * 16), '=', '=']
  | [a, b] => [base64Char (a.toNat / 4), base64Char (a.toNat % 4 * 16 + b.toNat / 16),
      base64Char (b.toNat % 16 * 4), '=']
  | a :: b :: c :: rest =>
    base64Char (a.toNat / 4) :: base64Char (a.toNat % 4 * 16 + b.toNat / 16) ::
      base64Char (b.toNat % 16 * 4 + c.toNat / 64) :: base64Char (c.toNat % 64) ::
        urlsafeB64encode rest

/-- The value of a base64 digit, of the standard alphabet or the URL-safe one. -/
def base64Value? (c : Char) : Option Nat :=
  if 'A' ≤ c ∧ c ≤ 'Z' then some (c.toNat - 65)
  else if 'a' ≤ c ∧ c ≤ 'z' then some (c.toNat - 71)
  else if '0' ≤ c ∧ c ≤ '9' then some (c.toNat + 4)
  else if c = '+' ∨ c = '-' then some 62
  else if c = '/' ∨ c = '_' then some 63
  else none

/-- `binascii.a2b_base64`, which skips what is no digit: `quad` digits of the current
group were read, `left` is what the last of them leaves, `pads` counts the pads since. -/
def a2bBase64 (quad left pads : Nat) : List Char → Option (List UInt8)
  | [] => if quad = 0 then some [] else none
  | c :: rest =>
    if c = '=' then
      if 2 ≤ quad then
        if 4 ≤ quad + (pads + 1) then some [] else a2bBase64 quad left (pads + 1) rest
      else a2bBase64 quad left pads rest
    else match base64Value? c with
      | none => a2bBase64 quad left pads rest
      | some v =>
        if quad = 0 then a2bBase64 1 v 0 rest
        else if quad = 1 then
          (a2bBase64 2 (v % 16) 0 rest).map (UInt8.ofNat (left * 4 + v / 16) :: ·)
        else if quad = 2 then
          (a2bBase64 3 (v % 4) 0 rest).map (UInt8.ofNat (left * 16 + v / 4) :: ·)
        else (a2bBase64 0 0 0 rest).map (UInt8.ofNat (left * 64 + v) :: ·)

/-- `base64.urlsafe_b64decode` of a text; `none` is its `ValueError`. -/
def urlsafeB64decode (cs : List Char) : Option (List UInt8) :=
  if cs.all (fun c => c.toNat < 128) then a2bBase64 0 0 0 cs else none

/-- The pads at the end cut off, as `rstrip("=")` does. -/
def rstripPads (cs : List Char) : List Char := cs.rdropWhile (· == '=')

/-- As many pads as a text without them lacks. -/
def missingPads (n : Nat) : List Char := List.replicate ((4 - n % 4) % 4) '='

theorem base64Value?_char : ∀ n < 64, base64Value? (base64Char n) = some n := by decide

theorem base64Char_ne_pad : ∀ n < 64, base64Char n ≠ '=' := by decide

theorem base64Char_ascii : ∀ n < 64, (base64Char n).toNat < 128 := by decide

/-- An encoded text is digits and then the pads they lack. -/
theorem urlsafeB64encode_split (bytes : List UInt8) : ∃ digits,
    urlsafeB64encode bytes = digits ++ missingPads digits.length ∧
      (∀ c ∈ digits, c ≠ '=' ∧ c.toNat < 128) ∧ (digits = [] ↔ bytes = []) := by
  have hdigit : ∀ n < 64, base64Char n ≠ '=' ∧ (base64Char n).toNat < 128 :=
    fun n hn => ⟨base64Char_ne_pad n hn, base64Char_ascii n hn⟩
  fun_induction urlsafeB64encode bytes with
  | case1 => exact ⟨[], rfl, by simp, by simp⟩
  | case2 a =>
    have ha := a.toNat_lt
    refine ⟨[base64Char (a.toNat / 4), base64Char (a.toNat % 4 * 16)], rfl, ?_, by simp⟩
    simp only [List.forall_mem_cons]
    exact ⟨hdigit _ (by omega), hdigit _ (by omega), by simp⟩
  | case3 a b =>
    have ha := a.toNat_lt
    have hb := b.toNat_lt
    refine ⟨[base64Char (a.toNat / 4), base64Char (a.toNat % 4 * 16 + b.toNat / 16),
      base64Char (b.toNat % 16 * 4)], rfl, ?_, by simp⟩
    simp only [List.forall_mem_cons]
    exact ⟨hdigit _ (by omega), hdigit _ (by omega), hdigit _ (by omega), by simp⟩
  | case4 a b c rest ih =>
    have ha := a.toNat_lt
    have hb := b.toNat_lt
    have hc := c.toNat_lt
    obtain ⟨digits, hsplit, hdigits, -⟩ := ih
    refine ⟨base64Char (a.toNat / 4) :: base64Char (a.toNat % 4 * 16 + b.toNat / 16) ::
      base64Char (b.toNat % 16 * 4 + c.toNat / 64) :: base64Char (c.toNat % 64) :: digits,
      ?_, ?_, by simp⟩
    · simp [hsplit, missingPads, Nat.add_assoc]
    · simp only [List.forall_mem_cons]
      exact ⟨hdigit _ (by omega), hdigit _ (by omega), hdigit _ (by omega), hdigit _ (by omega),
        hdigits⟩

theorem rstripPads_pads {digits : List Char} (h : ∀ c ∈ digits, c ≠ '=') (n : Nat) :
    rstripPads (digits ++ List.replicate n '=') = digits := by
  induction n with
  | zero =>
    rw [List.replicate_zero, List.append_nil, rstripPads, List.rdropWhile_eq_self_iff]
    intro hne
    simpa using h _ (List.getLast_mem hne)
  | succ n ih =>
    rw [List.replicate_succ', ← List.append_assoc, rstripPads, List.rdropWhile_concat_pos _ _ _
      (by simp)]
    exact ih

theorem a2bBase64_digit {n : Nat} (hn : n < 64) (quad left pads : Nat) (rest : List Char) :
    a2bBase64 quad left pads (base64Char n :: rest) =
      if quad = 0 then a2bBase64 1 n 0 rest
      else if quad = 1 then
        (a2bBase64 2 (n % 16) 0 rest).map (UInt8.ofNat (left * 4 + n / 16) :: ·)
      else if quad = 2 then
        (a2bBase64 3 (n % 4) 0 rest).map (UInt8.ofNat (left * 16 + n / 4) :: ·)
      else (a2bBase64 0 0 0 rest).map (UInt8.ofNat (left * 64 + n) :: ·) := by
  simp only [a2bBase64, base64Char_ne_pad n hn, if_false, base64Value?_char n hn]

theorem ofNat_eq {n : Nat} {a : UInt8} (h : n = a.toNat) : UInt8.ofNat n = a := by
  rw [h, UInt8.ofNat_toNat]

/-- Decoding what was encoded gives it back. -/
theorem a2bBase64_encode (bytes : List UInt8) :
    a2bBase64 0 0 0 (urlsafeB64encode bytes) = some bytes := by
  fun_induction urlsafeB64encode bytes with
  | case1 => rfl
  | case2 a =>
    have ha := a.toNat_lt
    have h₁ : UInt8.ofNat (a.toNat / 4 * 4 + a.toNat % 4 * 16 / 16) = a := ofNat_eq (by omega)
    rw [a2bBase64_digit (by omega), if_pos rfl, a2bBase64_digit (by omega), if_neg (by omega),
      if_pos rfl, h₁]
    rfl
  | case3 a b =>
    have ha := a.toNat_lt
    have hb := b.toNat_lt
    have h₁ : UInt8.ofNat (a.toNat / 4 * 4 + (a.toNat % 4 * 16 + b.toNat / 16) / 16) = a :=
      ofNat_eq (by omega)
    have h₂ : UInt8.ofNat ((a.toNat % 4 * 16 + b.toNat / 16) % 16 * 16 +
        b.toNat % 16 * 4 / 4) = b := ofNat_eq (by omega)
    rw [a2bBase64_digit (by omega), if_pos rfl, a2bBase64_digit (by omega), if_neg (by omega),
      if_pos rfl, a2bBase64_digit (by omega), if_neg (by omega), if_neg (by omega), if_pos rfl,
      h₁, h₂]
    rfl
  | case4 a b c rest ih =>
    have ha := a.toNat_lt
    have hb := b.toNat_lt
    have hc := c.toNat_lt
    have h₁ : UInt8.ofNat (a.toNat / 4 * 4 + (a.toNat % 4 * 16 + b.toNat / 16) / 16) = a :=
      ofNat_eq (by omega)
    have h₂ : UInt8.ofNat ((a.toNat % 4 * 16 + b.toNat / 16) % 16 * 16 +
        (b.toNat % 16 * 4 + c.toNat / 64) / 4) = b := ofNat_eq (by omega)
    have h₃ : UInt8.ofNat ((b.toNat % 16 * 4 + c.toNat / 64) % 4 * 64 + c.toNat % 64) = c :=
      ofNat_eq (by omega)
    rw [a2bBase64_digit (by omega), if_pos rfl, a2bBase64_digit (by omega), if_neg (by omega),
      if_pos rfl, a2bBase64_digit (by omega), if_neg (by omega), if_neg (by omega), if_pos rfl,
      a2bBase64_digit (by omega), if_neg (by omega), if_neg (by omega), if_neg (by omega), ih,
      h₁, h₂, h₃]
    rfl

/-- A text encoded, its pads cut off and put back, decodes to its bytes. -/
theorem urlsafeB64decode_rstrip (bytes : List UInt8) :
    urlsafeB64decode (rstripPads (urlsafeB64encode bytes) ++
      missingPads (rstripPads (urlsafeB64encode bytes)).length) = some bytes := by
  obtain ⟨digits, hsplit, hdigits, -⟩ := urlsafeB64encode_split bytes
  have hstrip : rstripPads (urlsafeB64encode bytes) = digits := by
    rw [hsplit]
    exact rstripPads_pads (fun c hc => (hdigits c hc).1) _
  rw [hstrip, ← hsplit, urlsafeB64decode, if_pos, a2bBase64_encode]
  rw [hsplit, List.all_append, Bool.and_eq_true]
  refine ⟨List.all_eq_true.mpr fun c hc => by simpa using (hdigits c hc).2, ?_⟩
  exact List.all_eq_true.mpr fun c hc => by rw [List.eq_of_mem_replicate hc]; rfl

/-- What is left of an encoded text without its pads. -/
theorem rstripPads_encode (bytes : List UInt8) :
    (∀ c ∈ rstripPads (urlsafeB64encode bytes), c.toNat < 128) ∧
      (rstripPads (urlsafeB64encode bytes) = [] ↔ bytes = []) := by
  obtain ⟨digits, hsplit, hdigits, hnil⟩ := urlsafeB64encode_split bytes
  rw [hsplit, missingPads, rstripPads_pads fun c hc => (hdigits c hc).1]
  exact ⟨fun c hc => (hdigits c hc).2, hnil⟩

end Text

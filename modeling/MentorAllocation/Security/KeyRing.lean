import MentorAllocation.Data.Dict
import MentorAllocation.Text.Python

namespace Security
open Data Text

inductive ErrorKind where
  | verification
  | keyRotation
  deriving DecidableEq, Repr

structure SigningError where
  kind : ErrorKind
  messageFa : String
  reason : String
  deriving DecidableEq, Repr

def keyRotationError (messageFa reason : String) : SigningError := ⟨.keyRotation, messageFa, reason⟩

/-- A key's state is a text of the configuration. All that is read of it is whether it is
one of the two known ones. -/
inductive KeyState where
  | active
  | retired
  | unknown
  deriving DecidableEq, Repr

structure SigningKey where
  kid : String
  secret : String
  state : KeyState
  deriving DecidableEq, Repr

def SigningKey.isActive (key : SigningKey) : Bool := key.state == .active

/-- `unicodedata.normalize("NFKC", value).strip()`. -/
def cleanText (nfkc : String → String) (value : String) : String := strip (nfkc value)

def normalizeKid (nfkc : String → String) (value : String) : Except SigningError String :=
  let text := cleanText nfkc value
  if text = "" then .error (keyRotationError "«شناسه کلید معتبر نیست.»" "kid-empty") else .ok text

def normalizeSecret (nfkc : String → String) (value : String) : Except SigningError String :=
  let text := cleanText nfkc value
  if text.length < 32 then
    .error (keyRotationError "«راز کلید بسیار کوتاه است.»" "secret-short")
  else .ok text

def cleaned (nfkc : String → String) (key : SigningKey) : Except SigningError SigningKey := do
  let kid ← normalizeKid nfkc key.kid
  let state := if key.state = .unknown then .retired else key.state
  let secret ← normalizeSecret nfkc key.secret
  pure ⟨kid, secret, state⟩

structure KeyRing where
  keys : Dict String SigningKey
  kids : ∀ kid key, keys.get? kid = some key → key.kid = kid

namespace KeyRing

theorem kids_ofList (keys : List SigningKey) (kid : String) (key : SigningKey)
    (h : (Dict.ofList (keys.map fun k => (k.kid, k))).get? kid = some key) : key.kid = kid := by
  rw [Dict.get?_ofList, ← List.map_reverse] at h
  obtain ⟨_, _, he, _⟩ := List.lookup_eq_some_iff.mp h
  have hmem : (kid, key) ∈ keys.reverse.map fun k => (k.kid, k) := by simp [he]
  obtain ⟨k, _, hk⟩ := List.mem_map.mp hmem
  obtain ⟨hkid, rfl⟩ := Prod.mk.inj hk
  exact hkid

/-- `KeyRing(keys)`. The active keys are counted as they come, the stored ones are those
that no later key of the same id replaces. -/
def new (nfkc : String → String) (keys : List SigningKey) : Except SigningError KeyRing :=
  if keys = [] then .error (keyRotationError "«هیچ کلید امضای فعالی یافت نشد.»" "empty")
  else do
    let normalized ← keys.mapM (cleaned nfkc)
    if normalized.countP SigningKey.isActive ≠ 1 then
      .error (keyRotationError
        "«پیکربندی کلیدها نامعتبر است؛ دقیقاً یک کلید باید فعال باشد.»" "active-count")
    else pure ⟨Dict.ofList (normalized.map fun k => (k.kid, k)), kids_ofList normalized⟩

def active (ring : KeyRing) : Except SigningError SigningKey :=
  match ring.keys.values.find? SigningKey.isActive with
  | some key => .ok key
  | none => .error (keyRotationError "«کلید فعال یافت نشد.»" "active-missing")

def retire (key : SigningKey) : SigningKey :=
  { key with state := if key.state = .active then .retired else key.state }

def rotate (nfkc : String → String) (ring : KeyRing) (kid secret : String) :
    Except SigningError KeyRing := do
  let kid ← normalizeKid nfkc kid
  let secret ← normalizeSecret nfkc secret
  if (ring.keys.get? kid).any SigningKey.isActive then
    .error (keyRotationError "«کلید جدید نمی‌تواند با کلید فعال فعلی هم‌نام باشد.»"
      "duplicate-active")
  else
    let updated := Dict.ofList (ring.keys.values.map fun key => (key.kid, retire key))
    new nfkc (updated.set kid ⟨kid, secret, .active⟩).values

/-- One rotation after the other, each of a key id and a secret. -/
def rotateAll (nfkc : String → String) (ring : KeyRing) (rotations : List (String × String)) :
    Except SigningError KeyRing :=
  rotations.foldlM (fun ring r => ring.rotate nfkc r.1 r.2) ring

def verificationKeys (ring : KeyRing) : List SigningKey :=
  ring.keys.values.mergeSort fun a b =>
    if a.isActive = b.isActive then decide (a.kid ≤ b.kid) else a.isActive

end KeyRing

end Security

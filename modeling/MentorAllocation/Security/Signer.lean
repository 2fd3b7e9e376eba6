import MentorAllocation.Security.KeyRing
import MentorAllocation.Text.Numbers
import MentorAllocation.Text.Urlencoded

namespace Security
open Data Text

/-- What is used of the standard library without being spelled out here: NFKC,
`str.upper`, HMAC-SHA256 of a key and a message, and the network locations that
`urlsplit` refuses. -/
structure Library where
  nfkc : String → String
  upper : String → String
  hmac : List UInt8 → List UInt8 → List UInt8
  refuses : List Char → Bool

inductive Failure where
  | signing (e : SigningError)
  | valueError
  | typeError
  deriving DecidableEq, Repr

def verificationError (messageFa reason : String) : SigningError :=
  ⟨.verification, messageFa, reason⟩

def invalidToken (reason : String) : SigningError :=
  verificationError "«توکن نامعتبر است.»" reason

structure SignatureEnvelope where
  path : String
  signed : String
  kid : String
  exp : Int
  sig : String
  deriving DecidableEq, Repr

/-- `as_query`; the expiry was written out before, so its text is within the limit. -/
def SignatureEnvelope.asQuery (envelope : SignatureEnvelope) : List (String × String) :=
  [("signed", envelope.signed), ("kid", envelope.kid), ("exp", intText envelope.exp),
    ("sig", envelope.sig)]

structure KeyRingSigner where
  keyring : KeyRing
  ttl : Int
  basePath : String

def KeyRingSigner.new (keyring : KeyRing) (defaultTtlSeconds : Int) (basePath : String) :
    KeyRingSigner where
  keyring := keyring
  ttl := max 60 defaultTtlSeconds
  basePath :=
    let stripped := String.ofList (basePath.toList.rdropWhile (· == '/'))
    if stripped = "" then "/download" else stripped

/-- `text.replace("//", "/")`. -/
def replaceDouble : List Char → List Char
  | [] => []
  | [c] => [c]
  | c :: d :: rest =>
    if c = '/' ∧ d = '/' then '/' :: replaceDouble rest else c :: replaceDouble (d :: rest)

/-- `"//" in text`. -/
def hasDouble : List Char → Bool
  | [] => false
  | [_] => false
  | c :: d :: rest => (c == '/' && d == '/') || hasDouble (d :: rest)

/-- The loop that replaces double slashes while there are any. -/
def collapse : Nat → List Char → List Char
  | 0, cs => cs
  | n + 1, cs => if hasDouble cs then collapse n (replaceDouble cs) else cs

def normalizePath (path : String) : Except SigningError String :=
  let normalized := path.toList.map fun c => if c = '\\' then '/' else c
  let normalized := String.ofList (collapse normalized.length normalized)
  if "../".toList.isPrefixOf normalized.toList || contains normalized "/../" then
    .error (invalidToken "path-traversal")
  else .ok normalized

/-- The query as it is signed: its items in the order of their keys. -/
def queryText (query : Dict String String) : List Char :=
  ['&'].intercalate ((query.entries.mergeSort fun a b => decide (a.1 ≤ b.1)).map fun p =>
    p.1.toList ++ '=' :: p.2.toList)

def canonical (L : Library) (method path : String) (query : Dict String String) (exp : Int) :
    Except Failure (List UInt8) :=
  match intStr exp with
  | none => .error .valueError
  | some expText => .ok (encode (String.ofList ((L.upper method).toList ++ '\n' ::
      (path.toList ++ '\n' :: (queryText query ++ '\n' :: expText.toList)))))

def unpadded (bytes : List UInt8) : String := String.ofList (rstripPads (urlsafeB64encode bytes))

def encodePath (path : String) : String := unpadded (encode path)

def decodePath (encoded : String) : Except SigningError String :=
  match (urlsafeB64decode (encoded.toList ++ missingPads encoded.toList.length)).bind decode with
  | none => .error (invalidToken "decode")
  | some decoded => normalizePath decoded

def sign (L : Library) (secret : String) (message : List UInt8) : String :=
  unpadded (L.hmac (encode secret) message)

/-- `_expiry`, at a time given in whole seconds. -/
def expiry (now ttlSeconds : Int) : Int := now + max 1 ttlSeconds

namespace KeyRingSigner

def issue (L : Library) (signer : KeyRingSigner) (now : Int) (path method : String)
    (query : Dict String String) (ttlSeconds : Option Int) : Except Failure SignatureEnvelope := do
  let normalizedPath ← (normalizePath path).mapError .signing
  let expiresAt := expiry now ((ttlSeconds.filter (· != 0)).getD signer.ttl)
  let canonical ← canonical L method normalizedPath query expiresAt
  let active ← signer.keyring.active.mapError .signing
  let signature := sign L active.secret canonical
  pure ⟨normalizedPath, encodePath normalizedPath, active.kid, expiresAt, signature⟩

/-- The query of a signed URL: its own items, and over them those of the envelope. -/
def queryParams (query : Dict String String) (envelope : SignatureEnvelope) : Dict String String :=
  envelope.asQuery.foldl (fun d e => d.set e.1 e.2) query

def signedUrl (L : Library) (signer : KeyRingSigner) (now : Int) (path method : String)
    (query : Dict String String) (ttlSeconds : Option Int) : Except Failure String := do
  let envelope ← signer.issue L now path method query ttlSeconds
  pure (String.ofList (signer.basePath.toList ++
    '?' :: urlencode (queryParams query envelope).entries))

/-- `_verify`. The signature is compared with one for a `GET` without a query, whatever
was signed; `compare_digest` takes ASCII texts only. -/
def verify (L : Library) (signer : KeyRingSigner) (now : Int) (envelope : SignatureEnvelope) :
    Except Failure String := do
  let path ← (decodePath envelope.signed).mapError .signing
  if envelope.exp ≤ now then
    .error (.signing (verificationError "«لینک دانلود منقضی شده است.»" "expired"))
  else match signer.keyring.verificationKeys.find? (·.kid == envelope.kid) with
    | none => .error (.signing (verificationError "«کلید امضا ناشناخته است.»" "unknown-kid"))
    | some key =>
      let canonical ← canonical L "GET" path Dict.empty envelope.exp
      let expected := sign L key.secret canonical
      if envelope.sig.toList.all (fun c => c.toNat < 128) = false then .error .typeError
      else if expected = envelope.sig then pure path
      else .error (.signing (invalidToken "signature"))

def verifyUrl (L : Library) (signer : KeyRingSigner) (now : Int) (url : String) :
    Except Failure String :=
  match urlQuery L.refuses url.toList with
  | none => .error .valueError
  | some query =>
    let signed := firstValue query "signed"
    let kid := firstValue query "kid"
    let expText := firstValue query "exp"
    let sig := firstValue query "sig"
    if signed = "" ∨ kid = "" ∨ expText = "" ∨ sig = "" then
      .error (.signing (invalidToken "malformed"))
    else match parseInt expText with
      | none => .error (.signing (invalidToken "exp-format"))
      | some exp => signer.verify L now ⟨"", signed, kid, exp, sig⟩

def rotate (L : Library) (signer : KeyRingSigner) (kid secret : String) :
    Except SigningError KeyRingSigner := do
  let keyring ← signer.keyring.rotate L.nfkc kid secret
  pure { signer with keyring }

end KeyRingSigner

end Security

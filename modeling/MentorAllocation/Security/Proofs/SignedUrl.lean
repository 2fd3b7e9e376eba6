import MentorAllocation.Security.Proofs.Signer

namespace Security
open Data Text Concurrency

variable {L : Library} {signer : KeyRingSigner} {now : Int} {path method : String}
  {query : Dict String String} {ttl : Option Int} {envelope : SignatureEnvelope}

structure Issuance (L : Library) (ring : KeyRing) (path method : String)
    (query : Dict String String) (envelope : SignatureEnvelope) : Prop where
  normalized : normalizePath path = .ok envelope.path
  signed : envelope.signed = encodePath envelope.path
  tagged : ∃ key message, ring.active = .ok key ∧ envelope.kid = key.kid ∧
    canonical L method envelope.path query envelope.exp = .ok message ∧
      envelope.sig = sign L key.secret message

theorem issue_ok (h : signer.issue L now path method query ttl = .ok envelope) :
    Issuance L signer.keyring path method query envelope := by
  simp only [KeyRingSigner.issue, bind_eq_ok, mapError_eq_ok, pure_eq_ok] at h
  obtain ⟨normalized, hpath, message, hmessage, key, hkey, rfl⟩ := h
  exact ⟨hpath, rfl, key, message, hkey, rfl, hmessage, rfl⟩

theorem canonical_ok {exp : Int} {message : List UInt8}
    (h : canonical L method path query exp = .ok message) : ∃ expText,
      intStr exp = some expText ∧ message = encode (String.ofList ((L.upper method).toList ++
        '\n' :: (path.toList ++ '\n' :: (queryText query ++ '\n' :: expText.toList)))) := by
  simp only [canonical] at h
  split at h
  · cases h
  · next expText he => exact ⟨expText, he, (Except.ok.inj h).symm⟩

theorem canonical_of_intStr {exp : Int} {expText : String} (h : intStr exp = some expText) :
    canonical L method path query exp = .ok (encode (String.ofList ((L.upper method).toList ++
      '\n' :: (path.toList ++ '\n' :: (queryText query ++ '\n' :: expText.toList))))) := by
  simp only [canonical, h]

/-- What the verifier takes every link for: a `GET` without a query. -/
def IsPlain (L : Library) (method : String) (query : Dict String String) : Prop :=
  L.upper method = "GET" ∧ query.entries = []

theorem queryText_eq_nil : queryText query = [] ↔ query.entries = [] := by
  constructor
  · intro h
    by_contra hne
    have hperm := List.mergeSort_perm query.entries fun a b => decide (a.1 ≤ b.1)
    cases hsort : query.entries.mergeSort fun a b => decide (a.1 ≤ b.1) with
    | nil =>
      rw [hsort] at hperm
      exact hne hperm.symm.eq_nil
    | cons p rest =>
      rw [queryText, hsort, List.map_cons] at h
      cases rest with
      | nil => simp at h
      | cons q rest => simp at h
  · intro h
    simp [queryText, h]

/-- Two texts that end in a part without the separator agree in what stands before it. -/
theorem cut_last {a b x y : List Char} (h : a ++ '\n' :: x = b ++ '\n' :: y) (hx : '\n' ∉ x)
    (hy : '\n' ∉ y) : a = b ∧ x = y := by
  have htail : ∀ u v : List Char, '\n' ∉ v →
      ((u ++ '\n' :: v).reverse.takeWhile (· != '\n')) = v.reverse := by
    intro u v hv
    have hall : ∀ c ∈ v.reverse, (c != '\n') = true := fun c hc =>
      bne_iff_ne.mpr fun he => hv (he ▸ List.mem_reverse.mp hc)
    rw [List.reverse_append, List.reverse_cons, List.append_assoc,
      List.takeWhile_append_of_pos hall]
    simp
  have hxy : x = y := List.reverse_injective (by rw [← htail a x hx, ← htail b y hy, h])
  subst hxy
  exact ⟨List.append_cancel_right h, rfl⟩

/-- The line break sets the method off, so a text that reads as a `GET` without a query
is one. -/
theorem plain_of_append {u p q : List Char}
    (h : u ++ '\n' :: (p ++ '\n' :: q) = "GET".toList ++ '\n' :: (p ++ ['\n'])) :
    u = "GET".toList ∧ q = [] := by
  have hlen := congrArg List.length h
  simp only [List.length_append, List.length_cons, List.length_nil,
    show "GET".toList.length = 3 from rfl] at hlen
  have hget : "GET".toList = ['G', 'E', 'T'] := rfl
  have hu : u.length = 3 := by
    rw [hget] at h
    rcases u with _ | ⟨a, _ | ⟨b, _ | ⟨c, u⟩⟩⟩
    · simp at h
    · simp at h
    · simp at h
    · simp only [List.length_cons] at hlen ⊢
      omega
  obtain ⟨rfl, -⟩ := List.append_inj h (by rw [hu]; rfl)
  exact ⟨rfl, List.eq_nil_of_length_eq_zero (by omega)⟩

/-- The text that is signed agrees with the one that is checked for plain calls only. -/
theorem canonical_eq_iff (hL : L.Lawful) {exp : Int} {message checked : List UInt8}
    (hm : canonical L method path query exp = .ok message)
    (hc : canonical L "GET" path Dict.empty exp = .ok checked) :
    message = checked ↔ IsPlain L method query := by
  obtain ⟨expText, he, rfl⟩ := canonical_ok hm
  rw [canonical_of_intStr he, hL.upper_get, queryText_eq_nil.mpr rfl] at hc
  obtain rfl := Except.ok.inj hc
  constructor
  · intro h
    have hlist : (L.upper method).toList ++ '\n' :: (path.toList ++ '\n' :: (queryText query ++
        '\n' :: expText.toList)) =
        "GET".toList ++ '\n' :: (path.toList ++ '\n' :: ([] ++ '\n' :: expText.toList)) := by
      simpa using congrArg String.toList (encode_injective h)
    have hcancel : (L.upper method).toList ++ '\n' :: (path.toList ++ '\n' :: queryText query) =
        "GET".toList ++ '\n' :: (path.toList ++ ['\n']) := by
      have hwhole : ((L.upper method).toList ++ '\n' :: (path.toList ++ '\n' :: queryText query)) ++
          '\n' :: expText.toList = ("GET".toList ++ '\n' :: (path.toList ++ ['\n'])) ++
            '\n' :: expText.toList := by simpa using hlist
      exact List.append_cancel_right hwhole
    obtain ⟨hmethod, hquery⟩ := plain_of_append hcancel
    exact ⟨String.toList_inj.mp hmethod, queryText_eq_nil.mp hquery⟩
  · rintro ⟨hmethod, hquery⟩
    rw [hmethod, queryText_eq_nil.mpr hquery]

/-- What a plain call signs names its path and its expiry. -/
theorem canonical_plain_inj {path' : String} {exp exp' : Int} {message : List UInt8}
    (h : canonical L "GET" path Dict.empty exp = .ok message)
    (h' : canonical L "GET" path' Dict.empty exp' = .ok message) : path = path' ∧ exp = exp' := by
  obtain ⟨expText, he, rfl⟩ := canonical_ok h
  obtain ⟨expText', he', hmessage⟩ := canonical_ok h'
  have hno : ∀ {n : Int} {text : String}, intStr n = some text → '\n' ∉ text.toList := by
    intro n text ht hmem
    rcases intStr_chars ht hmem with hc | hc
    · cases hc
    · exact absurd hc (by decide)
  have hlist : ((L.upper "GET").toList ++ '\n' :: (path.toList ++ '\n' :: [])) ++
      '\n' :: expText.toList =
      ((L.upper "GET").toList ++ '\n' :: (path'.toList ++ '\n' :: [])) ++
        '\n' :: expText'.toList := by
    have hnil : queryText Dict.empty = [] := queryText_eq_nil.mpr rfl
    have hsame := encode_injective hmessage
    rw [hnil, List.nil_append, String.ofList_inj] at hsame
    simpa using hsame
  obtain ⟨hhead, htext⟩ := cut_last hlist (hno he) (hno he')
  rw [String.toList_inj] at htext
  refine ⟨?_, intStr_injective he (htext ▸ he')⟩
  have hpath := List.append_cancel_left hhead
  simp only [List.cons.injEq, List.append_cancel_right_eq, true_and] at hpath
  exact String.toList_inj.mp hpath

/-- Checking an envelope that names a known key. -/
theorem verify_known {key : SigningKey} {checked : List UInt8}
    (hdecode : decodePath envelope.signed = .ok path) (hlive : now < envelope.exp)
    (hkey : signer.keyring.keys.get? envelope.kid = some key)
    (hchecked : canonical L "GET" path Dict.empty envelope.exp = .ok checked)
    (hascii : envelope.sig.toList.all (fun c => c.toNat < 128) = true) :
    signer.verify L now envelope = if sign L key.secret checked = envelope.sig then .ok path
      else .error (.signing (invalidToken "signature")) := by
  have hfind := find_verificationKeys signer.keyring envelope.kid
  rw [hkey] at hfind
  simp only [KeyRingSigner.verify, hdecode, Except.mapError, ok_bind, hfind, hchecked, hascii,
    if_neg (not_le.mpr hlive), Bool.true_eq_false, if_false]
  rfl

/-- An envelope that is accepted: its key is in the ring and its tag is the key's tag of the
text that is checked. -/
theorem verify_ok (h : signer.verify L now envelope = .ok path) :
    decodePath envelope.signed = .ok path ∧ ∃ key checked,
      signer.keyring.keys.get? envelope.kid = some key ∧
        canonical L "GET" path Dict.empty envelope.exp = .ok checked ∧
          sign L key.secret checked = envelope.sig := by
  simp only [KeyRingSigner.verify, bind_eq_ok, mapError_eq_ok, find_verificationKeys] at h
  obtain ⟨decoded, hdecode, h⟩ := h
  split at h
  · cases h
  cases hkey : signer.keyring.keys.get? envelope.kid with
  | none =>
    rw [hkey] at h
    cases h
  | some key =>
    rw [hkey] at h
    obtain ⟨checked, hchecked, h⟩ := bind_eq_ok.mp h
    split at h
    · cases h
    split at h
    · next htag =>
      obtain rfl := pure_eq_ok.mp h
      exact ⟨hdecode, key, checked, rfl, hchecked, htag⟩
    · cases h

/-- A value that is not blank is read back from the query. -/
theorem firstValue_urlencode {d : Dict String String} {name value : String}
    (h : d.get? name = some value) (hne : value ≠ "") :
    firstValue (urlencode d.entries) name = value := by
  have hn : ((d.entries.filter fun p => p.2 != "").map Prod.fst).Nodup :=
    d.nodup.sublist (List.filter_sublist.map Prod.fst)
  have hmem : (name, value) ∈ d.entries.filter fun p => p.2 != "" :=
    List.mem_filter.mpr ⟨Dict.mem_entries.mpr h, by simpa using hne⟩
  rw [firstValue, parseQsl_urlencode, (mem_iff_lookup hn name value).mp hmem, Option.getD_some]

theorem get?_queryParams (name : String) : (KeyRingSigner.queryParams query envelope).get? name =
    if name = "sig" then some envelope.sig
    else if name = "exp" then some (intText envelope.exp)
    else if name = "kid" then some envelope.kid
    else if name = "signed" then some envelope.signed
    else query.get? name := by
  simp only [KeyRingSigner.queryParams, SignatureEnvelope.asQuery, List.foldl_cons, List.foldl_nil,
    Dict.get?_set]

/-- A base path to which a query can be added: it has no query or fragment itself, and
`urlsplit` accepts it. -/
structure OpenBase (L : Library) (basePath : String) : Prop where
  no_query : NoQuery basePath.toList
  accepted : (urlQuery L.refuses basePath.toList).isSome

/-- The envelope is read back from the URL it was put into, but for its path. -/
theorem verifyUrl_envelope {base : String} (hbase : OpenBase L base) {expText : String}
    (hexp : intStr envelope.exp = some expText)
    (hsigned : envelope.signed ≠ "") (hkid : envelope.kid ≠ "") (hsig : envelope.sig ≠ "") :
    signer.verifyUrl L now (String.ofList (base.toList ++
      '?' :: urlencode (KeyRingSigner.queryParams query envelope).entries)) =
        signer.verify L now { envelope with path := "" } := by
  have htext : expText = intText envelope.exp := by
    simp only [intStr] at hexp
    split at hexp
    · exact (Option.some.inj hexp).symm
    · cases hexp
  have hparse := parseInt_intStr hexp
  rw [htext] at hparse
  have hne : intText envelope.exp ≠ "" := by
    intro he
    have hnone : parseInt "" = none := by decide
    rw [he, hnone] at hparse
    cases hparse
  have hget := @get?_queryParams query envelope
  have hvalue : ∀ name value, (KeyRingSigner.queryParams query envelope).get? name = some value →
      value ≠ "" → firstValue (urlencode (KeyRingSigner.queryParams query envelope).entries) name =
        value := fun name value => firstValue_urlencode
  have h₁ := hvalue "signed" _ (hget "signed") hsigned
  have h₂ := hvalue "kid" _ (hget "kid") hkid
  have h₃ := hvalue "exp" _ (hget "exp") hne
  have h₄ := hvalue "sig" _ (hget "sig") hsig
  simp only [KeyRingSigner.verifyUrl, String.toList_ofList,
    urlQuery_append hbase.no_query hbase.accepted fun c hc => urlencode_chars hc, h₁, h₂, h₃, h₄,
    hsigned, hkid, hne, hsig, or_self, if_false, hparse]

inductive Rotated (nfkc : String → String) (first : KeyRing) : KeyRing → Prop where
  | refl : Rotated nfkc first first
  | rotate {ring next : KeyRing} {kid secret : String} (before : Rotated nfkc first ring)
      (fresh : ring.keys.get? (cleanText nfkc kid) = none)
      (last : ring.rotate nfkc kid secret = .ok next) : Rotated nfkc first next

/-- Rotations to new ids keep the secret of every key. -/
theorem Rotated.get? (hn : NormalForm L.nfkc) {first ring : KeyRing}
    (h : Rotated L.nfkc first ring) (hsettled : Settled L.nfkc first) {kid : String}
    {key : SigningKey} (hget : first.keys.get? kid = some key) :
    Settled L.nfkc ring ∧ ∃ key', ring.keys.get? kid = some key' ∧ key'.secret = key.secret := by
  induction h with
  | refl => exact ⟨hsettled, key, hget, rfl⟩
  | rotate before fresh last ih =>
    obtain ⟨hs, key', hget', hsecret⟩ := ih
    refine ⟨settled_rotate hn hs last, KeyRing.retire key', ?_, hsecret⟩
    rw [rotate_ok hn hs last, if_neg, hget', Option.map_some]
    rintro rfl
    rw [fresh] at hget'
    cases hget'

theorem active_get? {ring : KeyRing} {key : SigningKey} (h : ring.active = .ok key) :
    ring.keys.get? key.kid = some key := by
  simp only [KeyRing.active] at h
  split at h
  · next found hfind =>
    obtain rfl := Except.ok.inj h
    obtain ⟨kid, hget⟩ := Dict.mem_values.mp (List.mem_of_find?_eq_some hfind)
    rw [ring.kids kid found hget, hget]
  · cases h

/-- What becomes of a signed link before it expires: its tag is compared with that of a
`GET` without a query for the same path and expiry. -/
theorem verifyUrl_signedUrl (hL : L.Lawful) (hsettled : Settled L.nfkc signer.keyring)
    (hbase : OpenBase L signer.basePath)
    (hissue : signer.issue L now path method query ttl = .ok envelope) (hpath : path ≠ "")
    {url : String} (hurl : signer.signedUrl L now path method query ttl = .ok url)
    {ring : KeyRing} (hrotated : Rotated L.nfkc signer.keyring ring) {later : Int}
    (hlive : later < envelope.exp) : ∃ key message checked,
      signer.keyring.active = .ok key ∧
      canonical L method envelope.path query envelope.exp = .ok message ∧
      canonical L "GET" envelope.path Dict.empty envelope.exp = .ok checked ∧
      ({ signer with keyring := ring } : KeyRingSigner).verifyUrl L later url =
        if sign L key.secret checked = sign L key.secret message then .ok envelope.path
        else .error (.signing (invalidToken "signature")) := by
  have hi := issue_ok hissue
  obtain ⟨key, message, hactive, hkid, hmessage, hsig⟩ := hi.tagged
  obtain ⟨hfixed, hnonempty⟩ := normalizePath_ok hi.normalized
  obtain ⟨expText, hexp, -⟩ := canonical_ok hmessage
  have hkey := active_get? hactive
  obtain ⟨-, key', hkey', hsecret⟩ := hrotated.get? hL.nfkc hsettled hkey
  obtain ⟨checked, hchecked⟩ : ∃ checked,
      canonical L "GET" envelope.path Dict.empty envelope.exp = .ok checked :=
    ⟨_, canonical_of_intStr hexp⟩
  refine ⟨key, message, checked, hactive, hmessage, hchecked, ?_⟩
  simp only [KeyRingSigner.signedUrl, bind_eq_ok, pure_eq_ok, hissue, Except.ok.injEq] at hurl
  obtain ⟨_, rfl, rfl⟩ := hurl
  have hpathBytes : encode envelope.path ≠ [] := fun he =>
    hnonempty hpath (encode_injective (he.trans (by rfl)))
  have htagBytes : L.hmac (encode key.secret) message ≠ [] := by
    intro he
    have := hL.hmac_length (encode key.secret) message
    rw [he] at this
    cases this
  have hascii : envelope.sig.toList.all (fun c => c.toNat < 128) = true :=
    hsig ▸ unpadded_ascii _
  have hdecode : decodePath envelope.signed = .ok envelope.path := by
    rw [hi.signed, decodePath_encodePath, hfixed]
  have hverify : ({ signer with keyring := ring } : KeyRingSigner).verify L later
      { envelope with path := "" } = if sign L key'.secret checked = envelope.sig then
        .ok envelope.path else .error (.signing (invalidToken "signature")) :=
    verify_known hdecode hlive (hkid ▸ hkey') hchecked hascii
  rw [← hsig, ← hsecret, ← hverify]
  refine verifyUrl_envelope hbase hexp ?_ ?_ ?_
  · exact hi.signed ▸ unpadded_ne_empty hpathBytes
  · exact hkid ▸ (hsettled _ _ hkey).kid_nonempty
  · exact hsig ▸ unpadded_ne_empty htagBytes

/-- HMAC keeps the text that was signed and the text that is checked apart: they have the
same tag only if they are the same. -/
def NoCollision (L : Library) (ring : KeyRing) (path method : String)
    (query : Dict String String) (exp : Int) : Prop :=
  ∀ key message checked, ring.active = .ok key → canonical L method path query exp = .ok message →
    canonical L "GET" path Dict.empty exp = .ok checked →
      L.hmac (encode key.secret) checked = L.hmac (encode key.secret) message → checked = message

/-- A signed link is good until it expires, whatever new keys the ring is given. -/
def RoundTrip (L : Library) (signer : KeyRingSigner) (url : String)
    (envelope : SignatureEnvelope) : Prop :=
  ∀ ring later, Rotated L.nfkc signer.keyring ring → later < envelope.exp →
    ({ signer with keyring := ring } : KeyRingSigner).verifyUrl L later url = .ok envelope.path

theorem roundTrip_iff (hL : L.Lawful) (hsettled : Settled L.nfkc signer.keyring)
    (hbase : OpenBase L signer.basePath)
    (hissue : signer.issue L now path method query ttl = .ok envelope) (hpath : path ≠ "")
    (hcollision : NoCollision L signer.keyring envelope.path method query envelope.exp)
    {url : String} (hurl : signer.signedUrl L now path method query ttl = .ok url) :
    RoundTrip L signer url envelope ↔ IsPlain L method query := by
  constructor
  · intro h
    have hone := h signer.keyring (envelope.exp - 1) .refl (by omega)
    obtain ⟨key, message, checked, hactive, hmessage, hchecked, hverify⟩ :=
      verifyUrl_signedUrl hL hsettled hbase hissue hpath hurl .refl
        (show envelope.exp - 1 < envelope.exp by omega)
    rw [hverify] at hone
    split at hone
    · next htag =>
      have hsame := hcollision key message checked hactive hmessage hchecked
        (unpadded_injective htag)
      exact (canonical_eq_iff hL hmessage hchecked).mp hsame.symm
    · cases hone
  · intro hplain ring later hrotated hlive
    obtain ⟨key, message, checked, -, hmessage, hchecked, hverify⟩ :=
      verifyUrl_signedUrl hL hsettled hbase hissue hpath hurl hrotated hlive
    rw [hverify, (canonical_eq_iff hL hmessage hchecked).mpr hplain, if_pos rfl]

/-- What a signer was asked to sign, and the secret it signed with. -/
structure Record where
  secret : String
  method : String
  path : String
  query : Dict String String
  exp : Int

structure Session where
  signer : KeyRingSigner
  issued : List Record

inductive Call where
  | issue (now : Int) (path method : String) (query : Dict String String)
      (ttlSeconds : Option Int)
  | rotate (kid secret : String)

/-- A call on the signer; one that raises leaves everything as it was. -/
def Session.next (L : Library) (s : Session) : Call → Session
  | .issue now path method query ttlSeconds =>
    match s.signer.issue L now path method query ttlSeconds, s.signer.keyring.active with
    | .ok envelope, .ok key =>
      { s with issued := ⟨key.secret, method, envelope.path, query, envelope.exp⟩ :: s.issued }
    | _, _ => s
  | .rotate kid secret => match s.signer.rotate L kid secret with
    | .ok signer => { s with signer }
    | .error _ => s

/-- The calls that issue, issue for what the verifier checks. -/
def PlainCall (L : Library) (_ : Session) : Call → Prop
  | .issue _ _ method query _ => IsPlain L method query
  | .rotate _ _ => True

def Signed (L : Library) (s : Session) (secret : String) (message : List UInt8) : Prop :=
  ∃ r ∈ s.issued, r.secret = secret ∧ canonical L r.method r.path r.query r.exp = .ok message

/-- Nobody else makes tags: where the tag of an envelope is the right one for the text that
is checked, that text was signed with the secret before. -/
def Unforged (L : Library) (s : Session) (envelope : SignatureEnvelope) : Prop :=
  ∀ kid key path checked, s.signer.keyring.keys.get? kid = some key →
    decodePath envelope.signed = .ok path →
      canonical L "GET" path Dict.empty envelope.exp = .ok checked →
        sign L key.secret checked = envelope.sig → Signed L s key.secret checked

/-- What is accepted was issued: the path and the expiry of an earlier call. -/
def AcceptsIssued (L : Library) (s : Session) : Prop :=
  ∀ now envelope path, Unforged L s envelope → s.signer.verify L now envelope = .ok path →
    ∃ r ∈ s.issued, r.path = path ∧ r.exp = envelope.exp

theorem acceptsIssued_of_plain (hL : L.Lawful) {s : Session}
    (hplain : ∀ r ∈ s.issued, IsPlain L r.method r.query) : AcceptsIssued L s := by
  intro now envelope path hunforged haccepted
  obtain ⟨hdecode, key, checked, hget, hchecked, htag⟩ := verify_ok haccepted
  obtain ⟨r, hr, -, hmessage⟩ := hunforged _ key path checked hget hdecode hchecked htag
  obtain ⟨message, hmessage'⟩ : ∃ message,
      canonical L "GET" r.path Dict.empty r.exp = .ok message := by
    obtain ⟨expText, hexp, -⟩ := canonical_ok hmessage
    exact ⟨_, canonical_of_intStr hexp⟩
  have hsame := (canonical_eq_iff hL hmessage hmessage').mpr (hplain r hr)
  obtain ⟨hpath, hexp⟩ := canonical_plain_inj (hsame ▸ hmessage') hchecked
  exact ⟨r, hr, hpath, hexp⟩

/-- What every call keeps while all issuing calls are plain. -/
structure Kept (L : Library) (basePath : String) (s : Session) : Prop where
  settled : Settled L.nfkc s.signer.keyring
  base : s.signer.basePath = basePath

theorem Kept.next (hL : L.Lawful) {basePath : String} {s : Session} (h : Kept L basePath s)
    (call : Call) : Kept L basePath (s.next L call) := by
  cases call with
  | issue now path method query ttl =>
    simp only [Session.next]
    split
    · exact ⟨h.settled, h.base⟩
    · exact h
  | rotate kid secret =>
    simp only [Session.next]
    split
    · next signer hrotate =>
      simp only [KeyRingSigner.rotate, bind_eq_ok, pure_eq_ok] at hrotate
      obtain ⟨ring, hring, rfl⟩ := hrotate
      exact ⟨settled_rotate hL.nfkc h.settled hring, h.base⟩
    · exact h

theorem plain_next {s : Session} (h : ∀ r ∈ s.issued, IsPlain L r.method r.query) (call : Call)
    (hcall : PlainCall L s call) : ∀ r ∈ (s.next L call).issued, IsPlain L r.method r.query := by
  cases call with
  | issue now path method query ttl =>
    simp only [Session.next]
    split
    · exact List.forall_mem_cons.mpr ⟨hcall, h⟩
    · exact h
  | rotate kid secret =>
    simp only [Session.next]
    split
    · exact h
    · exact h

/-- Of a signer with whatever keys and rotations: a link makes the round trip just when it
was issued for a `GET` without a query; and while nothing else is issued, only what was
issued is accepted. -/
theorem signed_links (hL : L.Lawful) {keys : List SigningKey} {ring : KeyRing}
    (hnew : KeyRing.new L.nfkc keys = .ok ring) {defaultTtl : Int} {basePath : String}
    (hbase : OpenBase L (KeyRingSigner.new ring defaultTtl basePath).basePath)
    {trace : List (Session × Call)} {s : Session}
    (hrun : Run (fun s call t => s.next L call = t) ⟨KeyRingSigner.new ring defaultTtl basePath, []⟩
      trace s) :
    (∀ now path method query ttl envelope url,
      s.signer.issue L now path method query ttl = .ok envelope → path ≠ "" →
        NoCollision L s.signer.keyring envelope.path method query envelope.exp →
          s.signer.signedUrl L now path method query ttl = .ok url →
            (RoundTrip L s.signer url envelope ↔ IsPlain L method query)) ∧
      (EachStep (PlainCall L) trace → Throughout (AcceptsIssued L) trace s) := by
  constructor
  · have hkept := (hrun.invariant
      (I := Kept L (KeyRingSigner.new ring defaultTtl basePath).basePath)
      (C := fun _ _ => True) ⟨(new_ok hnew).settled hL.nfkc, rfl⟩
      (fun s call t h _ hstep => hstep ▸ h.next hL call) (fun _ _ => trivial)).2
    intro now path method query ttl envelope url hissue hpath hcollision hurl
    exact roundTrip_iff hL hkept.settled (hkept.base ▸ hbase) hissue hpath hcollision hurl
  · intro hplain
    have hissued := hrun.invariant (I := fun s => ∀ r ∈ s.issued, IsPlain L r.method r.query)
      (by simp) (fun s call t h hcall hstep => hstep ▸ plain_next h call hcall) hplain
    exact hissued.imp fun s h => acceptsIssued_of_plain hL h

/-- The tags of two texts under one key of thirty-two letters, as HMAC-SHA256 has them. -/
def plainTags : List (List UInt8 × List UInt8) :=
  [(encode "GET\nexports/a.csv\n\n1700003600", [
    210, 77, 38, 26, 54, 8, 46, 150, 66, 64, 247, 168, 46, 243, 218, 17, 130, 18, 33, 182,
    193, 82, 97, 176, 214, 27, 146, 240, 60, 58, 105, 198]),
  (encode "POST\nexports/a.csv\n\n1700003600", [
    189, 29, 96, 213, 77, 229, 39, 94, 243, 235, 205, 133, 102, 12, 181, 182, 172, 200, 118, 124,
    60, 174, 146, 228, 223, 208, 227, 157, 6, 165, 101, 71])]

/-- A library for texts in ASCII, with those tags. -/
def plainLibrary : Library where
  nfkc := id
  upper := fun s => String.ofList (s.toList.map Char.toUpper)
  hmac := fun key message =>
    if key = encode (plainSecret 'a') then
      (plainTags.lookup message).getD (List.replicate 32 0)
    else List.replicate 32 0
  refuses := fun _ => false

theorem plainLibrary_lawful : plainLibrary.Lawful where
  nfkc := normalForm_id
  upper_get := by decide
  hmac_length := by
    intro key message
    simp only [plainLibrary]
    split
    · cases hget : plainTags.lookup message with
      | none => rfl
      | some tag =>
        obtain ⟨before, after, hsplit, -⟩ := List.lookup_eq_some_iff.mp hget
        have hmem : tag ∈ plainTags.map Prod.snd := by simp [hsplit]
        have hall : ∀ t ∈ plainTags.map Prod.snd, t.length = 32 := by decide
        exact hall tag hmem
    · rfl

def plainKey : SigningKey := ⟨"k", plainSecret 'a', .active⟩

def plainRing : KeyRing where
  keys := ⟨[("k", plainKey)], by decide⟩
  kids := by
    intro kid key h
    obtain ⟨rfl, rfl⟩ : kid = "k" ∧ key = plainKey := by simpa using Dict.mem_entries.mpr h
    rfl

def plainSigner : KeyRingSigner := KeyRingSigner.new plainRing 3600 "/download"

theorem openBase_download : OpenBase plainLibrary "/download" where
  no_query := by
    have hall : ("/download".toList.all fun c => c != '?' && c != '#') = true := by decide
    intro c hc
    simpa using List.all_eq_true.mp hall c hc
  accepted := by decide

theorem canonical_export {method expected : String} (h : String.ofList
    ((plainLibrary.upper method).toList ++ '\n' :: "exports/a.csv\n\n1700003600".toList) =
      expected) :
    canonical plainLibrary method "exports/a.csv" Dict.empty 1700003600 =
      .ok (encode expected) := by
  rw [canonical_of_intStr (show intStr 1700003600 = some "1700003600" by decide),
    queryText_eq_nil.mpr rfl, ← h]
  rfl

theorem signed_links_plain : ∃ envelope url,
    plainSigner.issue plainLibrary 1700000000 "exports/a.csv" "GET" Dict.empty none =
      .ok envelope ∧
    plainSigner.signedUrl plainLibrary 1700000000 "exports/a.csv" "GET" Dict.empty none =
      .ok url ∧
    RoundTrip plainLibrary plainSigner url envelope ∧
    AcceptsIssued plainLibrary (Session.next plainLibrary ⟨plainSigner, []⟩
      (.issue 1700000000 "exports/a.csv" "GET" Dict.empty none)) := by
  have hplain : IsPlain plainLibrary "GET" Dict.empty := ⟨by decide, rfl⟩
  have hbase : OpenBase plainLibrary (KeyRingSigner.new plainRing 3600 "/download").basePath :=
    openBase_download
  have hall := signed_links plainLibrary_lawful (show KeyRing.new id [plainKey] = .ok plainRing
    from rfl) hbase (.snoc .nil (show Session.next plainLibrary ⟨plainSigner, []⟩
      (.issue 1700000000 "exports/a.csv" "GET" Dict.empty none) = _ from rfl))
  refine ⟨_, _, rfl, rfl, (hall.1 1700000000 "exports/a.csv" "GET" Dict.empty none _ _ rfl
    (by decide) ?_ rfl).mpr hplain, (hall.2 ?_).2⟩
  · intro key message checked _ hmessage hchecked _
    exact Except.ok.inj (hchecked.symm.trans hmessage)
  · intro p hp
    obtain rfl := List.mem_singleton.mp hp
    exact hplain

/-- A link issued for another method is refused while it is still good. -/
theorem posted_link_refused : ∃ envelope url,
    plainSigner.issue plainLibrary 1700000000 "exports/a.csv" "POST" Dict.empty none =
      .ok envelope ∧
    plainSigner.signedUrl plainLibrary 1700000000 "exports/a.csv" "POST" Dict.empty none =
      .ok url ∧
    plainSigner.verifyUrl plainLibrary 1700000001 url =
      .error (.signing (invalidToken "signature")) ∧
    ¬ RoundTrip plainLibrary plainSigner url envelope := by
  refine ⟨_, _, rfl, rfl, ?_⟩
  have hsettled : Settled plainLibrary.nfkc plainSigner.keyring :=
    (new_ok (show KeyRing.new id [plainKey] = .ok plainRing from rfl)).settled normalForm_id
  obtain ⟨key, message, checked, hactive, hmessage, hchecked, hverify⟩ :=
    verifyUrl_signedUrl plainLibrary_lawful hsettled openBase_download
      (show plainSigner.issue plainLibrary 1700000000 "exports/a.csv" "POST" Dict.empty none = _
        from rfl) (by decide) rfl .refl (show (1700000001 : Int) < 1700003600 by decide)
  obtain rfl : plainKey = key := Except.ok.inj
    (show Except.ok plainKey = Except.ok key from hactive)
  obtain rfl : encode "POST\nexports/a.csv\n\n1700003600" = message :=
    Except.ok.inj ((canonical_export (by decide)).symm.trans hmessage)
  obtain rfl : encode "GET\nexports/a.csv\n\n1700003600" = checked :=
    Except.ok.inj ((canonical_export (by decide)).symm.trans hchecked)
  have hdiffer : ¬ sign plainLibrary plainKey.secret (encode "GET\nexports/a.csv\n\n1700003600") =
      sign plainLibrary plainKey.secret (encode "POST\nexports/a.csv\n\n1700003600") := by
    intro h
    exact absurd (unpadded_injective h) (by decide +kernel)
  rw [if_neg hdiffer] at hverify
  refine ⟨hverify, fun h => ?_⟩
  have hgood := h plainSigner.keyring 1700000001 .refl
    (show (1700000001 : Int) < 1700003600 by decide)
  cases hverify.symm.trans hgood

end Security

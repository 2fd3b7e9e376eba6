import MentorAllocation.Text.Bytes

namespace Text

def hexDigit (n : Nat) : Char := if n < 10 then Char.ofNat (n + 48) else Char.ofNat (n + 55)

def hexValue? (c : Char) : Option Nat :=
  if '0' ≤ c ∧ c ≤ '9' then some (c.toNat - 48)
  else if 'A' ≤ c ∧ c ≤ 'F' then some (c.toNat - 55)
  else if 'a' ≤ c ∧ c ≤ 'f' then some (c.toNat - 87)
  else none

/-- The characters that `urllib.parse.quote` leaves as they are. -/
def isUnreserved (c : Char) : Bool :=
  c.isAlphanum || c == '_' || c == '.' || c == '-' || c == '~'

def quoteByte (b : UInt8) : List Char :=
  let c := Char.ofNat b.toNat
  if isUnreserved c then [c]
  else if c = ' ' then ['+']
  else ['%', hexDigit (b.toNat / 16), hexDigit (b.toNat % 16)]

def quotePlus (s : String) : List Char := (encode s).flatMap quoteByte

def urlencode (pairs : List (String × String)) : List Char :=
  ['&'].intercalate (pairs.map fun p => quotePlus p.1 ++ '=' :: quotePlus p.2)

/-- `unquote_to_bytes` of an ASCII text. -/
def unquoteToBytes : List Char → List UInt8
  | [] => []
  | [c] => [UInt8.ofNat c.toNat]
  | [c, d] => [UInt8.ofNat c.toNat, UInt8.ofNat d.toNat]
  | c :: a :: b :: rest =>
    if c = '%' then match hexValue? a, hexValue? b with
      | some x, some y => UInt8.ofNat (x * 16 + y) :: unquoteToBytes rest
      | _, _ => UInt8.ofNat c.toNat :: unquoteToBytes (a :: b :: rest)
    else UInt8.ofNat c.toNat :: unquoteToBytes (a :: b :: rest)

def unquoteAscii (cs : List Char) : List Char :=
  decodeReplacing (unquoteToBytes cs).length (unquoteToBytes cs)

/-- `urllib.parse.unquote`: each run of ASCII characters is decoded, what stands between
stays. `run` is the run so far, turned round. -/
def unquote (run : List Char) : List Char → List Char
  | [] => unquoteAscii run.reverse
  | c :: rest =>
    if c.toNat < 128 then unquote (c :: run) rest
    else unquoteAscii run.reverse ++ c :: unquote [] rest

def unquotePlus (cs : List Char) : String :=
  String.ofList (unquote [] (cs.map fun c => if c = '+' then ' ' else c))

/-- The name and value of one part of a query, unless the value is blank or missing. -/
def parsePart (part : List Char) : Option (String × String) :=
  match part.dropWhile (· != '=') with
  | [] => none
  | _ :: value =>
    if value = [] then none
    else some (unquotePlus (part.takeWhile (· != '=')), unquotePlus value)

def parseQsl (query : List Char) : List (String × String) :=
  (query.splitOn '&').filterMap parsePart

/-- `parse_qs(query).get(name, [""])[0]`. -/
def firstValue (query : List Char) (name : String) : String :=
  ((parseQsl query).lookup name).getD ""

def isSchemeChar (c : Char) : Bool := c.isAlphanum || c == '+' || c == '-' || c == '.'

/-- A URL behind its scheme, where it has one. -/
def dropScheme (url : List Char) : List Char :=
  match url.dropWhile (· != ':') with
  | [] => url
  | _ :: rest =>
    let scheme := url.takeWhile (· != ':')
    if (scheme.head?.map Char.isAlpha).getD false && scheme.all isSchemeChar then rest else url

def isNetlocChar (c : Char) : Bool := c != '/' && c != '?' && c != '#'

/-- The network location of a URL without its scheme, and what comes behind. -/
def splitNetloc (url : List Char) : Option (List Char) × List Char :=
  if url.take 2 = ['/', '/'] then
    (some ((url.drop 2).takeWhile isNetlocChar), (url.drop 2).dropWhile isNetlocChar)
  else (none, url)

/-- `urlsplit(url).query`; `none` is the `ValueError` for a network location it refuses. -/
def urlQuery (refuses : List Char → Bool) (url : List Char) : Option (List Char) :=
  let url := (url.dropWhile fun c => c.toNat ≤ 0x20).filter fun c =>
    c != '\t' && c != '\r' && c != '\n'
  let (netloc, url) := splitNetloc (dropScheme url)
  if (netloc.map refuses).getD false then none
  else some (((url.takeWhile (· != '#')).dropWhile (· != '?')).drop 1)

theorem toNat_ofNat : ∀ n < 256, (Char.ofNat n).toNat = n := by decide +kernel

/-- What a quoted text is made of: neither separators nor blanks. -/
theorem quoteByte_chars (b : UInt8) (c : Char) (h : c ∈ quoteByte b) :
    0x20 < c.toNat ∧ c.toNat < 128 ∧ c ≠ '&' ∧ c ≠ '=' ∧ c ≠ '#' := by
  have hall : ∀ n < 256, (quoteByte (UInt8.ofNat n)).all (fun c =>
      decide (0x20 < c.toNat ∧ c.toNat < 128 ∧ c ≠ '&' ∧ c ≠ '=' ∧ c ≠ '#')) = true := by
    decide +kernel
  have hb := List.all_eq_true.mp (hall b.toNat b.toNat_lt) c (by rwa [UInt8.ofNat_toNat])
  exact of_decide_eq_true hb

theorem quotePlus_chars {s : String} {c : Char} (h : c ∈ quotePlus s) :
    0x20 < c.toNat ∧ c.toNat < 128 ∧ c ≠ '&' ∧ c ≠ '=' ∧ c ≠ '#' := by
  obtain ⟨b, -, hc⟩ := List.mem_flatMap.mp h
  exact quoteByte_chars b c hc

theorem quotePlus_eq_nil {s : String} : quotePlus s = [] ↔ s = "" := by
  constructor
  · intro h
    have hnil : encode s = [] := by
      by_contra hne
      obtain ⟨b, rest, hb⟩ := List.exists_cons_of_ne_nil hne
      rw [quotePlus, hb, List.flatMap_cons, List.append_eq_nil_iff] at h
      have hq := h.1
      simp only [quoteByte] at hq
      split at hq
      · cases hq
      · split at hq <;> cases hq
    exact encode_injective hnil
  · rintro rfl
    rfl

/-- A `+` of a query stands for a blank. -/
def plusToSpace (c : Char) : Char := if c = '+' then ' ' else c

theorem unquoteToBytes_cons {c : Char} (h : c ≠ '%') (rest : List Char) :
    unquoteToBytes (c :: rest) = UInt8.ofNat c.toNat :: unquoteToBytes rest := by
  cases rest with
  | nil => rfl
  | cons a rest =>
    cases rest with
    | nil => rfl
    | cons b rest => simp only [unquoteToBytes, h, if_false]

theorem hexValue?_digit : ∀ n < 16, hexValue? (hexDigit n) = some n := by decide

theorem plusToSpace_digit : ∀ n < 16, plusToSpace (hexDigit n) = hexDigit n := by decide

theorem unquoteToBytes_quoteByte (b : UInt8) (rest : List Char) :
    unquoteToBytes ((quoteByte b).map plusToSpace ++ rest) = b :: unquoteToBytes rest := by
  have hb : UInt8.ofNat (Char.ofNat b.toNat).toNat = b := by
    rw [toNat_ofNat _ b.toNat_lt, UInt8.ofNat_toNat]
  simp only [quoteByte]
  split
  · next hfree =>
    have hplus : plusToSpace (Char.ofNat b.toNat) = Char.ofNat b.toNat := by
      refine if_neg fun he => ?_
      rw [he] at hfree
      exact absurd hfree (by decide)
    have hne : Char.ofNat b.toNat ≠ '%' := by
      intro he
      rw [he] at hfree
      exact absurd hfree (by decide)
    rw [List.map_singleton, hplus, List.singleton_append, unquoteToBytes_cons hne, hb]
  · split
    · next hspace =>
      rw [hspace] at hb
      rw [List.map_singleton, List.singleton_append, unquoteToBytes_cons (by decide),
        show plusToSpace '+' = ' ' from rfl, hb]
    · have hlt := b.toNat_lt
      have hval : UInt8.ofNat (b.toNat / 16 * 16 + b.toNat % 16) = b := ofNat_eq (by omega)
      simp only [List.map_cons, List.map_nil, plusToSpace_digit _ (show b.toNat / 16 < 16 by omega),
        plusToSpace_digit _ (show b.toNat % 16 < 16 by omega), List.cons_append, List.nil_append,
        show plusToSpace '%' = '%' from rfl, unquoteToBytes, if_true,
        hexValue?_digit _ (show b.toNat / 16 < 16 by omega),
        hexValue?_digit _ (show b.toNat % 16 < 16 by omega), hval]

theorem unquoteToBytes_quoted (bytes : List UInt8) :
    unquoteToBytes ((bytes.flatMap quoteByte).map plusToSpace) = bytes := by
  induction bytes with
  | nil => rfl
  | cons b bytes ih =>
    rw [List.flatMap_cons, List.map_append, unquoteToBytes_quoteByte, ih]

theorem unquote_ascii {cs : List Char} (h : ∀ c ∈ cs, c.toNat < 128) (run : List Char) :
    unquote run cs = unquoteAscii (run.reverse ++ cs) := by
  induction cs generalizing run with
  | nil => rw [unquote, List.append_nil]
  | cons c cs ih =>
    obtain ⟨hc, hcs⟩ := List.forall_mem_cons.mp h
    rw [unquote, if_pos hc, ih hcs, List.reverse_cons, List.append_assoc, List.singleton_append]

theorem length_le_encode (s : String) : s.toList.length ≤ (encode s).length := by
  rw [encode]
  induction s.toList with
  | nil => simp
  | cons c cs ih =>
    have := c.utf8Size_pos
    rw [List.flatMap_cons, List.length_append, List.length_cons, String.length_utf8EncodeChar]
    omega

/-- Unquoting what was quoted gives it back. -/
theorem unquotePlus_quotePlus (s : String) : unquotePlus (quotePlus s) = s := by
  have hascii : ∀ c ∈ (quotePlus s).map plusToSpace, c.toNat < 128 := by
    intro c hc
    obtain ⟨d, hd, rfl⟩ := List.mem_map.mp hc
    rw [plusToSpace]
    split
    · decide
    · exact (quotePlus_chars hd).2.1
  have hunquote := unquote_ascii hascii []
  rw [List.reverse_nil, List.nil_append, unquoteAscii, quotePlus, unquoteToBytes_quoted] at hunquote
  have hdecode : decodeReplacing (encode s).length (encode s) = s.toList :=
    decodeReplacing_encode (length_le_encode s)
  rw [hdecode] at hunquote
  exact (congrArg String.ofList hunquote).trans String.ofList_toList

theorem parsePart_pair (name value : String) :
    parsePart (quotePlus name ++ '=' :: quotePlus value) =
      if value = "" then none else some (name, value) := by
  have hname : ∀ c ∈ quotePlus name, (c != '=') = true := fun c hc => by
    simpa using (quotePlus_chars hc).2.2.2.1
  rw [parsePart, List.dropWhile_append_of_pos hname, List.takeWhile_append_of_pos hname,
    List.dropWhile_cons, List.takeWhile_cons]
  simp [quotePlus_eq_nil, unquotePlus_quotePlus]

/-- Parsing what was encoded gives the pairs back that have a value. -/
theorem parseQsl_urlencode (pairs : List (String × String)) :
    parseQsl (urlencode pairs) = pairs.filter fun p => p.2 != "" := by
  have hparts : (pairs.map fun p => quotePlus p.1 ++ '=' :: quotePlus p.2).filterMap parsePart =
      pairs.filter fun p => p.2 != "" := by
    rw [List.filterMap_map, ← List.filterMap_eq_filter]
    refine List.filterMap_congr fun p _ => ?_
    rw [Function.comp_apply, parsePart_pair]
    by_cases hp : p.2 = "" <;> simp [hp, Option.guard]
  cases hpairs : pairs with
  | nil => rfl
  | cons p rest =>
    rw [← hpairs, parseQsl, urlencode, List.splitOn_intercalate, hparts]
    · intro part hpart
      obtain ⟨q, -, rfl⟩ := List.mem_map.mp hpart
      intro hmem
      rcases List.mem_append.mp hmem with hmem | hmem
      · exact (quotePlus_chars hmem).2.2.1 rfl
      · rcases List.mem_cons.mp hmem with hmem | hmem
        · cases hmem
        · exact (quotePlus_chars hmem).2.2.1 rfl
    · simp [hpairs]

theorem mem_intercalate {x c : Char} {parts : List (List Char)} (h : c ∈ [x].intercalate parts) :
    c = x ∨ ∃ part ∈ parts, c ∈ part := by
  induction parts with
  | nil => simp at h
  | cons part parts ih =>
    by_cases hnil : parts = []
    · rw [hnil, List.intercalate_singleton] at h
      exact .inr ⟨part, List.mem_cons_self, h⟩
    · rw [List.intercalate_cons_of_ne_nil hnil, List.mem_append, List.mem_append,
        List.mem_singleton] at h
      rcases h with (h | h) | h
      · exact .inr ⟨part, List.mem_cons_self, h⟩
      · exact .inl h
      · rcases ih h with h | ⟨other, ho, h⟩
        · exact .inl h
        · exact .inr ⟨other, List.mem_cons_of_mem part ho, h⟩

theorem urlencode_chars {pairs : List (String × String)} {c : Char} (h : c ∈ urlencode pairs) :
    0x20 < c.toNat ∧ c ≠ '#' := by
  rcases mem_intercalate h with rfl | ⟨part, hpart, hc⟩
  · decide
  · obtain ⟨p, -, rfl⟩ := List.mem_map.mp hpart
    rcases List.mem_append.mp hc with hc | hc
    · exact ⟨(quotePlus_chars hc).1, (quotePlus_chars hc).2.2.2.2⟩
    · rcases List.mem_cons.mp hc with rfl | hc
      · decide
      · exact ⟨(quotePlus_chars hc).1, (quotePlus_chars hc).2.2.2.2⟩

/-- A URL up to its query: it has no query or fragment yet. -/
def NoQuery (url : List Char) : Prop := ∀ c ∈ url, c ≠ '?' ∧ c ≠ '#'

variable {url : List Char} {refuses : List Char → Bool}

theorem NoQuery.sublist {part : List Char} (h : NoQuery url) (hs : part.Sublist url) :
    NoQuery part :=
  fun c hc => h c (hs.subset hc)

theorem dropScheme_query (h : NoQuery url) (query : List Char) :
    dropScheme (url ++ '?' :: query) = dropScheme url ++ '?' :: query ∧
      NoQuery (dropScheme url) := by
  cases hd : url.dropWhile (· != ':') with
  | nil =>
    -- without a colon before it, the question mark is part of what would be the scheme
    have hall := List.dropWhile_eq_nil_iff.mp hd
    have hscheme : ((url ++ '?' :: query).takeWhile (· != ':')).all isSchemeChar = false := by
      rw [List.takeWhile_append_of_pos hall, List.all_append, List.takeWhile_cons]
      simp [show isSchemeChar '?' = false from by decide]
    have hurl : dropScheme url = url := by simp only [dropScheme, hd]
    refine ⟨?_, hurl.symm ▸ h⟩
    rw [hurl]
    simp only [dropScheme, hscheme, Bool.and_false, Bool.false_eq_true, if_false]
    split <;> rfl
  | cons c rest =>
    have hdrop : (url ++ '?' :: query).dropWhile (· != ':') = c :: (rest ++ '?' :: query) := by
      rw [List.dropWhile_append, hd]
      rfl
    have htake : (url ++ '?' :: query).takeWhile (· != ':') = url.takeWhile (· != ':') := by
      have hlen : (url.takeWhile (· != ':')).length ≠ url.length := by
        have := congrArg List.length (List.takeWhile_append_dropWhile (p := (· != ':')) (l := url))
        rw [hd, List.length_append, List.length_cons] at this
        omega
      rw [List.takeWhile_append, if_neg hlen]
    have hrest : NoQuery rest := by
      have hs := List.dropWhile_sublist (fun c => c != ':') (l := url)
      rw [hd] at hs
      exact h.sublist ((List.sublist_cons_self c rest).trans hs)
    simp only [dropScheme, hdrop, htake, hd]
    split
    · exact ⟨rfl, hrest⟩
    · exact ⟨rfl, h⟩

theorem splitNetloc_query (h : NoQuery url) (query : List Char) :
    splitNetloc (url ++ '?' :: query) = ((splitNetloc url).1, (splitNetloc url).2 ++ '?' :: query) ∧
      NoQuery (splitNetloc url).2 := by
  have hslashes : (url ++ '?' :: query).take 2 = ['/', '/'] ↔ url.take 2 = ['/', '/'] := by
    cases url with
    | nil => simp
    | cons c url => cases url <;> simp
  by_cases hslash : url.take 2 = ['/', '/']
  · have hlen : 2 ≤ url.length := by
      have := congrArg List.length hslash
      simp at this
      omega
    have hdrop : (url ++ '?' :: query).drop 2 = url.drop 2 ++ '?' :: query :=
      List.drop_append_of_le_length hlen
    have hmark : isNetlocChar '?' = false := by decide
    have htake : (url.drop 2 ++ '?' :: query).takeWhile isNetlocChar =
        (url.drop 2).takeWhile isNetlocChar := by
      rw [List.takeWhile_append]
      split
      · next hall =>
        rw [List.takeWhile_cons, hmark, (List.takeWhile_prefix isNetlocChar).eq_of_length hall]
        simp
      · rfl
    have hrest : (url.drop 2 ++ '?' :: query).dropWhile isNetlocChar =
        (url.drop 2).dropWhile isNetlocChar ++ '?' :: query := by
      rw [List.dropWhile_append]
      split
      · next hnil => rw [List.isEmpty_iff.mp hnil, List.dropWhile_cons, hmark]; rfl
      · rfl
    refine ⟨?_, ?_⟩
    · rw [splitNetloc, if_pos (hslashes.mpr hslash), hdrop, htake, hrest, splitNetloc,
        if_pos hslash]
    · rw [splitNetloc, if_pos hslash]
      exact h.sublist ((List.dropWhile_sublist _).trans (List.drop_sublist 2 url))
  · rw [splitNetloc, if_neg (mt hslashes.mp hslash), splitNetloc, if_neg hslash]
    exact ⟨rfl, h⟩

theorem NoQuery.query_append {query : List Char} (h : NoQuery url)
    (hquery : ∀ c ∈ query, c ≠ '#') :
    (((url ++ '?' :: query).takeWhile (· != '#')).dropWhile (· != '?')).drop 1 = query := by
  have hall : ∀ c ∈ url ++ '?' :: query, (c != '#') = true := by
    intro c hc
    rcases List.mem_append.mp hc with hc | hc
    · simpa using (h c hc).2
    · rcases List.mem_cons.mp hc with rfl | hc
      · decide
      · simpa using hquery c hc
  rw [List.takeWhile_eq_self_iff.mpr hall,
    List.dropWhile_append_of_pos fun c hc => by simpa using (h c hc).1]
  rfl

/-- Where a URL has no query of its own, the text put behind a question mark is its query. -/
theorem urlQuery_append {query : List Char} (hbase : NoQuery url)
    (haccepted : (urlQuery refuses url).isSome)
    (hquery : ∀ c ∈ query, 0x20 < c.toNat ∧ c ≠ '#') :
    urlQuery refuses (url ++ '?' :: query) = some query := by
  have hkept : ∀ c : Char, 0x20 < c.toNat → (c != '\t' && c != '\r' && c != '\n') = true := by
    intro c hc
    have hne : ∀ d : Char, d.toNat ≤ 0x20 → c ≠ d := fun d hd he => absurd (he ▸ hc) (by omega)
    simp [hne '\t' (by decide), hne '\r' (by decide), hne '\n' (by decide)]
  generalize hclean : ((url.dropWhile fun c => decide (c.toNat ≤ 0x20)).filter fun c =>
    c != '\t' && c != '\r' && c != '\n') = clean
  have hwhole : (((url ++ '?' :: query).dropWhile fun c => decide (c.toNat ≤ 0x20)).filter fun c =>
      c != '\t' && c != '\r' && c != '\n') = clean ++ '?' :: query := by
    have htail : ('?' :: query).filter (fun c => c != '\t' && c != '\r' && c != '\n') =
        '?' :: query := by
      refine List.filter_eq_self.mpr fun c hc => ?_
      rcases List.mem_cons.mp hc with rfl | hc
      · decide
      · exact hkept c (hquery c hc).1
    rw [List.dropWhile_append]
    split
    · next hnil =>
      rw [← hclean, List.isEmpty_iff.mp hnil, List.dropWhile_cons]
      simpa using htail
    · rw [List.filter_append, htail, hclean]
  have hnone : NoQuery clean := by
    rw [← hclean]
    exact hbase.sublist (List.filter_sublist.trans (List.dropWhile_sublist _))
  obtain ⟨hscheme, hscheme'⟩ := dropScheme_query hnone query
  obtain ⟨hnetloc, hnetloc'⟩ := splitNetloc_query hscheme' query
  simp only [urlQuery, hclean] at haccepted
  simp only [urlQuery, hwhole, hscheme, hnetloc]
  split
  · next hrefused => simp [hrefused] at haccepted
  · rw [hnetloc'.query_append fun c hc => (hquery c hc).2]

end Text

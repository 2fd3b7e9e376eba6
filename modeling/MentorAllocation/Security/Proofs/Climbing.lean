import Mathlib.Data.List.Infix
import MentorAllocation.Data.Pieces
import MentorAllocation.Security.Proofs.SignedUrl

namespace Security
open Data Text

/-- A path that, split at its slashes, leads nowhere up, with no backslash and no double
slash. -/
structure NoClimb (path : String) : Prop where
  segments : "..".toList ∉ path.toList.splitOn '/'
  backslash : '\\' ∉ path.toList
  doubled : ¬ "//".toList <:+: path.toList

def decodedText (signed : String) : Option String :=
  (urlsafeB64decode (signed.toList ++ missingPads signed.toList.length)).bind decode

/-- A text whose last segment, either slash taken for one, is `..`. -/
def EndsInDots (text : String) : Prop :=
  ∃ before, text.toList = before ++ "..".toList ∧
    (before = [] ∨ before.getLast? = some '/' ∨ before.getLast? = some '\\')

theorem replaceDouble_append {cs more : List Char} (hmore : more.head? ≠ some '/') :
    replaceDouble (cs ++ more) = replaceDouble cs ++ replaceDouble more := by
  fun_induction replaceDouble cs with
  | case1 => rfl
  | case2 c =>
    cases more with
    | nil => rfl
    | cons d rest =>
      have hd : ¬ (c = '/' ∧ d = '/') := fun h => hmore (congrArg some h.2)
      rw [List.singleton_append, replaceDouble, if_neg hd, List.singleton_append]
  | case3 c d rest hcd ih => rw [List.cons_append, List.cons_append, replaceDouble, if_pos hcd, ih,
      List.cons_append]
  | case4 c d rest hcd ih =>
    rw [List.cons_append, List.cons_append, replaceDouble, if_neg hcd, ← List.cons_append, ih,
      List.cons_append]

theorem replaceDouble_of_not_mem {cs : List Char} (h : '/' ∉ cs) : replaceDouble cs = cs := by
  fun_induction replaceDouble cs with
  | case1 => rfl
  | case2 => rfl
  | case3 c d rest hcd _ => exact absurd (hcd.1 ▸ List.mem_cons_self) h
  | case4 c d rest _ ih => rw [ih fun hmem => h (List.mem_cons_of_mem _ hmem)]

theorem getLast?_replaceDouble (cs : List Char) :
    (replaceDouble cs).getLast? = cs.getLast? := by
  fun_induction replaceDouble cs with
  | case1 => rfl
  | case2 => rfl
  | case3 c d rest hcd ih =>
    obtain ⟨rfl, rfl⟩ := hcd
    rw [List.getLast?_cons, ih, List.getLast?_cons, List.getLast?_cons]
    simp
  | case4 c d rest _ ih => rw [List.getLast?_cons, ih, ← List.getLast?_cons]

/-- Taking double slashes for one leaves the last segment. -/
theorem lastPiece_replaceDouble {cs last : List Char} (h : LastPiece '/' cs last) :
    LastPiece '/' (replaceDouble cs) last := by
  obtain ⟨before, rfl, hbefore⟩ := h.closed
  have hhead : last.head? ≠ some '/' := fun hslash =>
    h.separator_free (List.mem_of_head? hslash)
  rw [replaceDouble_append hhead, replaceDouble_of_not_mem h.separator_free]
  refine ⟨⟨_, rfl, ?_⟩, h.separator_free⟩
  rw [getLast?_replaceDouble]
  rcases hbefore with rfl | hbefore
  · exact .inl rfl
  · exact .inr hbefore

theorem lastPiece_collapse {cs last : List Char} (h : LastPiece '/' cs last) (n : Nat) :
    LastPiece '/' (collapse n cs) last := by
  induction n generalizing cs with
  | zero => exact h
  | succ n ih =>
    rw [collapse]
    split
    · exact ih (lastPiece_replaceDouble h)
    · exact h

/-- What `replace` makes of a character. -/
def slashed (c : Char) : Char := if c = '\\' then '/' else c

theorem slashed_eq_dot {c : Char} : slashed c = '.' ↔ c = '.' := by
  rw [slashed]
  split
  · next h => simp [h]
  · rfl

theorem slashed_eq_slash {c : Char} : slashed c = '/' ↔ c = '/' ∨ c = '\\' := by
  rw [slashed]
  split
  · next h => simp [h]
  · next h => simp [h]

theorem lastPiece_slashed {text : String} :
    LastPiece '/' (text.toList.map slashed) "..".toList ↔ EndsInDots text := by
  constructor
  · intro h
    obtain ⟨before, hsplit, hbefore⟩ := h.closed
    obtain ⟨front, dots, htext, rfl, hdots⟩ := List.map_eq_append_iff.mp hsplit
    have hplain : dots = "..".toList := by
      obtain ⟨first, rest, rfl, hfirst, hrest⟩ := List.map_eq_cons_iff.mp hdots
      obtain ⟨second, rest, rfl, hsecond, hrest⟩ := List.map_eq_cons_iff.mp hrest
      rw [List.map_eq_nil_iff] at hrest
      rw [slashed_eq_dot.mp hfirst, slashed_eq_dot.mp hsecond, hrest]
      rfl
    refine ⟨front, by rw [htext, hplain], ?_⟩
    rw [List.map_eq_nil_iff, List.getLast?_map, Option.map_eq_some_iff] at hbefore
    refine hbefore.imp_right ?_
    rintro ⟨c, hc, hslash⟩
    rw [hc, Option.some_inj, Option.some_inj]
    exact slashed_eq_slash.mp hslash
  · rintro ⟨before, htext, hbefore⟩
    refine ⟨⟨before.map slashed, by rw [htext, List.map_append]; rfl, ?_⟩, by decide⟩
    rw [List.map_eq_nil_iff, List.getLast?_map, Option.map_eq_some_iff]
    refine hbefore.imp_right ?_
    rintro (h | h)
    · exact ⟨_, h, rfl⟩
    · exact ⟨_, h, rfl⟩

theorem hasDouble_of_part {cs : List Char} (h : "//".toList <:+: cs) : hasDouble cs = true := by
  obtain ⟨before, after, rfl⟩ := h
  induction before with
  | nil => rfl
  | cons c before ih =>
    cases before with
    | nil => simp [hasDouble]
    | cons d before =>
      simp only [List.cons_append, hasDouble, Bool.or_eq_true] at ih ⊢
      exact .inr ih

theorem contains_of_split {text needle : String} {before after : List Char}
    (h : text.toList = before ++ needle.toList ++ after) : contains text needle = true := by
  rw [contains, List.any_eq_true]
  refine ⟨needle.toList ++ after, ?_, ?_⟩
  · rw [List.mem_tails, h, List.append_assoc]
    exact List.suffix_append _ _
  · exact List.isPrefixOf_iff_prefix.mpr (List.prefix_append _ _)

/-- The check leaves `..` only in the last place. -/
theorem lastPiece_of_mem_splitOn {path : String}
    (hstart : "../".toList.isPrefixOf path.toList = false)
    (hinner : contains path "/../" = false) (h : "..".toList ∈ path.toList.splitOn '/') :
    LastPiece '/' path.toList "..".toList := by
  obtain ⟨before, after, hpath, hbefore, hafter⟩ := exists_of_mem_splitOn h
  suffices after = [] by
    subst this
    exact ⟨⟨before, by rw [hpath, List.append_nil], hbefore⟩, by decide⟩
  refine hafter.resolve_right fun hslash => ?_
  obtain ⟨after, rfl⟩ := List.head?_eq_some_iff.mp hslash
  rcases hbefore with rfl | hbefore
  · rw [hpath, List.nil_append, Bool.eq_false_iff] at hstart
    exact hstart (List.isPrefixOf_iff_prefix.mpr ⟨after, rfl⟩)
  · obtain ⟨before, rfl⟩ := List.getLast?_eq_some_iff.mp hbefore
    have hsplit : path.toList = before ++ "/../".toList ++ after := by
      rw [hpath]
      simp
    rw [contains_of_split hsplit] at hinner
    cases hinner

/-- Of a path that passed: it climbs exactly where its last segment says so. -/
theorem normalizePath_noClimb {text path : String} (h : normalizePath text = .ok path) :
    NoClimb path ↔ ¬ EndsInDots text := by
  rw [← lastPiece_slashed]
  have hslashed : (text.toList.map fun c => if c = '\\' then '/' else c) =
    text.toList.map slashed :=
    rfl
  have hplain : '\\' ∉ text.toList.map slashed := by
    intro hmem
    obtain ⟨c, -, hc⟩ := List.mem_map.mp hmem
    unfold slashed at hc
    split at hc
    · cases hc
    · contradiction
  rw [normalizePath, hslashed] at h
  generalize text.toList.map slashed = cs at h hplain ⊢
  split at h
  · cases h
  · next hsafe =>
    obtain rfl := Except.ok.inj h
    rw [Bool.or_eq_true, not_or, Bool.not_eq_true, Bool.not_eq_true] at hsafe
    have hlast := LastPiece.splitOn '/' cs
    have hsame : LastPiece '/' cs "..".toList ↔
        LastPiece '/' (collapse cs.length cs) "..".toList :=
      ⟨fun h => lastPiece_collapse h _, fun h => (lastPiece_collapse hlast _).unique h ▸ hlast⟩
    rw [hsame]
    constructor
    · intro hclimb hdots
      exact hclimb.segments (by rw [String.toList_ofList]; exact hdots.mem_splitOn)
    · intro hdots
      refine ⟨fun hmem => hdots ?_, fun hmem => ?_, fun hinfix => ?_⟩
      · have := lastPiece_of_mem_splitOn hsafe.1 hsafe.2 hmem
        rwa [String.toList_ofList] at this
      · rw [String.toList_ofList] at hmem
        exact hplain (mem_collapse hmem)
      · simp only [String.toList_ofList] at hinfix
        have hdouble := hasDouble_collapse (Nat.le_refl cs.length)
        rw [hasDouble_of_part hinfix] at hdouble
        cases hdouble

theorem decodePath_eq_ok {signed path : String} (h : decodePath signed = .ok path) :
    ∃ text, decodedText signed = some text ∧ normalizePath text = .ok path := by
  unfold decodePath at h
  unfold decodedText
  split at h
  · cases h
  · next text htext => exact ⟨text, htext, h⟩

/-- A path that is returned climbs exactly where the text that was signed ends in a `..`
segment: the check looks for `..` before a slash only. -/
theorem verified_path_climbs {L : Library} {signer : KeyRingSigner} {now : Int}
    {envelope : SignatureEnvelope} {path : String}
    (h : signer.verify L now envelope = .ok path) :
    NoClimb path ↔ ∀ text, decodedText envelope.signed = some text → ¬ EndsInDots text := by
  obtain ⟨text, htext, hnormalized⟩ := decodePath_eq_ok (verify_ok h).1
  rw [normalizePath_noClimb hnormalized, htext]
  constructor
  · intro hends other hother
    exact Option.some.inj hother ▸ hends
  · intro hends
    exact hends text rfl

/-- A link that was issued for a `GET` without a query is good until it expires. -/
theorem verify_issued {L : Library} {signer : KeyRingSigner} {now later : Int} {path : String}
    {ttl : Option Int} {envelope : SignatureEnvelope}
    (h : signer.issue L now path "GET" Dict.empty ttl = .ok envelope)
    (hlive : later < envelope.exp) : signer.verify L later envelope = .ok envelope.path := by
  have hissued := issue_ok h
  obtain ⟨key, message, hactive, hkid, hmessage, hsig⟩ := hissued.tagged
  have hdecode : decodePath envelope.signed = .ok envelope.path := by
    rw [hissued.signed, decodePath_encodePath, (normalizePath_ok hissued.normalized).1]
  have hascii : envelope.sig.toList.all (fun c => c.toNat < 128) = true :=
    hsig ▸ unpadded_ascii _
  rw [verify_known hdecode hlive (hkid ▸ active_get? hactive) hmessage hascii, if_pos hsig.symm]

/-- `plainLibrary` with the tag that HMAC-SHA256 has for a link to the parent of `exports`. -/
def parentLibrary : Library where
  nfkc := plainLibrary.nfkc
  upper := plainLibrary.upper
  hmac := fun key message =>
    if key = encode (plainSecret 'a') ∧ message = encode "GET\nexports/..\n\n1700003600" then
      [177, 41, 10, 21, 125, 133, 150, 117, 41, 193, 180, 144, 135, 147, 211, 93, 38, 165, 164, 20,
        30, 46, 185, 123, 121, 238, 197, 250, 208, 197, 151, 198]
    else plainLibrary.hmac key message
  refuses := plainLibrary.refuses

theorem verified_path_climbs_plain : ∃ envelope,
    plainSigner.issue plainLibrary 1700000000 "exports/a.csv" "GET" Dict.empty none =
      .ok envelope ∧
    plainSigner.verify plainLibrary 1700000001 envelope = .ok envelope.path ∧
    (NoClimb envelope.path ↔
      ∀ text, decodedText envelope.signed = some text → ¬ EndsInDots text) := by
  obtain ⟨envelope, hissue, hexp⟩ : ∃ envelope,
      plainSigner.issue plainLibrary 1700000000 "exports/a.csv" "GET" Dict.empty none =
        .ok envelope ∧ envelope.exp = 1700003600 := ⟨_, rfl, rfl⟩
  have hverify : plainSigner.verify plainLibrary 1700000001 envelope = .ok envelope.path :=
    verify_issued hissue (by rw [hexp]; decide)
  exact ⟨envelope, hissue, hverify, verified_path_climbs hverify⟩

/-- A signed link to `exports/..` is accepted, and the path leads up. -/
theorem parent_link_accepted : ∃ envelope,
    plainSigner.issue parentLibrary 1700000000 "exports/.." "GET" Dict.empty none =
      .ok envelope ∧
    plainSigner.verify parentLibrary 1700000001 envelope = .ok "exports/.." ∧
    ¬ NoClimb "exports/.." := by
  obtain ⟨envelope, hissue, hexp, hpath⟩ : ∃ envelope,
      plainSigner.issue parentLibrary 1700000000 "exports/.." "GET" Dict.empty none =
        .ok envelope ∧ envelope.exp = 1700003600 ∧ envelope.path = "exports/.." :=
    ⟨_, rfl, rfl, by decide⟩
  have hverify : plainSigner.verify parentLibrary 1700000001 envelope = .ok envelope.path :=
    verify_issued hissue (by rw [hexp]; decide)
  rw [hpath] at hverify
  have hdots : "..".toList ∈ "exports/..".toList.splitOn '/' :=
    LastPiece.mem_splitOn ⟨⟨"exports/".toList, rfl, .inr rfl⟩, by decide⟩
  exact ⟨envelope, hissue, hverify, fun h => h.segments hdots⟩

end Security

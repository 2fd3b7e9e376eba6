import MentorAllocation.Data.Except
import MentorAllocation.Security.KeyRing
import MentorAllocation.Text.Normalization

namespace Security
open Data Text

def tidy (nfkc : String → String) (key : SigningKey) : SigningKey where
  kid := cleanText nfkc key.kid
  secret := cleanText nfkc key.secret
  state := if key.state = .unknown then .retired else key.state

structure Clean (nfkc : String → String) (key : SigningKey) : Prop where
  kid_nonempty : key.kid ≠ ""
  secret_long : 32 ≤ key.secret.length
  fixed : tidy nfkc key = key

variable {nfkc : String → String} {key : SigningKey} {kid secret : String} {ring : KeyRing}

theorem normalizeKid_ok {text : String} :
    normalizeKid nfkc kid = .ok text ↔ text = cleanText nfkc kid ∧ text ≠ "" := by
  simp only [normalizeKid]
  split
  · next h => simp [h]
  · next h =>
    rw [Except.ok.injEq, eq_comm]
    exact ⟨fun he => ⟨he, he ▸ h⟩, And.left⟩

theorem normalizeSecret_ok {text : String} :
    normalizeSecret nfkc secret = .ok text ↔ text = cleanText nfkc secret ∧ 32 ≤ text.length := by
  simp only [normalizeSecret]
  split
  · next h =>
    simp only [reduceCtorEq, false_iff, not_and, not_le]
    rintro rfl
    exact h
  · next h =>
    rw [Except.ok.injEq, eq_comm]
    exact ⟨fun he => ⟨he, he ▸ not_lt.mp h⟩, And.left⟩

theorem cleaned_ok {stored : SigningKey} : cleaned nfkc key = .ok stored ↔
    stored = tidy nfkc key ∧ ((tidy nfkc key).kid ≠ "" ∧ 32 ≤ (tidy nfkc key).secret.length) := by
  simp only [cleaned, bind_eq_ok, normalizeKid_ok, normalizeSecret_ok, pure_eq_ok]
  constructor
  · rintro ⟨kid, ⟨rfl, hkid⟩, secret, ⟨rfl, hsecret⟩, rfl⟩
    exact ⟨rfl, hkid, hsecret⟩
  · rintro ⟨rfl, hkid, hsecret⟩
    exact ⟨_, ⟨rfl, hkid⟩, _, ⟨rfl, hsecret⟩, rfl⟩

theorem tidy_tidy (hn : NormalForm nfkc) (key : SigningKey) :
    tidy nfkc (tidy nfkc key) = tidy nfkc key := by
  obtain ⟨kid, secret, state⟩ := key
  simp only [tidy, cleanText, hn.strip_idem, SigningKey.mk.injEq, true_and]
  cases state <;> rfl

theorem isActive_tidy : (tidy nfkc key).isActive = key.isActive := by
  obtain ⟨kid, secret, state⟩ := key
  cases state <;> rfl

theorem retire_inactive : (KeyRing.retire key).isActive = false := by
  obtain ⟨kid, secret, state⟩ := key
  cases state <;> rfl

theorem Clean.retire (h : Clean nfkc key) : Clean nfkc (KeyRing.retire key) where
  kid_nonempty := h.kid_nonempty
  secret_long := h.secret_long
  fixed := by
    have hfixed := h.fixed
    obtain ⟨kid, secret, state⟩ := key
    simp only [tidy, SigningKey.mk.injEq] at hfixed
    obtain ⟨hkid, hsecret, hstate⟩ := hfixed
    simp only [tidy, KeyRing.retire, hkid, hsecret]
    cases state with
    | active => rfl
    | retired => rfl
    | unknown => cases hstate

/-- What a ring stores for a list of keys. -/
structure Built (nfkc : String → String) (keys : List SigningKey) (ring : KeyRing) : Prop where
  one_active : keys.countP SigningKey.isActive = 1
  valid : ∀ key ∈ keys, (tidy nfkc key).kid ≠ "" ∧ 32 ≤ (tidy nfkc key).secret.length
  stored : ring.keys = Dict.ofList (keys.map fun key => (cleanText nfkc key.kid, tidy nfkc key))

theorem new_ok {keys : List SigningKey} (h : KeyRing.new nfkc keys = .ok ring) :
    Built nfkc keys ring := by
  simp only [KeyRing.new] at h
  split at h
  · cases h
  · obtain ⟨normalized, hmap, h⟩ := bind_eq_ok.mp h
    obtain ⟨rfl, hvalid⟩ := (mapM_eq_ok (fun _ _ => cleaned_ok) keys normalized).mp hmap
    have hcount : (keys.map (tidy nfkc)).countP SigningKey.isActive =
        keys.countP SigningKey.isActive := by
      rw [List.countP_map]
      exact List.countP_congr fun key _ => by rw [Function.comp_apply, isActive_tidy]
    split at h
    · cases h
    · next hone =>
      obtain rfl := pure_eq_ok.mp h
      refine ⟨by rw [← hcount]; exact not_not.mp hone, hvalid, ?_⟩
      simp [List.map_map, Function.comp_def, tidy]

/-- A ring all of whose keys are in their stored form. -/
def Settled (nfkc : String → String) (ring : KeyRing) : Prop :=
  ∀ kid key, ring.keys.get? kid = some key → Clean nfkc key

/-- Every entry of a ring comes from a key it was given, and no later one has the id. -/
theorem Built.get? {keys : List SigningKey} (h : Built nfkc keys ring) {stored : SigningKey}
    (hget : ring.keys.get? kid = some stored) : ∃ before key after,
      keys = before ++ key :: after ∧ stored = tidy nfkc key ∧ kid = cleanText nfkc key.kid ∧
        ∀ k ∈ after, cleanText nfkc k.kid ≠ kid := by
  rw [h.stored, Dict.get?_ofList, ← List.map_reverse] at hget
  obtain ⟨l₁, l₂, hsplit, hnone⟩ := List.lookup_eq_some_iff.mp hget
  obtain ⟨m₁, m₂, hkeys, rfl, hm⟩ := List.map_eq_append_iff.mp hsplit
  obtain ⟨key, rest, rfl, hkey, rfl⟩ := List.map_eq_cons_iff.mp hm
  obtain ⟨rfl, rfl⟩ := Prod.mk.inj hkey
  refine ⟨rest.reverse, key, m₁.reverse, ?_, rfl, rfl, ?_⟩
  · rw [← List.reverse_reverse keys, hkeys]
    simp
  · intro k hk heq
    have := hnone _ (List.mem_map_of_mem (List.mem_reverse.mp hk))
    simp [heq] at this

theorem Built.settled (hn : NormalForm nfkc) {keys : List SigningKey}
    (h : Built nfkc keys ring) : Settled nfkc ring := by
  intro kid stored hget
  obtain ⟨before, key, after, rfl, rfl, -, -⟩ := h.get? hget
  obtain ⟨hkid, hsecret⟩ := h.valid key (by simp)
  exact ⟨hkid, hsecret, tidy_tidy hn key⟩

/-- A settled ring built again from its own keys is the same. -/
theorem Built.get?_values {d : Dict String SigningKey} (h : Built nfkc d.values ring)
    (hclean : ∀ kid key, d.get? kid = some key → key.kid = kid ∧ Clean nfkc key) (q : String) :
    ring.keys.get? q = d.get? q := by
  have hmap : (d.values.map fun key => (cleanText nfkc key.kid, tidy nfkc key)) =
      d.entries.map fun e => (e.1, id e.2) := by
    rw [Dict.values, List.map_map]
    refine List.map_congr_left fun e he => ?_
    obtain ⟨hkid, hkey⟩ := hclean e.1 e.2 (Dict.mem_entries.mp he)
    have htidy : cleanText nfkc e.2.kid = e.2.kid := congrArg SigningKey.kid hkey.fixed
    rw [Function.comp_apply, htidy, hkey.fixed, hkid, id_eq]
  rw [h.stored, hmap, Dict.get?_ofList_map, Option.map_id, id_eq]

theorem get?_retired (ring : KeyRing) (q : String) :
    (Dict.ofList (ring.keys.values.map fun key => (key.kid, KeyRing.retire key))).get? q =
      (ring.keys.get? q).map KeyRing.retire := by
  have hmap : (ring.keys.values.map fun key => (key.kid, KeyRing.retire key)) =
      ring.keys.entries.map fun e => (e.1, KeyRing.retire e.2) := by
    rw [Dict.values, List.map_map]
    refine List.map_congr_left fun e he => ?_
    rw [Function.comp_apply, ring.kids e.1 e.2 (Dict.mem_entries.mp he)]
  rw [hmap, Dict.get?_ofList_map]

/-- What a rotation leaves: the new key, active, and every other key as it was, retired. -/
theorem rotate_ok (hn : NormalForm nfkc) (hsettled : Settled nfkc ring) {ring' : KeyRing}
    (h : ring.rotate nfkc kid secret = .ok ring') (q : String) : ring'.keys.get? q =
      if q = cleanText nfkc kid then
        some ⟨cleanText nfkc kid, cleanText nfkc secret, .active⟩
      else (ring.keys.get? q).map KeyRing.retire := by
  simp only [KeyRing.rotate] at h
  obtain ⟨kid', hkid, h⟩ := bind_eq_ok.mp h
  obtain ⟨secret', hsecret, h⟩ := bind_eq_ok.mp h
  obtain ⟨rfl, hkid⟩ := normalizeKid_ok.mp hkid
  obtain ⟨rfl, hsecret⟩ := normalizeSecret_ok.mp hsecret
  split at h
  · cases h
  rw [(new_ok h).get?_values, Dict.get?_set, get?_retired]
  intro kid' key hget
  rw [Dict.get?_set, get?_retired] at hget
  split at hget
  · next hq =>
    obtain rfl := Option.some.inj hget
    refine ⟨hq.symm, hkid, hsecret, ?_⟩
    simp only [tidy, cleanText, hn.strip_idem]
    rfl
  · obtain ⟨old, hold, rfl⟩ := Option.map_eq_some_iff.mp hget
    exact ⟨ring.kids kid' old hold, (hsettled kid' old hold).retire⟩

/-- The key ids and secrets a ring was given, normalised, in the order of the giving. -/
def given (nfkc : String → String) (keys : List SigningKey) (rotations : List (String × String)) :
    List (String × String) :=
  (keys.map fun key => (cleanText nfkc key.kid, cleanText nfkc key.secret)) ++
    rotations.map fun r => (cleanText nfkc r.1, cleanText nfkc r.2)

/-- A ring that knows the last secret given for each key id. -/
structure Keeps (nfkc : String → String) (pairs : List (String × String)) (ring : KeyRing) :
    Prop where
  settled : Settled nfkc ring
  secrets : ∀ kid, (ring.keys.get? kid).map SigningKey.secret = pairs.reverse.lookup kid

theorem Built.keeps (hn : NormalForm nfkc) {keys : List SigningKey} (h : Built nfkc keys ring) :
    Keeps nfkc (given nfkc keys []) ring where
  settled := h.settled hn
  secrets := by
    intro kid
    rw [h.stored, Dict.get?_ofList, ← lookup_map, given, List.map_nil, List.append_nil,
      ← List.map_reverse, ← List.map_reverse, List.map_map]
    rfl

theorem settled_rotate (hn : NormalForm nfkc) (hsettled : Settled nfkc ring) {ring' : KeyRing}
    (h : ring.rotate nfkc kid secret = .ok ring') : Settled nfkc ring' := by
  intro q key hget
  rw [rotate_ok hn hsettled h] at hget
  split at hget
  · obtain rfl := Option.some.inj hget
    simp only [KeyRing.rotate] at h
    obtain ⟨kid', hkid, h⟩ := bind_eq_ok.mp h
    obtain ⟨secret', hsecret, -⟩ := bind_eq_ok.mp h
    obtain ⟨rfl, hkid⟩ := normalizeKid_ok.mp hkid
    obtain ⟨rfl, hsecret⟩ := normalizeSecret_ok.mp hsecret
    refine ⟨hkid, hsecret, ?_⟩
    simp only [tidy, cleanText, hn.strip_idem]
    rfl
  · obtain ⟨old, hold, rfl⟩ := Option.map_eq_some_iff.mp hget
    exact (hsettled q old hold).retire

theorem Keeps.rotate (hn : NormalForm nfkc) {pairs : List (String × String)}
    (h : Keeps nfkc pairs ring) {ring' : KeyRing}
    (hrotate : ring.rotate nfkc kid secret = .ok ring') :
    Keeps nfkc (pairs ++ [(cleanText nfkc kid, cleanText nfkc secret)]) ring' where
  settled := settled_rotate hn h.settled hrotate
  secrets := by
    intro q
    rw [rotate_ok hn h.settled hrotate, List.reverse_append, List.reverse_singleton,
      List.singleton_append, lookup_cons_ite, ← h.secrets]
    split
    · rfl
    · rw [Option.map_map]
      rfl

def OneActive (ring : KeyRing) : Prop := ring.keys.values.countP SigningKey.isActive = 1

theorem oneActive_rotate (hn : NormalForm nfkc) (hsettled : Settled nfkc ring) {ring' : KeyRing}
    (h : ring.rotate nfkc kid secret = .ok ring') : OneActive ring' := by
  have hget := rotate_ok hn hsettled h
  refine Dict.countP_values.mpr ⟨cleanText nfkc kid, _, by rw [hget, if_pos rfl], rfl, ?_⟩
  intro q key hq hactive
  rw [hget] at hq
  split at hq
  · assumption
  · obtain ⟨old, -, rfl⟩ := Option.map_eq_some_iff.mp hq
    rw [retire_inactive] at hactive
    cases hactive

/-- The active key of the list is not followed by another of its id. -/
def ActiveStays (nfkc : String → String) (keys : List SigningKey) : Prop :=
  ∃ before key after, keys = before ++ key :: after ∧ key.isActive = true ∧
    ∀ k ∈ after, cleanText nfkc k.kid ≠ cleanText nfkc key.kid

theorem Built.oneActive_iff {keys : List SigningKey} (h : Built nfkc keys ring) :
    OneActive ring ↔ ActiveStays nfkc keys := by
  constructor
  · intro hone
    obtain ⟨kid, stored, hget, hactive, -⟩ := Dict.countP_values.mp hone
    obtain ⟨before, key, after, rfl, rfl, rfl, hafter⟩ := h.get? hget
    rw [isActive_tidy] at hactive
    exact ⟨before, key, after, rfl, hactive, hafter⟩
  · rintro ⟨before, key, after, rfl, hactive, hafter⟩
    have hget : ring.keys.get? (cleanText nfkc key.kid) = some (tidy nfkc key) := by
      rw [h.stored, Dict.get?_ofList]
      refine List.lookup_eq_some_iff.mpr ⟨(after.map fun key =>
        (cleanText nfkc key.kid, tidy nfkc key)).reverse, (before.map fun key =>
        (cleanText nfkc key.kid, tidy nfkc key)).reverse, by simp, ?_⟩
      intro e he
      obtain ⟨k, hk, rfl⟩ := List.mem_map.mp (List.mem_reverse.mp he)
      simpa using (hafter k hk).symm
    refine Dict.countP_values.mpr ⟨_, _, hget, by rwa [isActive_tidy], ?_⟩
    intro kid stored hget' hactive'
    obtain ⟨before', key', after', hsplit, rfl, rfl, -⟩ := h.get? hget'
    rw [isActive_tidy] at hactive'
    have hcount := h.one_active
    rw [List.countP_append, List.countP_cons, if_pos hactive] at hcount
    have hmem : key' ∈ before ++ key :: after := hsplit ▸ by simp
    rcases List.mem_append.mp hmem with hmem | hmem
    · have := List.countP_pos_iff.mpr ⟨key', hmem, hactive'⟩
      omega
    · rcases List.mem_cons.mp hmem with rfl | hmem
      · rfl
      · have := List.countP_pos_iff.mpr ⟨key', hmem, hactive'⟩
        omega

/-- What a ring is after any number of rotations. -/
theorem rotateAll_ok (hn : NormalForm nfkc) {pairs : List (String × String)}
    (h : Keeps nfkc pairs ring) {rotations : List (String × String)} {ring' : KeyRing}
    (hrun : ring.rotateAll nfkc rotations = .ok ring') :
    Keeps nfkc (pairs ++ rotations.map fun r => (cleanText nfkc r.1, cleanText nfkc r.2)) ring' ∧
      (rotations ≠ [] → OneActive ring') ∧ (rotations = [] → ring' = ring) := by
  induction rotations generalizing ring pairs with
  | nil =>
    obtain rfl := pure_eq_ok.mp hrun
    simpa using h
  | cons r rotations ih =>
    rw [KeyRing.rotateAll, List.foldlM_cons] at hrun
    obtain ⟨next, hrotate, hrun⟩ := bind_eq_ok.mp hrun
    obtain ⟨hkeeps, hone, hsame⟩ := ih (h.rotate hn hrotate) hrun
    refine ⟨by simpa using hkeeps, fun _ => ?_, by simp⟩
    cases rotations with
    | nil => exact hsame rfl ▸ oneActive_rotate hn h.settled hrotate
    | cons _ _ => exact hone (by simp)

/-- What a ring given these keys and rotations should be. -/
structure Sound (nfkc : String → String) (keys : List SigningKey)
    (rotations : List (String × String)) (ring : KeyRing) : Prop where
  one_active : OneActive ring
  never_raises : ∃ key, ring.active = .ok key
  size : ring.keys.entries.length = ((given nfkc keys rotations).map Prod.fst).dedup.length
  kept : ∀ before kid secret after, given nfkc keys rotations = before ++ (kid, secret) :: after →
    kid ∉ after.map Prod.fst → (ring.keys.get? kid).map SigningKey.secret = some secret

theorem active_of_oneActive (h : OneActive ring) : ∃ key, ring.active = .ok key := by
  obtain ⟨kid, key, hget, hactive, -⟩ := Dict.countP_values.mp h
  have hsome : (ring.keys.values.find? SigningKey.isActive).isSome :=
    List.find?_isSome.mpr ⟨key, Dict.mem_values.mpr ⟨kid, hget⟩, hactive⟩
  obtain ⟨found, hfound⟩ := Option.isSome_iff_exists.mp hsome
  exact ⟨found, by simp [KeyRing.active, hfound]⟩

theorem Keeps.size {pairs : List (String × String)} (h : Keeps nfkc pairs ring) :
    ring.keys.entries.length = (pairs.map Prod.fst).dedup.length := by
  refine Dict.length_entries fun kid => ?_
  have hsome : (ring.keys.get? kid).isSome = (pairs.reverse.lookup kid).isSome := by
    rw [← h.secrets, Option.isSome_map]
  rw [Dict.mem_keys, ← Option.isSome_iff_exists, hsome, List.lookup_isSome_iff, List.mem_map]
  constructor
  · rintro ⟨e, he, heq⟩
    exact ⟨e, List.mem_reverse.mp he, (beq_iff_eq.mp heq).symm⟩
  · rintro ⟨e, he, rfl⟩
    exact ⟨e, List.mem_reverse.mpr he, beq_self_eq_true _⟩

theorem Keeps.kept {pairs before after : List (String × String)} (h : Keeps nfkc pairs ring)
    (hsplit : pairs = before ++ (kid, secret) :: after) (hlast : kid ∉ after.map Prod.fst) :
    (ring.keys.get? kid).map SigningKey.secret = some secret := by
  rw [h.secrets]
  refine List.lookup_eq_some_iff.mpr ⟨after.reverse, before.reverse, by simp [hsplit], ?_⟩
  intro e he
  have hne : kid ≠ e.1 := fun heq =>
    hlast (heq ▸ List.mem_map_of_mem (List.mem_reverse.mp he))
  simpa using hne

/-- A ring is sound just when it was rotated, or when the active key it was built with
still stands, no later key of the list having taken its id. -/
theorem ring_sound_iff (hn : NormalForm nfkc) {keys : List SigningKey}
    {rotations : List (String × String)} {built ring : KeyRing}
    (hnew : KeyRing.new nfkc keys = .ok built)
    (hrun : built.rotateAll nfkc rotations = .ok ring) :
    Sound nfkc keys rotations ring ↔ rotations ≠ [] ∨ ActiveStays nfkc keys := by
  have hbuilt := new_ok hnew
  obtain ⟨hkeeps, hrotated, hsame⟩ := rotateAll_ok hn (hbuilt.keeps hn) hrun
  have hgiven : given nfkc keys [] ++ rotations.map (fun r =>
      (cleanText nfkc r.1, cleanText nfkc r.2)) = given nfkc keys rotations := by
    simp [given]
  rw [hgiven] at hkeeps
  have hone : OneActive ring ↔ rotations ≠ [] ∨ ActiveStays nfkc keys := by
    by_cases hnil : rotations = []
    · rw [hsame hnil, hbuilt.oneActive_iff]
      simp [hnil]
    · simp [hnil, hrotated hnil]
  constructor
  · intro h
    exact hone.mp h.one_active
  · intro h
    have hactive := hone.mpr h
    exact ⟨hactive, active_of_oneActive hactive, hkeeps.size, fun _ _ _ _ => hkeeps.kept⟩

def plainSecret (c : Char) : String := String.ofList (List.replicate 32 c)

theorem ring_sound_iff_rotated : ∃ built ring,
    KeyRing.new id [⟨"old", plainSecret 'a', .active⟩] = .ok built ∧
      built.rotateAll id [("new", plainSecret 'b')] = .ok ring ∧
      Sound id [⟨"old", plainSecret 'a', .active⟩] [("new", plainSecret 'b')] ring := by
  obtain ⟨ring, hall⟩ : ∃ ring, (do
      let built ← KeyRing.new id [⟨"old", plainSecret 'a', .active⟩]
      built.rotateAll id [("new", plainSecret 'b')]) = .ok ring := ⟨_, rfl⟩
  obtain ⟨built, hnew, hrun⟩ := bind_eq_ok.mp hall
  exact ⟨built, ring, hnew, hrun, (ring_sound_iff normalForm_id hnew hrun).mpr (.inl (by simp))⟩

/-- A list whose one active key is replaced by a later retired key of the same id is
accepted, and leaves a ring without an active key. -/
theorem active_key_replaced : ∃ ring, KeyRing.new id
      [⟨"k", plainSecret 'a', .active⟩, ⟨"k", plainSecret 'b', .retired⟩] = .ok ring ∧
    ring.active = .error (keyRotationError "«کلید فعال یافت نشد.»" "active-missing") ∧
    ¬ Sound id [⟨"k", plainSecret 'a', .active⟩, ⟨"k", plainSecret 'b', .retired⟩] [] ring := by
  refine ⟨_, rfl, rfl, fun h => ?_⟩
  exact absurd h.one_active (by unfold OneActive; decide)

end Security

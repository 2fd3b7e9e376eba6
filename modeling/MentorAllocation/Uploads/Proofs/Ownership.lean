import MentorAllocation.Concurrency.Requests
import MentorAllocation.Uploads.Proofs.SingleRoster

namespace Uploads
open Concurrency

section
variable {ι : Type} [DecidableEq ι] {trace : List (UploadSystem ι × (ι × Choice))}
  {c : UploadSystem ι}

/-- A step by which a request makes a key its own: it finds the key free and sets it. -/
def Acquires (c : UploadSystem ι) (l : ι × Choice) (key : String) : Prop :=
  (∃ value ex, c.Asks l.1 (.redisSet key value true ex) ∧ 0 < ex) ∧ l.2.delivery = .delivered ∧
    (c.store.expire l.2.expired).redis key = none

/-- A step by which a request deletes a key or overwrites it. -/
def Releases (c : UploadSystem ι) (l : ι × Choice) (key : String) : Prop :=
  c.Asks l.1 (.redisDelete key) ∨ ∃ value ex, c.Asks l.1 (.redisSet key value false ex)

/-- A request deletes or overwrites only an entry that it created. -/
def OwnOnly (c : UploadSystem ι) (l : ι × Choice) : Prop :=
  ∀ key entry, Releases c l key → (c.store.expire l.2.expired).redis key = some entry →
    entry.creator = l.1

/-- The request acquired the key and has not given it up. -/
def Inside (trace : List (UploadSystem ι × (ι × Choice))) (i : ι) (key : String) : Prop :=
  ∃ before step after, trace = before ++ step :: after ∧ step.2.1 = i ∧
    Acquires step.1 step.2 key ∧ ∀ later ∈ after, later.2.1 = i → ¬ Releases later.1 later.2 key

/-- Each request deletes and overwrites its own entries only, and no two are ever inside the
section of one key. -/
def Ownership (trace : List (UploadSystem ι × (ι × Choice))) : Prop :=
  EachStep OwnOnly trace ∧ ∀ before after i j key, trace = before ++ after →
    Inside before i key → Inside before j key → i = j

/-- An entry expires only once the request that created it has ended, and no request finds
the entry of an upload without an id under its key. -/
def Timely (c : UploadSystem ι) (l : ι × Choice) : Prop :=
  (∀ key ∈ l.2.expired, ∀ entry, c.store.redis key = some entry →
    ∃ outcome, c.threads entry.creator = .ret outcome) ∧
  ∀ key entry, c.Asks l.1 (.redisGet key) → c.store.redis key = some entry →
    entry.value ≠ "upload:"

omit [DecidableEq ι] in
theorem inside_snoc {l : ι × Choice} {i : ι} {key : String}
    (h : Inside (trace ++ [(c, l)]) i key) :
    Inside trace i key ∧ (l.1 = i → ¬ Releases c l key) ∨ l.1 = i ∧ Acquires c l key := by
  obtain ⟨before, step, after, heq, hi, hacquires, hlater⟩ := h
  rcases List.eq_nil_or_concat after with rfl | ⟨after, last, rfl⟩
  · obtain ⟨-, hstep⟩ := List.append_inj' heq rfl
    obtain rfl : (c, l) = step := by simpa using hstep
    exact .inr ⟨hi, hacquires⟩
  · rw [List.concat_eq_append, ← List.cons_append, ← List.append_assoc] at heq
    obtain ⟨rfl, hlast⟩ := List.append_inj' heq rfl
    obtain rfl : (c, l) = last := by simpa using hlast
    refine .inl ⟨⟨before, step, after, rfl, hi, hacquires, fun later hmem => ?_⟩, ?_⟩
    · exact hlater later (by simp [hmem])
    · exact hlater (c, l) (by simp)

end

def heldKey : Typestate (Option String) Request Request.Response where
  permits held
    | .redisSet _ _ true _ => held = none
    | .redisSet key _ false _ => held = some key
    | .redisDelete key => held = some key
    | _ => True
  after held
    | .redisSet key _ true _, .ok true => some key
    | .redisSet _ _ false _, .ok _ => none
    | .redisDelete _, _ => none
    | _, _ => held
  possible
    | .redisGet _, .ok (some value) => value ≠ "upload:"
    | _, _ => True

def Request.Keyless : Request → Prop
  | .redisSet .. => False
  | .redisDelete _ => False
  | _ => True

theorem keyless_permitted {held : Option String} (r : Request) (h : r.Keyless) :
    heldKey.permits held r ∧ ∀ x, heldKey.after held r x = held := by
  cases r <;> first | exact absurd h id | exact ⟨trivial, fun x => by cases x <;> rfl⟩

theorem neutral_keyless (r : Request) (h : r.Neutral) : r.Keyless := by
  cases r <;> first | exact trivial | exact h

namespace UploadService
variable {S : UploadService} {α : Type} {held : Option String}

theorem holds_keyless {call : Call α} (h : Program.Asking Request.Keyless call) :
    heldKey.Ends (fun _ held' => held' = held) (fun _ held' => held' = held) call held :=
  (Typestate.follows_of_asking h keyless_permitted).mono fun _ _ hheld =>
    ⟨fun _ _ => hheld, fun _ _ => hheld⟩

theorem holds_neutral {call : Call α} (h : Program.Asking Request.Neutral call) :
    heldKey.Ends (fun _ held' => held' = held) (fun _ held' => held' = held) call held :=
  holds_keyless (h.mono neutral_keyless)

theorem asking_createUpload (context : UploadContext) (clockNow sourceFilename : String) :
    Program.Asking Request.Keyless (createUpload context clockNow sourceFilename) := by
  refine Fallible.asking_bind (asking_perform trivial) fun uploadId => ?_
  refine Fallible.asking_bind (asking_perform trivial) fun _ => ?_
  exact (asking_getRecord uploadId).mono neutral_keyless

/-- A request that holds a key gives it up. -/
theorem holds_delete (key : String) :
    heldKey.Ends (fun _ held' => held' = none) (fun _ held' => held' = none)
      (perform (.redisDelete key)) (some key) :=
  ⟨rfl, fun x _ => by cases x <;> exact ⟨fun _ _ => rfl, fun _ _ => rfl⟩⟩

theorem holds_ttl : heldKey.Ends (fun _ held' => held' = held) (fun _ held' => held' = held)
    S.idempotencyTtlSeconds held := by
  rw [idempotencyTtlSeconds]
  split
  · exact Typestate.Ends.pure rfl
  · exact Typestate.Ends.raise rfl

theorem holds_set {key value : String} {ex : Int} :
    heldKey.Ends (fun (acquired : Bool) held' => held' = if acquired then some key else none)
      (fun _ held' => held' = none) (perform (.redisSet key value true ex)) none := by
  refine ⟨rfl, fun x _ => ?_⟩
  cases x with
  | error e => exact ⟨nofun, fun _ _ => rfl⟩
  | ok acquired =>
    refine ⟨fun acquired' h => ?_, nofun⟩
    obtain rfl := Except.ok.inj h
    cases acquired <;> rfl

theorem holds_get (key : String) :
    heldKey.Ends (fun (existing : Option String) held' => held' = held ∧
        ∀ value, existing = some value → value ≠ "upload:")
      (fun _ held' => held' = held) (perform (.redisGet key)) held := by
  refine ⟨trivial, fun x hx => ?_⟩
  cases x with
  | error e => exact ⟨nofun, fun _ _ => rfl⟩
  | ok existing =>
    refine ⟨fun existing' h => ⟨rfl, ?_⟩, nofun⟩
    obtain rfl := Except.ok.inj h
    rintro value rfl
    exact hx

theorem holds_overwrite {key value : String} {ex : Int} :
    heldKey.Ends (fun _ held' => held' = none) (fun _ held' => held' = some key)
      (perform (.redisSet key value false ex)) (some key) := by
  refine ⟨rfl, fun x _ => ?_⟩
  cases x with
  | error e => exact ⟨nofun, fun _ _ => rfl⟩
  | ok acquired => exact ⟨fun _ _ => rfl, nofun⟩

/-- The key is held, or another upload has its id under it. -/
theorem holds_acquire (context : UploadContext) :
    heldKey.Ends (fun existingId held' =>
        (existingId = none ∧ held' = some (S.idempotencyKey context)) ∨
          (existingId.getD "" ≠ "" ∧ held' = none))
      (fun _ held' => held' = none) (S.acquireIdempotency context) none := by
  refine Typestate.Ends.bind holds_ttl fun ttl held hheld => ?_
  subst hheld
  refine Typestate.Ends.bind holds_set fun acquired held hheld => ?_
  cases acquired with
  | true => exact Typestate.Ends.pure (.inl ⟨rfl, hheld⟩)
  | false =>
    obtain rfl : held = none := hheld
    refine Typestate.Ends.bind (holds_get (S.idempotencyKey context)) fun existing held hget => ?_
    obtain ⟨hnone, hnamed⟩ := hget
    cases existing with
    | none => exact Typestate.Ends.raise hnone
    | some existing =>
      dsimp only
      split
      next hprefix =>
        exact Typestate.Ends.pure (.inr ⟨fun hempty =>
          hnamed existing rfl (nameless_of_isEmpty hprefix hempty), hnone⟩)
      next => exact Typestate.Ends.raise hnone

theorem holds_finalize (redisKey uploadId : String) :
    heldKey.Ends (fun _ held' => held' = none) (fun _ held' => held' = some redisKey)
      (S.finalizeIdempotency redisKey uploadId) (some redisKey) := by
  refine Typestate.Ends.bind holds_ttl fun ttl held hheld => ?_
  subst hheld
  exact Typestate.Ends.bind holds_overwrite fun _ held hheld => Typestate.Ends.pure hheld

theorem holds_registerUpload (context : UploadContext) (fmt redisKey filename : String)
    (stored : String × String × Nat) :
    heldKey.Ends (fun _ held' => held' = none) (fun _ held' => held' = some redisKey)
      (S.registerUpload context fmt redisKey filename stored) (some redisKey) := by
  refine Typestate.Ends.bind (holds_neutral (asking_perform trivial)) fun createdAt held hheld => ?_
  subst hheld
  refine Typestate.Ends.bind (holds_keyless (asking_createUpload context createdAt filename))
    fun record held hheld => ?_
  subst hheld
  refine Typestate.Ends.bind (holds_neutral (asking_perform trivial)) fun data held hheld => ?_
  subst hheld
  refine Typestate.Ends.bind (holds_neutral (asking_ofExcept _)) fun validation held hheld => ?_
  subst hheld
  refine Typestate.Ends.bind (holds_neutral (asking_createManifest record _ _ _ _ _ _))
    fun manifestPath held hheld => ?_
  subst hheld
  refine Typestate.Ends.bind (holds_neutral (asking_perform trivial)) fun updatedAt held hheld => ?_
  subst hheld
  refine Typestate.Ends.bind (holds_keyless (asking_perform trivial)) fun _ held hheld => ?_
  subst hheld
  refine Typestate.Ends.bind (holds_neutral (asking_getRecord record.id))
    fun updated held hheld => ?_
  subst hheld
  exact Typestate.Ends.bind (holds_finalize redisKey updated.id)
    fun _ held hheld => Typestate.Ends.pure hheld

theorem holds_uploadBody (context : UploadContext) (fmt redisKey : String)
    (file : List (List UInt8)) :
    heldKey.Ends (fun _ held' => held' = none) (fun _ held' => held' = some redisKey)
      (S.uploadBody context fmt redisKey file) (some redisKey) := by
  refine Typestate.Ends.bind (holds_neutral (asking_ofExcept _)) fun rawBytes held hheld => ?_
  subst hheld
  refine Typestate.Ends.bind (holds_neutral (asking_ofExcept _)) fun stream held hheld => ?_
  subst hheld
  refine Typestate.Ends.bind (holds_neutral (asking_retry (asking_writeCsv _) _))
    fun stored held hheld => ?_
  subst hheld
  exact holds_registerUpload context fmt redisKey stream.1 stored

/-- An upload holds its key from the step that sets it to the one that gives it up. -/
theorem holds_upload (context : UploadContext) (file : List (List UInt8)) :
    heldKey.Ends (fun _ held' => held' = none) (fun _ held' => held' = none)
      (S.upload context file) none := by
  refine Typestate.Ends.bind (holds_neutral (asking_ofExcept _)) fun fmt held hheld => ?_
  subst hheld
  refine Typestate.Ends.bind (holds_acquire context) fun existingId held hheld => ?_
  rcases hheld with ⟨rfl, rfl⟩ | ⟨hnamed, rfl⟩
  · refine (holds_uploadBody context fmt _ file).handle (fun _ _ hheld => Typestate.Ends.pure hheld)
      fun e held hheld => ?_
    subst hheld
    cases e with
    | upload envelope =>
      exact Typestate.Ends.bind (holds_delete _) fun _ _ hheld => Typestate.Ends.raise hheld
    | _ => exact Typestate.Ends.bind (holds_delete _) fun _ _ hheld => Typestate.Ends.raise hheld
  · rw [if_pos (by simpa using hnamed)]
    exact holds_neutral (asking_getRecord _)

/-- An activation holds its lock likewise. -/
theorem holds_activate (uploadId rid : String) :
    heldKey.Ends (fun _ held' => held' = none) (fun _ held' => held' = none)
      (S.activate uploadId rid) none := by
  refine Typestate.Ends.bind (holds_neutral (asking_getUpload uploadId)) fun record held hheld => ?_
  subst hheld
  refine Typestate.Ends.bind holds_ttl fun ttl held hheld => ?_
  subst hheld
  refine Typestate.Ends.bind holds_set fun acquired held hheld => ?_
  cases acquired with
  | false => exact Typestate.Ends.raise hheld
  | true =>
    obtain rfl : held = some (S.activationLockKey record.year) := hheld
    refine (holds_neutral (asking_activateBody uploadId)).handle (fun _ held hheld => ?_)
      fun _ held hheld => ?_
    · subst hheld
      exact Typestate.Ends.bind (holds_delete _) fun _ _ hheld => Typestate.Ends.pure hheld
    · subst hheld
      exact Typestate.Ends.bind (holds_delete _) fun _ _ hheld => Typestate.Ends.raise hheld

end UploadService

section
variable {ι : Type} [DecidableEq ι] {calls : ι → ServiceCall}
  {trace : List (UploadSystem ι × (ι × Choice))} {c d : UploadSystem ι} {l : ι × Choice}
  {held : ι → Option String} {w : World ι}

def Held (held : ι → Option String) (w : World ι) : Prop :=
  ∀ i key, held i = some key → ∃ entry, w.redis key = some entry ∧ entry.creator = i

/-- Each request follows the typestate and ends with no key. -/
def Following (held : ι → Option String) (c : UploadSystem ι) : Prop :=
  Held held c.store ∧ ∀ i, heldKey.Follows (fun _ held => held = none) (c.threads i) (held i)

omit [DecidableEq ι] in
/-- No key of a running request expires. -/
theorem Following.expire (h : Following held c) (htimely : Timely c l) :
    Held held (c.store.expire l.2.expired) := by
  intro i key hkey
  obtain ⟨entry, hentry, rfl⟩ := h.1 i key hkey
  refine ⟨entry, ?_, rfl⟩
  rw [World.expire]
  dsimp only
  rw [if_neg ?_, hentry]
  intro hexpired
  obtain ⟨outcome, hended⟩ := htimely.1 key (by simpa using hexpired) entry hentry
  have hfollows := h.2 entry.creator
  rw [hended] at hfollows
  have hnone : held entry.creator = none := hfollows
  rw [hkey] at hnone
  cases hnone

theorem Held.release (h : Held held w) (i : ι) : Held (Function.update held i none) w := by
  intro j key hkey
  by_cases hji : j = i
  · rw [hji, Function.update_self] at hkey
    cases hkey
  · rw [Function.update_of_ne hji] at hkey
    exact h j key hkey

omit [DecidableEq ι] in
/-- What has no entry is nobody's. -/
theorem Held.set_free (h : Held held w) {key : String} (hfree : w.redis key = none)
    (entry : Option (Entry ι)) : Held held (w.setKey key entry) := by
  intro j key' hkey
  obtain ⟨entry', hentry, hcreator⟩ := h j key' hkey
  refine ⟨entry', (Function.update_of_ne ?_ ..).trans hentry, hcreator⟩
  rintro rfl
  rw [hfree] at hentry
  cases hentry

theorem Held.acquire (h : Held held w) {key : String} (hfree : w.redis key = none) (i : ι)
    (value : String) :
    Held (Function.update held i (some key)) (w.setKey key (some ⟨value, i⟩)) := by
  intro j key' hkey
  by_cases hji : j = i
  · rw [hji, Function.update_self] at hkey
    obtain rfl := Option.some.inj hkey
    exact ⟨⟨value, i⟩, Function.update_self .., hji.symm⟩
  · rw [Function.update_of_ne hji] at hkey
    exact h.set_free hfree _ j key' hkey

omit [DecidableEq ι] in
theorem Held.creator (h : Held held w) {i j : ι} {key : String} (hi : held i = some key)
    (hj : held j = some key) : i = j := by
  obtain ⟨entry, hentry, rfl⟩ := h i key hi
  obtain ⟨entry', hentry', rfl⟩ := h j key hj
  rw [Option.some.inj (hentry.symm.trans hentry')]

omit [DecidableEq ι] in
theorem Held.overwrite (h : Held held w) {i : ι} {key : String} (hi : held i = some key)
    (value : String) : Held held (w.setKey key (some ⟨value, i⟩)) := by
  intro j key' hkey
  by_cases hsame : key' = key
  · subst hsame
    exact ⟨⟨value, i⟩, Function.update_self .., h.creator hi hkey⟩
  · obtain ⟨entry, hentry, hcreator⟩ := h j key' hkey
    exact ⟨entry, (Function.update_of_ne hsame ..).trans hentry, hcreator⟩

theorem Held.delete (h : Held held w) {i : ι} {key : String} (hi : held i = some key) :
    Held (Function.update held i none) (w.setKey key none) := by
  intro j key' hkey
  by_cases hji : j = i
  · rw [hji, Function.update_self] at hkey
    cases hkey
  · rw [Function.update_of_ne hji] at hkey
    obtain ⟨entry, hentry, hcreator⟩ := h j key' hkey
    refine ⟨entry, (Function.update_of_ne ?_ ..).trans hentry, hcreator⟩
    rintro rfl
    exact hji (h.creator hkey hi)

omit [DecidableEq ι] in
theorem execute_keyless {r : Request} (hr : r.Keyless) (i : ι) (fresh : String) :
    (w.execute i fresh r).2.redis = w.redis := by
  cases r with
  | redisSet key value nx ex => exact absurd hr id
  | redisDelete key => exact absurd hr id
  | append path chunk =>
    simp only [World.execute]
    split <;> rfl
  | unlink path =>
    simp only [World.execute]
    split <;> rfl
  | replace source target =>
    simp only [World.execute]
    split <;> rfl
  | readFile path =>
    simp only [World.execute]
    split <;> rfl
  | insertUpload record =>
    simp only [World.execute, World.insertUpload]
    split <;> rfl
  | updateManifest uploadId sha256 recordCount sizeBytes manifestPath clockNow =>
    simp only [World.execute, World.updateManifest]
    split <;> rfl
  | activate uploadId clockNow =>
    simp only [World.execute, World.activate]
    split
    · rfl
    split
    · rfl
    split <;> rfl
  | _ => rfl

/-- What a permitted request leaves of the keys, answered or not. -/
theorem Held.executed (h : Held held w) {i : ι} {r : Request}
    (hr : heldKey.permits (held i) r) (fresh : String) (e : Failure) :
    Held (Function.update held i (heldKey.after (held i) r (w.execute i fresh r).1))
        (w.execute i fresh r).2 ∧
      Held (Function.update held i (heldKey.after (held i) r (.error e)))
        (w.execute i fresh r).2 := by
  have hself : Function.update held i (held i) = held := Function.update_eq_self i held
  by_cases hkeyless : r.Keyless
  · have hafter : ∀ x, heldKey.after (held i) r x = held i := (keyless_permitted r hkeyless).2
    rw [hafter, hafter, hself]
    have hkept : Held held (w.execute i fresh r).2 := by
      intro j key hkey
      rw [execute_keyless hkeyless]
      exact h j key hkey
    exact ⟨hkept, hkept⟩
  · cases r with
    | redisDelete key => exact ⟨h.delete hr, h.delete hr⟩
    | redisSet key value nx ex =>
      cases nx with
      | true =>
        have hsame : Held (Function.update held i (held i)) w := hself.symm ▸ h
        simp only [World.execute]
        split
        · exact ⟨hsame, hsame⟩
        cases hentry : w.redis key with
        | some entry => exact ⟨hsame, hsame⟩
        | none =>
          refine ⟨h.acquire hentry i value, ?_⟩
          have hkept := h.set_free hentry (some ⟨value, i⟩)
          rw [← hself] at hkept
          exact hkept
      | false =>
        have hsame : Held (Function.update held i (held i)) w := hself.symm ▸ h
        simp only [World.execute]
        split
        · exact ⟨hsame, hsame⟩
        · have hkept := h.overwrite hr value
          refine ⟨hkept.release i, ?_⟩
          rw [← hself] at hkept
          exact hkept
    | _ => exact absurd trivial hkeyless

/-- An answer is possible and keeps to the requests that hold keys. -/
theorem Following.answered (h : Following held c) (htimely : Timely c l) {r : Request}
    {x : r.Response} {s : World ι} (hasks : c.Asks l.1 r) (hr : heldKey.permits (held l.1) r)
    (hanswer : World.answer l.2 l.1 r c.store = some (x, s)) :
    heldKey.possible r x ∧ Held (Function.update held l.1 (heldKey.after (held l.1) r x)) s := by
  have hexpired := h.expire htimely
  have herror : ∀ e, heldKey.possible r (.error e) := by
    intro e
    cases r <;> trivial
  have hexecuted := hexpired.executed hr l.2.fresh
  simp only [World.answer, Option.some.injEq] at hanswer
  cases hd : l.2.delivery with
  | delivered =>
    rw [hd] at hanswer
    obtain ⟨rfl, rfl⟩ := Prod.mk.inj hanswer
    refine ⟨?_, (hexecuted (.other "")).1⟩
    cases r with
    | redisGet key =>
      cases hentry : (c.store.expire l.2.expired).redis key with
      | none =>
        simp only [hentry]
        trivial
      | some entry =>
        have hlive : c.store.redis key = some entry := by
          rw [World.expire] at hentry
          dsimp only at hentry
          split at hentry
          · cases hentry
          · exact hentry
        simp only [hentry]
        exact htimely.2 key entry hasks hlive
    | _ => trivial
  | lost message =>
    rw [hd] at hanswer
    obtain ⟨rfl, rfl⟩ := Prod.mk.inj hanswer
    exact ⟨herror _, (hexecuted _).2⟩
  | refused message =>
    rw [hd] at hanswer
    obtain ⟨rfl, rfl⟩ := Prod.mk.inj hanswer
    refine ⟨herror _, ?_⟩
    have hself := Function.update_eq_self l.1 held
    cases r with
    | redisDelete key => exact hexpired.release l.1
    | redisSet key value nx ex => cases nx <;> exact hself.symm ▸ hexpired
    | _ => exact hself.symm ▸ hexpired

omit [DecidableEq ι] in
/-- A permitted request that neither deletes nor overwrites the key leaves it held. -/
theorem kept_unless_released {own : Option String} {key : String} {r : Request} {x : r.Response}
    (hr : heldKey.permits own r) (hown : own = some key)
    (hkept : ¬ (r = .redisDelete key ∨ ∃ value ex, r = .redisSet key value false ex)) :
    heldKey.after own r x = some key := by
  subst hown
  cases r with
  | redisDelete key' =>
    obtain rfl := Option.some.inj hr
    exact absurd (.inl rfl) hkept
  | redisSet key' value nx ex =>
    cases nx with
    | true => cases hr
    | false =>
      obtain rfl := Option.some.inj hr
      exact absurd (.inr ⟨value, ex, rfl⟩) hkept
  | _ => cases x <;> rfl

theorem Following.step (h : Following held c) (htimely : Timely c l)
    (hstep : UploadSystem.Step c l d) :
    OwnOnly c l ∧ ∃ held', Following held' d ∧
      (∀ i key, held i = some key → (l.1 = i → ¬ Releases c l key) → held' i = some key) ∧
      ∀ key, Acquires c l key → held' l.1 = some key := by
  obtain ⟨r, x, s, hasks, hpermits, hanswer, hheld, hfollows⟩ := Typestate.step_follows
    (J := Held) hstep h.2 fun r x s hasks hpermits hanswer =>
      h.answered htimely hasks hpermits hanswer
  have hasked : ∀ r', c.Asks l.1 r' → r' = r := fun r' hr' => Option.some.inj (hr'.symm.trans hasks)
  refine ⟨?_, _, ⟨hheld, hfollows⟩, ?_, ?_⟩
  · intro key entry hreleases hentry
    have hown : held l.1 = some key := by
      rcases hreleases with hr | ⟨value, ex, hr⟩
      · obtain rfl := hasked _ hr
        exact hpermits
      · obtain rfl := hasked _ hr
        exact hpermits
    obtain ⟨entry', hentry', hcreator⟩ := h.expire htimely l.1 key hown
    rw [Option.some.inj (hentry.symm.trans hentry')]
    exact hcreator
  · intro i key hkey hkept
    by_cases hi : i = l.1
    · subst hi
      rw [Function.update_self]
      refine kept_unless_released hpermits hkey ?_
      rintro (rfl | ⟨value, ex, rfl⟩)
      · exact hkept rfl (.inl hasks)
      · exact hkept rfl (.inr ⟨value, ex, hasks⟩)
    · rw [Function.update_of_ne hi]
      exact hkey
  · rintro key ⟨⟨value, ex, hr, hpositive⟩, hdelivered, hfree⟩
    obtain rfl := hasked _ hr
    rw [Function.update_self]
    simp only [World.answer, hdelivered, World.execute, if_neg (show ¬ ex ≤ 0 by omega), hfree,
      Option.some.injEq] at hanswer
    obtain ⟨rfl, -⟩ := Prod.mk.inj hanswer
    rfl

omit [DecidableEq ι] in
theorem start_following (calls : ι → ServiceCall) :
    Following (fun _ => none) (UploadSystem.start calls) := by
  refine ⟨nofun, fun i => ?_⟩
  have hends : ∀ {call : Call UploadRecord}, heldKey.Ends (fun _ held' => held' = none)
      (fun _ held' => held' = none) call none →
        heldKey.Follows (fun _ held => held = none) call none := by
    intro call hcall
    refine hcall.mono fun x held hx => ?_
    cases x with
    | ok record => exact hx.1 record rfl
    | error e => exact hx.2 e rfl
  show heldKey.Follows _ (calls i).program none
  cases calls i with
  | upload service context file => exact hends (UploadService.holds_upload context file)
  | activate service uploadId rid => exact hends (UploadService.holds_activate uploadId rid)

/-- All along a run each request holds the keys it is inside the sections of. -/
theorem run_following (h : Run UploadSystem.Step (UploadSystem.start calls) trace c)
    (htimely : EachStep Timely trace) :
    EachStep OwnOnly trace ∧ ∃ held, Following held c ∧
      ∀ i key, Inside trace i key → held i = some key := by
  induction h with
  | nil =>
    refine ⟨by simp [EachStep], fun _ => none, start_following calls, ?_⟩
    rintro i key ⟨before, step, after, heq, -⟩
    simp at heq
  | @snoc trace s t l before last ih =>
    obtain ⟨htrace, hlast⟩ := (eachStep_snoc Timely).mp htimely
    obtain ⟨hown, held, hfollowing, hinside⟩ := ih htrace
    obtain ⟨hownLast, held', hfollowing', hkept, hacquired⟩ := hfollowing.step hlast last
    refine ⟨(eachStep_snoc OwnOnly).mpr ⟨hown, hownLast⟩, held', hfollowing', fun i key hi => ?_⟩
    rcases inside_snoc hi with ⟨hi, hunreleased⟩ | ⟨rfl, hacquires⟩
    · exact hkept i key (hinside i key hi) hunreleased
    · exact hacquired key hacquires

/-- Where no entry expires under a running request and each entry names an upload, requests
delete and overwrite their own entries only and are never inside a section together. -/
theorem redis_lock_ownership (h : Run UploadSystem.Step (UploadSystem.start calls) trace c)
    (htimely : EachStep Timely trace) : Ownership trace := by
  refine ⟨(run_following h htimely).1, ?_⟩
  rintro before after i j key rfl hi hj
  obtain ⟨d, hbefore⟩ : ∃ d, Run UploadSystem.Step (UploadSystem.start calls) before d := by
    cases after with
    | nil =>
      rw [List.append_nil] at h
      exact ⟨c, h⟩
    | cons step after => exact ⟨step.1, h.split.1⟩
  obtain ⟨-, held, hfollowing, hinside⟩ := run_following hbefore
    fun step hstep => htimely step (List.mem_append_left after hstep)
  exact hfollowing.1.creator (hinside i key hi) (hinside j key hj)

end

/-- Two uploads with one key, the first with a line feed alone. -/
def rivalUploads : Fin 2 → ServiceCall
  | 0 => .upload sampleService sampleContext [[97, 10]]
  | 1 => .upload sampleService sampleContext [[97, 13, 10]]

def deleting? : Option Request → Option String
  | some (.redisDelete key) => some key
  | _ => none

theorem deleting?_eq_some {asked : Option Request} {key : String} (h : deleting? asked = some key) :
    asked = some (.redisDelete key) := by
  unfold deleting? at h
  split at h
  · rw [Option.some.inj h]
  · cases h

/-- The first upload's entry expires, the second one sets the key, the first one deletes it. -/
theorem rival_entry_deleted : ∃ trace c,
    Run UploadSystem.Step (UploadSystem.start rivalUploads) trace c ∧ ¬ EachStep OwnOnly trace := by
  have hrun : (replay (fun c l => c.next World.answer l) (UploadSystem.start rivalUploads)
      [((0 : Fin 2), {}), (0, { fresh := "1" }), (0, {}),
        (1, { expired := ["uploads:default:ns:idem:key"] })]).map (fun c =>
          (deleting? (c.threads 0).asked?,
            (c.store.redis "uploads:default:ns:idem:key").map Entry.creator,
            (c.next World.answer (0, {})).isSome)) =
      some (some "uploads:default:ns:idem:key", some 1, true) := by
    decide +kernel
  obtain ⟨c, hc, hstate⟩ := Option.map_eq_some_iff.mp hrun
  obtain ⟨hdeletes, hstate⟩ := Prod.mk.inj hstate
  obtain ⟨hcreator, hnext⟩ := Prod.mk.inj hstate
  obtain ⟨d, hd⟩ := Option.isSome_iff_exists.mp hnext
  obtain ⟨entry, hentry, hone⟩ := Option.map_eq_some_iff.mp hcreator
  refine ⟨_, d, (run_of_replay hc).snoc hd, fun hown => ?_⟩
  have hzero := hown (c, (0, {})) (by simp) "uploads:default:ns:idem:key" entry
    (.inl (deleting?_eq_some hdeletes)) (by simpa using hentry)
  rw [hone] at hzero
  cases hzero

inductive Contestant | uploading | repeating | activating
deriving DecidableEq

/-- An upload, another one with its key meanwhile, and an activation. -/
def contestedCalls : Contestant → ServiceCall
  | .uploading => .upload sampleService sampleContext [[97, 13, 10]]
  | .repeating => .upload sampleService sampleContext [[97, 13, 10]]
  | .activating => .activate sampleService "1" "RID-2"

/-- The entry of the first upload expires once it has ended. -/
def contestedOrder : List (Contestant × Choice) :=
  ([(.uploading, {}), (.repeating, {}), (.repeating, {})].append
    (List.replicate 17 (.uploading, { fresh := "1" }))).append
      [(.activating, {}), (.activating, {}), (.activating, { fresh := "now" }), (.activating, {}),
        (.activating, {}), (.activating, { expired := ["uploads:default:ns:idem:key"] })]

def timely? {ι : Type} (c : UploadSystem ι) (i : ι) (ch : Choice) : Bool :=
  (ch.expired.all fun key => match c.store.redis key with
    | none => true
    | some entry => (c.threads entry.creator).result?.isSome) &&
  match (c.threads i).asked? with
    | some (.redisGet key) => match c.store.redis key with
      | none => true
      | some entry => entry.value != "upload:"
    | _ => true

theorem timely_of_timely? {ι : Type} {c : UploadSystem ι} {l : ι × Choice}
    (h : timely? c l.1 l.2 = true) : Timely c l := by
  rw [timely?, Bool.and_eq_true, List.all_eq_true] at h
  refine ⟨fun key hkey entry hentry => ?_, fun key entry hasks hentry => ?_⟩
  · have hended := h.1 key hkey
    rw [hentry] at hended
    obtain ⟨outcome, houtcome⟩ := Option.isSome_iff_exists.mp hended
    exact ⟨outcome, Program.result?_eq_some.mp houtcome⟩
  · have hnamed := h.2
    rw [hasks] at hnamed
    simp only [hentry] at hnamed
    simpa using hnamed

theorem redis_lock_ownership_contested : ∃ trace c,
    Run UploadSystem.Step (UploadSystem.start contestedCalls) trace c ∧
    c.store.activeRosters = [⟨1402, "1", "now"⟩] ∧ (∀ i, (c.threads i).result? ≠ none) ∧
    Ownership trace := by
  have hrun : (replay (fun c l => c.next World.answer l) (UploadSystem.start contestedCalls)
      contestedOrder).map (fun c => (c.store.activeRosters,
        (c.threads .uploading).result?.isSome && (c.threads .repeating).result?.isSome &&
          (c.threads .activating).result?.isSome)) = some ([⟨1402, "1", "now"⟩], true) := by
    decide +kernel
  have htimely : (trail (fun c l => c.next World.answer l) (UploadSystem.start contestedCalls)
      contestedOrder).all (fun p => timely? p.1 p.2.1 p.2.2) = true := by
    decide +kernel
  obtain ⟨c, hc, hstate⟩ := Option.map_eq_some_iff.mp hrun
  obtain ⟨hrosters, hended⟩ := Prod.mk.inj hstate
  refine ⟨_, c, run_of_replay hc, hrosters, ?_, redis_lock_ownership (run_of_replay hc)
    (eachStep_of_all htimely fun _ _ => timely_of_timely?)⟩
  simp only [Bool.and_eq_true, Option.isSome_iff_ne_none] at hended
  intro i
  cases i with
  | uploading => exact hended.1.1
  | repeating => exact hended.1.2
  | activating => exact hended.2

/-- A service as the program builds it: its configuration is an `UploadsConfig`. -/
def UploadService.Configured (S : UploadService) : Prop :=
  ∃ config : UploadsConfig, S.config = config.serviceConfig

def Request.Reads : Request → Prop
  | .getUpload _ => True
  | _ => False

namespace UploadService
variable {S : UploadService}

theorem Configured.ttl (h : S.Configured) : S.idempotencyTtlSeconds = Fallible.raise
    (.attribute "'UploadsConfig' object has no attribute 'idempotency_ttl_seconds'") := by
  obtain ⟨config, hconfig⟩ := h
  rw [idempotencyTtlSeconds, hconfig]
  rfl

/-- An upload ends before its first request: in the check of the format, or where the
time to live is read. -/
theorem Configured.upload_eq (h : S.Configured) (context : UploadContext)
    (file : List (List UInt8)) : S.upload context file = Fallible.raise
      (match detectFormat context.filename with
      | .error e => e
      | .ok _ =>
        .attribute "'UploadsConfig' object has no attribute 'idempotency_ttl_seconds'") := by
  cases hformat : detectFormat context.filename with
  | error e => simp only [upload, hformat]; rfl
  | ok fmt => simp only [upload, hformat, acquireIdempotency, h.ttl]; rfl

theorem Configured.asking_upload (h : S.Configured) (context : UploadContext)
    (file : List (List UInt8)) : Program.Asking Request.Reads (S.upload context file) := by
  rw [h.upload_eq]
  trivial

/-- An activation ends once it has read its upload. -/
theorem Configured.asking_activate (h : S.Configured) (uploadId rid : String) :
    Program.Asking Request.Reads (S.activate uploadId rid) := by
  refine Fallible.asking_bind ?_ fun record => ?_
  · refine Fallible.asking_handle ?_ (fun _ => trivial) fun e => ?_
    · refine Fallible.asking_bind (asking_perform trivial) fun record => ?_
      cases record <;> trivial
    · cases e <;> trivial
  · rw [h.ttl]
    trivial

end UploadService

theorem asking_reads {call : ServiceCall} (h : call.service.Configured) :
    Program.Asking Request.Reads call.program := by
  cases call with
  | upload service context file =>
    exact UploadService.Configured.asking_upload h context file
  | activate service uploadId rid =>
    exact UploadService.Configured.asking_activate h uploadId rid

/-- With the configuration that the program has no request gets past the missing
`idempotency_ttl_seconds`: none ever reaches Redis, the files or a transaction. -/
theorem configured_untouched {ι : Type} [DecidableEq ι] {calls : ι → ServiceCall}
    {trace : List (UploadSystem ι × (ι × Choice))} {c : UploadSystem ι}
    (hcalls : ∀ i, (calls i).service.Configured)
    (h : Run UploadSystem.Step (UploadSystem.start calls) trace c) :
    Throughout (fun c => c.store = World.empty) trace c := by
  refine Config.run_keeps (I := fun w => w = World.empty) h rfl
    (fun i => asking_reads (hcalls i)) ?_
  rintro ch i r s x t hr rfl hanswer
  cases r with
  | getUpload uploadId =>
    have hexpired : (World.empty : World ι).expire ch.expired = World.empty := by
      simp [World.expire, World.empty]
    simp only [World.answer, hexpired, World.execute, Option.some.injEq] at hanswer
    split at hanswer <;> exact (Prod.mk.inj hanswer).2.symm
  | _ => exact absurd hr id

end Uploads

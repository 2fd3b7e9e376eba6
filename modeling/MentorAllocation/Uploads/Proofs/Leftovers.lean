import Mathlib.Data.Set.Finite.Basic
import Mathlib.Data.Finite.Prod
import MentorAllocation.Uploads.Proofs.Undisturbed

namespace Uploads
open Concurrency

/-- Surroundings in which a request may fail, before or after it is carried out. -/
def World.faulty {ι : Type} (i : ι) (ch : String × Delivery) (r : Request) (w : World ι) :
    Option (r.Response × World ι) :=
  World.answer { fresh := ch.1, delivery := ch.2 } i r w

namespace UploadService
variable (S : UploadService)

section
variable {S} {ι α : Type} {w v t : World ι} {i : ι} {r : Request}

theorem faulty_cases {y : r.Response}
    (h : Program.Reaches (World.faulty i) (perform r) v y t) :
    (∃ text, v.execute i text r = (y, t)) ∨ ∃ message, y = .error (.other message) := by
  obtain ⟨⟨text, delivery⟩, x, u, hanswer, rfl, rfl⟩ := h
  rw [World.faulty, World.answer, World.expire_nil] at hanswer
  cases delivery with
  | delivered => exact .inl ⟨text, Option.some.inj hanswer⟩
  | lost message => exact .inr ⟨message, (Prod.mk.inj (Option.some.inj hanswer)).1.symm⟩
  | refused message => exact .inr ⟨message, (Prod.mk.inj (Option.some.inj hanswer)).1.symm⟩

/-- A request that is carried out. -/
theorem faulty_delivered {f : r.Result → Call α} {a : r.Result} {u : World ι}
    {x : Except Failure α} (text : String) (hexecute : v.execute i text r = (.ok a, u))
    (h : Program.Reaches (World.faulty i) (f a) u x t) :
    Program.Reaches (World.faulty i) (perform r >>= f : Call α) v x t := by
  refine Fallible.reaches_bind.mpr (.inl ⟨a, u, ⟨⟨text, .delivered⟩, _, _, ?_, rfl, rfl⟩, h⟩)
  rw [World.faulty, World.answer, World.expire_nil]
  exact congrArg some hexecute

/-- A request that is not carried out. -/
theorem faulty_refused (r : Request) (f : r.Result → Call α) (v : World ι) :
    Program.Reaches (World.faulty i) (perform r >>= f : Call α) v (.error (.other "")) v := by
  refine Fallible.reaches_bind.mpr (.inr ⟨_, rfl, ⟨"", .refused ""⟩, _, _, ?_, rfl, rfl⟩)
  rw [World.faulty, World.answer, World.expire_nil]

theorem faulty_of_undisturbed {S : UploadService} {p : Call α} {x : Except Failure α}
    (h : Program.Reaches (S.undisturbed w i) p v x t) :
    Program.Reaches (World.faulty i) p v x t :=
  h.weaken fun fresh _ _ _ _ hanswer => ⟨⟨fresh.1, .delivered⟩, hanswer⟩

/-- The loop of `_write_csv` and what follows it may fail at the next request. -/
theorem writeChunks_fails (tempPath : String) (chunks : Chunks)
    {f : List UInt8 → Call α} (hf : ∀ data, ∃ e, Program.Reaches (World.faulty i) (f data) v
      (.error e) v) : ∃ e, Program.Reaches (World.faulty i)
        (S.writeChunks tempPath chunks [] none >>= f : Call α) v (.error e) v := by
  cases chunks with
  | nil => exact hf []
  | cons chunk chunks =>
    cases chunk with
    | error e => exact ⟨e, rfl, rfl⟩
    | ok chunk =>
      rw [writeChunks]
      split
      · exact ⟨_, Fallible.reaches_raised (Fallible.reaches_raised
          (faulty_refused (.pathExists tempPath) _ v))⟩
      · cases validateCrlf chunk none with
        | error e => exact ⟨e, rfl, rfl⟩
        | ok last =>
          exact ⟨_, Fallible.reaches_raised (faulty_refused (.append tempPath chunk) _ v)⟩

theorem writeCsv_fails (S : UploadService) (chunks : Chunks) (v : World ι) (temp : String) :
    ∃ e, Program.Reaches (World.faulty i) (S.writeCsv chunks) v (.error e)
      (v.setFile (S.tempPath temp) (some (.bytes []))) := by
  obtain ⟨e, h⟩ := writeChunks_fails (S := S) (i := i)
    (v := v.setFile (S.tempPath temp) (some (.bytes []))) (S.tempPath temp) chunks
    (f := fun data => S.finalize (S.sha256 data) (S.tempPath temp) >>= fun path =>
      pure (S.sha256 data, path, data.length)) fun data =>
      ⟨_, Fallible.reaches_raised (faulty_refused (.pathExists _) _ _)⟩
  refine ⟨e, faulty_delivered (r := .uuid4) temp rfl ?_⟩
  exact faulty_delivered (r := .create (S.tempPath temp)) "" rfl h

theorem retryLoop_fails (S : UploadService) (chunks : Chunks) (v : World ι) (left : Nat) :
    ∃ e, Program.Reaches (World.faulty i) (retryLoop (S.writeCsv chunks) left) v (.error e) v := by
  induction left with
  | zero => exact ⟨_, rfl, rfl⟩
  | succ left ih =>
    obtain ⟨e, hrest⟩ := ih
    exact ⟨e, Fallible.reaches_handle.mpr (.inr ⟨_, _, faulty_refused .uuid4 _ v, hrest⟩)⟩

/-- An upload that begins to store its file may fail with a temporary file left behind. -/
theorem uploadBody_fails {context : UploadContext} {fmt filename : String}
    {file : List (List UInt8)} {chunks : Chunks} (redisKey : String)
    (hformat : detectFormat context.filename = .ok fmt)
    (hstream : S.stream context file = .ok (filename, chunks))
    (hattempts : 0 < S.config.retryAttempts) (v : World ι) (temp : String) :
    ∃ e, Program.Reaches (World.faulty i) (S.uploadBody context fmt redisKey file) v (.error e)
      (v.setFile (S.tempPath temp) (some (.bytes []))) := by
  obtain ⟨left, hleft⟩ : ∃ left, S.config.retryAttempts.toNat = left + 1 :=
    ⟨S.config.retryAttempts.toNat - 1, by omega⟩
  rw [uploadBody_stored hformat hstream, retry, if_neg (by omega), hleft]
  obtain ⟨e, hfirst⟩ := writeCsv_fails (i := i) S chunks v temp
  obtain ⟨e', hrest⟩ := retryLoop_fails (i := i) S chunks
    (v.setFile (S.tempPath temp) (some (.bytes []))) left
  cases e with
  | upload envelope =>
    exact ⟨_, Fallible.reaches_bind.mpr (.inr ⟨_, rfl, Fallible.reaches_handle.mpr
      (.inr ⟨_, _, hfirst, rfl, rfl⟩)⟩)⟩
  | _ =>
    exact ⟨e', Fallible.reaches_bind.mpr (.inr ⟨e', rfl, Fallible.reaches_handle.mpr
      (.inr ⟨_, _, hfirst, hrest⟩)⟩)⟩

end

def reported : Failure → ErrorEnvelope
  | .upload envelope => envelope
  | _ => UploadErrorName.internalError.base

theorem giveUp_eq (redisKey : String) (e : Failure) : giveUp redisKey e = (do
    perform (.redisDelete redisKey)
    Fallible.raise (.upload (reported e)) : Call UploadRecord) := by
  cases e <;> rfl

section
variable {S} {context : UploadContext} {file : List (List UInt8)} {fmt : String}

theorem upload_eq (hformat : detectFormat context.filename = .ok fmt) :
    S.upload context file = (S.acquireIdempotency context >>= fun existingId =>
      if !(existingId.getD "").isEmpty then getRecord (existingId.getD "")
      else Fallible.handle (S.uploadBody context fmt (S.idempotencyKey context) file) pure
        (giveUp (S.idempotencyKey context)) : Call UploadRecord) := by
  rw [upload, hformat]
  rfl

variable {ι : Type} {w v t : World ι} {i : ι}

/-- What becomes of the request for the key. -/
theorem setKey_cases {redisKey value : String} {ttl : Int} {y : Except Failure Bool}
    (h : Program.Reaches (World.faulty i) (perform (.redisSet redisKey value true ttl)) w y t) :
    (∃ message, y = .error (.other message)) ∨
    (0 < ttl ∧ w.redis redisKey = none ∧ y = .ok true ∧
      t = w.setKey redisKey (some ⟨value, i⟩)) ∨
    ∃ entry, 0 < ttl ∧ w.redis redisKey = some entry ∧ y = .ok false ∧ t = w := by
  rcases faulty_cases h with ⟨text, hexecute⟩ | herror
  · rw [World.execute] at hexecute
    split at hexecute
    · exact .inl ⟨_, (Prod.mk.inj hexecute).1.symm⟩
    next hpositive =>
    have hpositive : 0 < ttl := by omega
    cases hentry : w.redis redisKey with
    | none =>
      rw [hentry] at hexecute
      obtain ⟨rfl, rfl⟩ := Prod.mk.inj hexecute
      exact .inr (.inl ⟨hpositive, rfl, rfl, rfl⟩)
    | some entry =>
      rw [hentry] at hexecute
      obtain ⟨rfl, rfl⟩ := Prod.mk.inj hexecute
      exact .inr (.inr ⟨entry, hpositive, rfl, rfl, rfl⟩)
  · exact .inl herror

/-- What the call for the key may end in, when requests may fail. -/
theorem acquire_cases {x : Except Failure (Option String)}
    (h : Program.Reaches (World.faulty i) (S.acquireIdempotency context) w x t) :
    (∃ e, x = .error e ∧ ∀ envelope, e ≠ .upload envelope) ∨
    (∃ ttl, S.config.idempotencyTtlSeconds = some ttl ∧ 0 < ttl ∧
      w.redis (S.idempotencyKey context) = none ∧ x = .ok none ∧
      t = w.setKey (S.idempotencyKey context) (some ⟨"pending:" ++ context.rid, i⟩)) ∨
    ∃ ttl entry, S.config.idempotencyTtlSeconds = some ttl ∧ 0 < ttl ∧
      w.redis (S.idempotencyKey context) = some entry ∧ t = w ∧
      ∀ existingId, x = .ok existingId → existingId.getD "" = "" → entry.value = "upload:" := by
  rw [acquireIdempotency, idempotencyTtlSeconds] at h
  cases httl : S.config.idempotencyTtlSeconds with
  | none =>
    rw [httl] at h
    exact .inl ⟨_, h.1, by simp⟩
  | some ttl =>
    rw [httl] at h
    have h : Program.Reaches (World.faulty i) (perform (.redisSet (S.idempotencyKey context)
        ("pending:" ++ context.rid) true ttl) >>= _ : Call (Option String)) w x t := h
    rcases Fallible.reaches_bind.mp h with ⟨acquired, u, hset, hrest⟩ | ⟨e, rfl, hset⟩
    · rcases setKey_cases hset with ⟨message, hy⟩ | ⟨hpositive, hfree, hy, rfl⟩ |
        ⟨entry, hpositive, hentry, hy, rfl⟩
      · cases hy
      · obtain rfl := Except.ok.inj hy
        exact .inr (.inl ⟨ttl, rfl, hpositive, hfree, hrest.1, hrest.2⟩)
      · obtain rfl := Except.ok.inj hy
        rcases Fallible.reaches_bind.mp hrest with ⟨existing, u, hget, hrest⟩ | ⟨e, rfl, hget⟩
        · rcases faulty_cases hget with ⟨text, hexecute⟩ | ⟨message, hy⟩
          · rw [World.execute, hentry] at hexecute
            obtain ⟨hvalue, rfl⟩ := Prod.mk.inj hexecute
            obtain rfl := Except.ok.inj hvalue
            simp only [Option.map_some] at hrest
            split at hrest
            next hprefix =>
              obtain ⟨rfl, rfl⟩ := hrest
              refine .inr (.inr ⟨ttl, entry, rfl, hpositive, hentry, rfl, ?_⟩)
              rintro existingId hid hempty
              obtain rfl := Except.ok.inj hid
              exact nameless_of_isEmpty hprefix hempty
            next =>
              obtain ⟨rfl, rfl⟩ := hrest
              refine .inr (.inr ⟨ttl, entry, rfl, hpositive, hentry, rfl, ?_⟩)
              rintro existingId hid
              cases hid
          · cases hy
        · rcases faulty_cases hget with ⟨text, hexecute⟩ | ⟨message, hy⟩
          · cases (Prod.mk.inj hexecute).1
          · exact .inl ⟨e, rfl, by simp [Except.error.inj hy]⟩
    · rcases setKey_cases hset with ⟨message, hy⟩ | ⟨-, -, hy, -⟩ | ⟨-, -, -, hy, -⟩
      · exact .inl ⟨e, rfl, by simp [Except.error.inj hy]⟩
      · cases hy
      · cases hy

variable (S context file) in
/-- Whatever the surroundings make of it, an upload that ends in `UploadError` has changed
nothing. -/
def LeavesNothing {χ : Type}
    (answer : χ → (r : Request) → World ι → Option (r.Response × World ι)) (w : World ι) : Prop :=
  ∀ envelope t, Program.Reaches answer (S.upload context file) w (.error (.upload envelope)) t →
    t = w

variable (S context file) in
/-- The upload ends before it stores anything: its format is unknown, it has no time to live
to give a key, its key is taken, or its bytes cannot be read. -/
def EndsBeforeStorage (w : World ι) : Prop :=
  (∃ e, detectFormat context.filename = .error e) ∨
  (∀ ttl, S.config.idempotencyTtlSeconds = some ttl → ttl ≤ 0) ∨
  (∃ entry, w.redis (S.idempotencyKey context) = some entry ∧ entry.value ≠ "upload:") ∨
  w.redis (S.idempotencyKey context) = none ∧
    (S.config.retryAttempts ≤ 0 ∨ ∃ e, S.stream context file = .error e)

variable (S context file) in
/-- The chunks grow too large before they are found faulty, or they are stored and the file
under their digest is in order. -/
def StoresOrAborts (w : World ι) : Prop :=
  0 < S.config.retryAttempts ∧ ∃ filename chunks, S.stream context file = .ok (filename, chunks) ∧
    match S.ending chunks [] none with
    | .written data => S.Validates ((w.files (S.pathForDigest (S.sha256 data))).or
        (some (.bytes data)))
    | .aborted => w.redis (S.idempotencyKey context) = none
    | .stopped _ _ => False

variable (S context file) in
/-- Its key is another's, or it stores its file. -/
def Begins (w : World ι) : Prop :=
  (∃ entry, w.redis (S.idempotencyKey context) = some entry ∧ entry.value = "upload:") ∨
    w.redis (S.idempotencyKey context) = none ∧ 0 < S.config.retryAttempts ∧
      ∃ filename chunks, S.stream context file = .ok (filename, chunks)

theorem not_endsBeforeStorage (h : ¬ S.EndsBeforeStorage context file w) :
    ∃ fmt ttl, detectFormat context.filename = .ok fmt ∧
      S.config.idempotencyTtlSeconds = some ttl ∧ 0 < ttl ∧ S.Begins context file w := by
  simp only [EndsBeforeStorage, not_or, not_exists, not_forall, not_and, not_not, not_le] at h
  obtain ⟨hformat, ⟨ttl, httl, hpositive⟩, hnamed, hfree⟩ := h
  cases hfmt : detectFormat context.filename with
  | error e => exact absurd hfmt (hformat e)
  | ok fmt =>
    refine ⟨fmt, ttl, rfl, httl, hpositive, ?_⟩
    cases hentry : w.redis (S.idempotencyKey context) with
    | some entry => exact .inl ⟨entry, hentry, hnamed entry hentry⟩
    | none =>
      obtain ⟨hattempts, hstream⟩ := hfree hentry
      cases hs : S.stream context file with
      | error e => exact absurd hs (hstream e)
      | ok stream => exact .inr ⟨hentry, hattempts, stream.1, stream.2, hs⟩

theorem giveUp_cases {redisKey : String} {e : Failure} {envelope : ErrorEnvelope}
    (h : Program.Reaches (World.faulty i) (giveUp redisKey e) w (.error (.upload envelope)) t) :
    t = w.setKey redisKey none := by
  rw [giveUp_eq] at h
  rcases Fallible.reaches_bind.mp h with ⟨_, u, hdelete, hrest⟩ | ⟨e', he, hdelete⟩
  · rcases faulty_cases hdelete with ⟨text, hexecute⟩ | ⟨message, hy⟩
    · obtain ⟨-, rfl⟩ := Prod.mk.inj hexecute
      exact hrest.2
    · cases hy
  · obtain rfl := Except.error.inj he
    rcases faulty_cases hdelete with ⟨text, hexecute⟩ | ⟨message, hy⟩
    · cases (Prod.mk.inj hexecute).1
    · cases hy

theorem getRecord_cases {uploadId : String} {envelope : ErrorEnvelope} :
    ¬ Program.Reaches (World.faulty i) (getRecord uploadId) w (.error (.upload envelope)) t := by
  intro h
  rcases Fallible.reaches_bind.mp h with ⟨record, u, hget, hrest⟩ | ⟨e, he, hget⟩
  · cases record with
    | none => cases hrest.1
    | some record => cases hrest.1
  · obtain rfl := Except.error.inj he
    rcases faulty_cases hget with ⟨text, hexecute⟩ | ⟨message, hy⟩
    · cases (Prod.mk.inj hexecute).1
    · cases hy

/-- What an upload that ends in `UploadError` has done, in surroundings that do no more than
fail. -/
theorem upload_cases {χ : Type}
    {answer : χ → (r : Request) → World ι → Option (r.Response × World ι)}
    (hfaulty : ∀ ch r s x u, answer ch r s = some (x, u) →
      ∃ ch', World.faulty i ch' r s = some (x, u))
    (hformat : detectFormat context.filename = .ok fmt) {envelope : ErrorEnvelope}
    (h : Program.Reaches answer (S.upload context file) w (.error (.upload envelope)) t) :
    (t = w ∧ ∃ entry, w.redis (S.idempotencyKey context) = some entry) ∨
    ∃ ttl u e v, S.config.idempotencyTtlSeconds = some ttl ∧ 0 < ttl ∧
      (w.redis (S.idempotencyKey context) = none ∧
          u = w.setKey (S.idempotencyKey context) (some ⟨"pending:" ++ context.rid, i⟩) ∨
        (∃ entry, w.redis (S.idempotencyKey context) = some entry ∧ entry.value = "upload:") ∧
          u = w) ∧
      Program.Reaches answer
        (S.uploadBody context fmt (S.idempotencyKey context) file) u (.error e) v ∧
      t = v.setKey (S.idempotencyKey context) none := by
  rw [upload_eq hformat] at h
  rcases Fallible.reaches_bind.mp h with ⟨existingId, u, hacquire, hrest⟩ | ⟨e, he, hacquire⟩
  · by_cases hempty : existingId.getD "" = ""
    · rw [hempty] at hrest
      rcases Fallible.reaches_handle.mp hrest with ⟨record, v, -, hpure⟩ | ⟨e, v, hbody, hgiveUp⟩
      · cases hpure.1
      · have ht := giveUp_cases (hgiveUp.weaken hfaulty)
        rcases acquire_cases (hacquire.weaken hfaulty) with ⟨e, hy, -⟩ |
          ⟨ttl, httl, hpositive, hfree, -, rfl⟩ | ⟨ttl, entry, httl, hpositive, hentry, rfl, hnamed⟩
        · cases hy
        · exact .inr ⟨ttl, _, e, v, httl, hpositive, .inl ⟨hfree, rfl⟩, hbody, ht⟩
        · exact .inr ⟨ttl, _, e, v, httl, hpositive,
            .inr ⟨⟨entry, hentry, hnamed _ rfl hempty⟩, rfl⟩, hbody, ht⟩
    · have hnot : (!(existingId.getD "").isEmpty) = true := by simpa using hempty
      rw [if_pos hnot] at hrest
      exact absurd (hrest.weaken hfaulty) getRecord_cases
  · obtain rfl := Except.error.inj he
    rcases acquire_cases (hacquire.weaken hfaulty) with ⟨e, hy, hno⟩ | ⟨-, -, -, -, hy, -⟩ |
      ⟨ttl, entry, httl, hpositive, hentry, rfl, -⟩
    · exact absurd (Except.error.inj hy).symm (hno envelope)
    · cases hy
    · exact .inl ⟨rfl, entry, hentry⟩

theorem endsBeforeStorage_leavesNothing (h : S.EndsBeforeStorage context file w) :
    S.LeavesNothing context file (World.faulty i) w := by
  intro envelope t hreaches
  cases hformat : detectFormat context.filename with
  | error e =>
    rw [upload, hformat] at hreaches
    exact hreaches.2
  | ok fmt =>
    rcases upload_cases (fun ch _ _ _ _ hanswer => ⟨ch, hanswer⟩) hformat hreaches with
      ⟨rfl, -⟩ | ⟨ttl, u, e, v, httl, hpositive, hheld, hbody, rfl⟩
    · rfl
    · rcases h with ⟨e, he⟩ | hnever | ⟨entry, hentry, hnamed⟩ | ⟨hfree, hfails⟩
      · rw [hformat] at he
        cases he
      · exact absurd (hnever ttl httl) (by omega)
      · rcases hheld with ⟨hfree, -⟩ | ⟨⟨entry', hentry', hvalue⟩, -⟩
        · rw [hfree] at hentry
          cases hentry
        · obtain rfl := Option.some.inj (hentry.symm.trans hentry')
          exact absurd hvalue hnamed
      · rcases hheld with ⟨-, rfl⟩ | ⟨⟨entry, hentry, -⟩, -⟩
        · obtain ⟨e', hraises⟩ := uploadBody_raises (S.idempotencyKey context)
            hformat hfails
          rw [hraises] at hbody
          obtain ⟨-, rfl⟩ := hbody
          simp [World.setKey, ← hfree]
        · rw [hfree] at hentry
          cases hentry

theorem format_of_stream {stream : String × Chunks} (h : S.stream context file = .ok stream) :
    ∃ fmt, detectFormat context.filename = .ok fmt := by
  cases hformat : detectFormat context.filename with
  | ok fmt => exact ⟨fmt, rfl⟩
  | error e =>
    rw [UploadService.stream, hformat] at h
    cases h

theorem storesOrAborts_leavesNothing [Nonempty (S.Fresh w)] (h : S.StoresOrAborts context file w) :
    S.LeavesNothing context file (S.undisturbed w i) w := by
  intro envelope t hreaches
  obtain ⟨hattempts, filename, chunks, hstream, hending⟩ := h
  obtain ⟨fmt, hformat⟩ := format_of_stream hstream
  rcases upload_cases (fun fresh _ _ _ _ hanswer => ⟨⟨fresh.1, .delivered⟩, hanswer⟩) hformat
      hreaches with ⟨rfl, -⟩ | ⟨ttl, u, e, v, httl, hpositive, hheld, hbody, rfl⟩
  · rfl
  cases hchunks : S.ending chunks [] none with
  | stopped e data =>
    rw [hchunks] at hending
    exact hending.elim
  | aborted =>
    rw [hchunks] at hending
    obtain ⟨fresh, -, rfl⟩ := (uploadBody_aborted hformat hstream hattempts hchunks).mp hbody
    rcases hheld with ⟨hfree, rfl⟩ | ⟨⟨entry, hentry, -⟩, -⟩
    · simp [World.setKey, World.setFile, ← hfree, ← fresh.2.2]
    · rw [hending] at hentry
      cases hentry
  | written data =>
    have hvalid : S.Validates ((w.files (S.pathForDigest (S.sha256 data))).or
        (some (.bytes data))) := by
      rw [hchunks] at hending
      exact hending
    obtain ⟨fresh, hregister⟩ := (uploadBody_written hformat hstream hattempts hchunks).mp hbody
    have hkept : u.files = w.files ∧ u.uploads = w.uploads := by
      rcases hheld with ⟨-, rfl⟩ | ⟨-, rfl⟩ <;> exact ⟨rfl, rfl⟩
    have huploads : (S.finalized u fresh.1 (S.sha256 data) data).uploads = w.uploads := by
      rw [finalized]
      split <;> exact hkept.2
    rw [← hkept.1, ← finalized_target u fresh.1] at hvalid
    obtain ⟨record, hrecord⟩ := registerUpload_succeeds httl hpositive huploads hvalid hregister
    cases hrecord

/-- An upload whose body fails after it has left something. -/
theorem not_leavesNothing {χ : Type}
    {answer : χ → (r : Request) → World ι → Option (r.Response × World ι)}
    (hformat : detectFormat context.filename = .ok fmt) {existingId : Option String}
    {u v : World ι} {e : Failure}
    (hacquire : Program.Reaches answer (S.acquireIdempotency context) w (.ok existingId) u)
    (hempty : existingId.getD "" = "")
    (hbody : Program.Reaches answer (S.uploadBody context fmt (S.idempotencyKey context) file) u
      (.error e) v)
    (hdelete : Program.Reaches answer (perform (.redisDelete (S.idempotencyKey context))) v (.ok ())
      (v.setKey (S.idempotencyKey context) none))
    (hleft : (∃ entry, w.redis (S.idempotencyKey context) = some entry) ∨
      v.files ≠ w.files ∨ v.uploads ≠ w.uploads) :
    ¬ S.LeavesNothing context file answer w := by
  intro hnothing
  have hreaches : Program.Reaches answer (S.upload context file) w (.error (.upload (reported e)))
      (v.setKey (S.idempotencyKey context) none) := by
    rw [upload_eq hformat]
    refine Fallible.reaches_bind.mpr (.inl ⟨existingId, u, hacquire, ?_⟩)
    rw [hempty]
    refine Fallible.reaches_handle.mpr (.inr ⟨e, v, hbody, ?_⟩)
    rw [giveUp_eq]
    exact Fallible.reaches_bind.mpr (.inl ⟨(), _, hdelete, rfl, rfl⟩)
  have hsame := hnothing _ _ hreaches
  rcases hleft with ⟨entry, hentry⟩ | hfiles | huploads
  · rw [← hsame] at hentry
    simp [World.setKey] at hentry
  · apply hfiles
    rw [← hsame]
    rfl
  · apply huploads
    rw [← hsame]
    rfl

theorem acquires_free [Nonempty (S.Fresh w)] {ttl : Int}
    (httl : S.config.idempotencyTtlSeconds = some ttl) (hpositive : 0 < ttl)
    (hfree : w.redis (S.idempotencyKey context) = none) :
    Program.Reaches (S.undisturbed w i) (S.acquireIdempotency context) w (.ok none)
      (w.setKey (S.idempotencyKey context) (some ⟨"pending:" ++ context.rid, i⟩)) := by
  have hset : ∀ text, w.execute i text (.redisSet (S.idempotencyKey context)
      ("pending:" ++ context.rid) true ttl) = (.ok true,
        w.setKey (S.idempotencyKey context) (some ⟨"pending:" ++ context.rid, i⟩)) := by
    intro text
    rw [World.execute, if_neg (by omega), hfree]
    rfl
  rw [acquireIdempotency, idempotencyTtlSeconds, httl]
  exact (reaches_bind_ok (.redisSet _ _ true ttl) true hset).mpr ⟨rfl, rfl⟩

/-- The entry of an upload without an id passes for no upload at all. -/
theorem acquires_nameless [Nonempty (S.Fresh w)] {ttl : Int}
    (httl : S.config.idempotencyTtlSeconds = some ttl) (hpositive : 0 < ttl) {entry : Entry ι}
    (hentry : w.redis (S.idempotencyKey context) = some entry) (hvalue : entry.value = "upload:") :
    Program.Reaches (S.undisturbed w i) (S.acquireIdempotency context) w (.ok (some "")) w := by
  have hset : ∀ text, w.execute i text (.redisSet (S.idempotencyKey context)
      ("pending:" ++ context.rid) true ttl) = (.ok false, w) := by
    intro text
    rw [World.execute, if_neg (by omega), hentry]
    rfl
  have hget : ∀ text, w.execute i text (.redisGet (S.idempotencyKey context)) =
      (.ok (some "upload:"), w) := by
    intro text
    rw [World.execute, hentry, ← hvalue]
    rfl
  rw [acquireIdempotency, idempotencyTtlSeconds, httl]
  refine (reaches_bind_ok (.redisSet _ _ true ttl) false hset).mpr ?_
  refine (reaches_bind_ok (.redisGet _) (some "upload:") hget).mpr ?_
  have hprefix : "upload:".startsWith "upload:" = true := by
    simp
  dsimp only
  rw [if_pos hprefix]
  exact ⟨rfl, rfl⟩

theorem undisturbed_delete [Nonempty (S.Fresh w)] (redisKey : String) (v : World ι) :
    Program.Reaches (S.undisturbed w i) (perform (.redisDelete redisKey)) v (.ok ())
      (v.setKey redisKey none) :=
  reaches_perform.mpr ⟨Classical.choice ‹_›, rfl⟩

/-- A body that raises at once, or its stream. -/
theorem stream_cases (S : UploadService) (context : UploadContext) (file : List (List UInt8)) :
    (S.config.retryAttempts ≤ 0 ∨ ∃ e, S.stream context file = .error e) ∨
      0 < S.config.retryAttempts ∧ ∃ filename chunks,
        S.stream context file = .ok (filename, chunks) := by
  cases hstream : S.stream context file with
  | error e => exact .inl (.inr ⟨e, rfl⟩)
  | ok stream =>
    by_cases hattempts : 0 < S.config.retryAttempts
    · exact .inr ⟨hattempts, stream.1, stream.2, rfl⟩
    · exact .inl (.inl (by omega))

theorem Begins.entry_of_raises (h : S.Begins context file w)
    (hfails : S.config.retryAttempts ≤ 0 ∨ ∃ e, S.stream context file = .error e) :
    ∃ entry, w.redis (S.idempotencyKey context) = some entry := by
  rcases h with ⟨entry, hentry, -⟩ | ⟨-, hattempts, filename, chunks, hstream⟩
  · exact ⟨entry, hentry⟩
  · rcases hfails with hnever | ⟨e, he⟩
    · omega
    · rw [hstream] at he
      cases he

theorem uploadBody_leaves [hfresh : Nonempty (S.Fresh w)]
    (hformat : detectFormat context.filename = .ok fmt) (hbegins : S.Begins context file w)
    (hlate : ¬ S.StoresOrAborts context file w) {u : World ι} (hfiles : u.files = w.files)
    (huploads : u.uploads = w.uploads) :
    ∃ e v, Program.Reaches (S.undisturbed w i)
        (S.uploadBody context fmt (S.idempotencyKey context) file) u (.error e) v ∧
      ((∃ entry, w.redis (S.idempotencyKey context) = some entry) ∨
        v.files ≠ w.files ∨ v.uploads ≠ w.uploads) := by
  rcases stream_cases S context file with hfails | ⟨hattempts, filename, chunks, hstream⟩
  · obtain ⟨e, hraises⟩ := uploadBody_raises (S.idempotencyKey context) hformat hfails
    rw [hraises]
    exact ⟨e, u, ⟨rfl, rfl⟩, .inl (hbegins.entry_of_raises hfails)⟩
  have fresh := Classical.choice hfresh
  cases hchunks : S.ending chunks [] none with
  | aborted =>
    have hheld : w.redis (S.idempotencyKey context) ≠ none := by
      intro hfree
      refine hlate ⟨hattempts, filename, chunks, hstream, ?_⟩
      rw [hchunks]
      exact hfree
    exact ⟨_, _, (uploadBody_aborted hformat hstream hattempts hchunks).mpr ⟨fresh, rfl, rfl⟩,
      .inl (Option.ne_none_iff_exists'.mp hheld)⟩
  | stopped e data =>
    obtain ⟨e', hbody⟩ := uploadBody_stopped (v := u) (i := i) hformat hstream hattempts
      (S.idempotencyKey context) hchunks fresh
    refine ⟨e', _, hbody, .inr (.inl ?_)⟩
    intro hsame
    have htemp := congrFun hsame (S.tempPath fresh.1)
    rw [World.setFile_same, fresh.2.2] at htemp
    cases htemp
  | written data =>
    have hinvalid : ¬ S.Validates ((S.finalized u fresh.1 (S.sha256 data) data).files
        (S.pathForDigest (S.sha256 data))) := by
      intro hvalid
      rw [finalized_target, hfiles] at hvalid
      refine hlate ⟨hattempts, filename, chunks, hstream, ?_⟩
      rw [hchunks]
      exact hvalid
    have hkept : (S.finalized u fresh.1 (S.sha256 data) data).uploads = w.uploads := by
      rw [finalized]
      split <;> exact huploads
    obtain ⟨e, t, hregister, hleft⟩ := registerUpload_leaves (i := i) hkept hinvalid
    exact ⟨e, t, (uploadBody_written hformat hstream hattempts hchunks).mpr ⟨fresh, hregister⟩,
      .inr (.inr hleft)⟩

/-- Where nothing fails but the upload itself. -/
theorem undisturbed_leaves [Nonempty (S.Fresh w)] (hearly : ¬ S.EndsBeforeStorage context file w)
    (hlate : ¬ S.StoresOrAborts context file w) :
    ¬ S.LeavesNothing context file (S.undisturbed w i) w := by
  obtain ⟨fmt, ttl, hformat, httl, hpositive, hbegins⟩ := not_endsBeforeStorage hearly
  rcases id hbegins with ⟨entry, hentry, hvalue⟩ | ⟨hfree, -⟩
  · obtain ⟨e, v, hbody, hleft⟩ := uploadBody_leaves (i := i) hformat hbegins hlate rfl rfl
    exact not_leavesNothing hformat (acquires_nameless httl hpositive hentry hvalue) rfl hbody
      (undisturbed_delete _ v) hleft
  · obtain ⟨e, v, hbody, hleft⟩ := uploadBody_leaves (i := i)
      (u := w.setKey (S.idempotencyKey context) (some ⟨"pending:" ++ context.rid, i⟩))
      hformat hbegins hlate rfl rfl
    exact not_leavesNothing hformat (acquires_free httl hpositive hfree) rfl hbody
      (undisturbed_delete _ v) hleft

/-- Where any request may fail. -/
theorem faulty_leaves [hfresh : Nonempty (S.Fresh w)]
    (hearly : ¬ S.EndsBeforeStorage context file w) :
    ¬ S.LeavesNothing context file (World.faulty i) w := by
  obtain ⟨fmt, ttl, hformat, httl, hpositive, hbegins⟩ := not_endsBeforeStorage hearly
  have hbody : ∀ u : World ι, ∃ e v, Program.Reaches (World.faulty i)
      (S.uploadBody context fmt (S.idempotencyKey context) file) u (.error e) v ∧
      ((∃ entry, w.redis (S.idempotencyKey context) = some entry) ∨
        v.files ≠ w.files ∨ v.uploads ≠ w.uploads) := by
    intro u
    rcases stream_cases S context file with hfails | ⟨hattempts, filename, chunks, hstream⟩
    · obtain ⟨e, hraises⟩ := uploadBody_raises (S.idempotencyKey context) hformat hfails
      rw [hraises]
      exact ⟨e, u, ⟨rfl, rfl⟩, .inl (hbegins.entry_of_raises hfails)⟩
    · obtain ⟨fresh⟩ := hfresh
      obtain ⟨e, hbody⟩ := uploadBody_fails (i := i) (S.idempotencyKey context) hformat hstream
        hattempts u fresh.1
      refine ⟨e, _, hbody, .inr (.inl ?_)⟩
      intro hsame
      have htemp := congrFun hsame (S.tempPath fresh.1)
      rw [World.setFile_same, fresh.2.2] at htemp
      cases htemp
  have hdelete : ∀ v : World ι, Program.Reaches (World.faulty i)
      (perform (.redisDelete (S.idempotencyKey context))) v (.ok ())
        (v.setKey (S.idempotencyKey context) none) :=
    fun v => faulty_of_undisturbed (S := S) (undisturbed_delete (w := w) _ v)
  rcases id hbegins with ⟨entry, hentry, hvalue⟩ | ⟨hfree, -⟩
  · obtain ⟨e, v, hbody, hleft⟩ := hbody w
    exact not_leavesNothing hformat
      (faulty_of_undisturbed (acquires_nameless httl hpositive hentry hvalue)) rfl hbody
      (hdelete v) hleft
  · obtain ⟨e, v, hbody, hleft⟩ :=
      hbody (w.setKey (S.idempotencyKey context) (some ⟨"pending:" ++ context.rid, i⟩))
    exact not_leavesNothing hformat
      (faulty_of_undisturbed (acquires_free httl hpositive hfree)) rfl hbody (hdelete v) hleft

end

end UploadService

structure World.Bounded {ι : Type} (w : World ι) : Prop where
  files : { path | w.files path ≠ none }.Finite
  uploads : { uploadId | w.uploads uploadId ≠ none }.Finite

section
variable {ι : Type} {w t : World ι}

theorem finite_update {β : Type} {f : String → Option β} (h : { a | f a ≠ none }.Finite)
    (a : String)
    (b : Option β) : { a' | Function.update f a b a' ≠ none }.Finite := by
  refine (h.insert a).subset fun a' ha' => ?_
  by_cases heq : a' = a
  · exact .inl heq
  · rw [Set.mem_ofPred_eq, Function.update_of_ne heq] at ha'
    exact .inr ha'

namespace World

theorem Bounded.setFile (h : w.Bounded) (path : String) (content : Option Content) :
    (w.setFile path content).Bounded := ⟨finite_update h.files path content, h.uploads⟩

theorem Bounded.setUpload (h : w.Bounded) (record : UploadRecord) :
    (w.setUpload record).Bounded := ⟨h.files, finite_update h.uploads record.id (some record)⟩

theorem Bounded.congr (h : w.Bounded) (hfiles : t.files = w.files)
    (huploads : t.uploads = w.uploads) :
    t.Bounded := by
  obtain ⟨hf, hu⟩ := h
  rw [← hfiles] at hf
  rw [← huploads] at hu
  exact ⟨hf, hu⟩

theorem Bounded.commit (h : w.Bounded) {result : Except Failure (World ι)}
    (hresult : ∀ t, result = .ok t → t.Bounded) : (w.commit result).2.Bounded := by
  cases result with
  | error e => exact h
  | ok t => exact hresult t rfl

theorem Bounded.execute (h : w.Bounded) (i : ι) (fresh : String) (r : Request) :
    (w.execute i fresh r).2.Bounded := by
  cases r with
  | redisSet key value nx ex =>
    simp only [World.execute]
    split
    · exact h
    · split
      · exact h
      · exact h.congr rfl rfl
  | redisGet key => exact h
  | redisDelete key => exact h.congr rfl rfl
  | uuid4 => exact h
  | now => exact h
  | pathExists path => exact h
  | create path => exact h.setFile path _
  | append path chunk =>
    simp only [World.execute]
    split
    · exact h.setFile path _
    · exact h
  | dump path manifest => exact h.setFile path _
  | unlink path =>
    simp only [World.execute]
    split
    · exact h.setFile path _
    · exact h
  | replace source target =>
    simp only [World.execute]
    split
    · exact (h.setFile source _).setFile target _
    · exact h
  | readFile path =>
    simp only [World.execute]
    split <;> exact h
  | insertUpload record =>
    refine h.commit fun t ht => ?_
    rw [insertUpload] at ht
    split at ht
    · cases ht
    · obtain rfl := Except.ok.inj ht
      exact h.setUpload record
  | getUpload uploadId => exact h
  | updateManifest uploadId sha256 recordCount sizeBytes manifestPath clockNow =>
    refine h.commit fun t ht => ?_
    rw [updateManifest] at ht
    split at ht
    · cases ht
    · obtain rfl := Except.ok.inj ht
      exact h.setUpload _
  | activate uploadId clockNow =>
    refine h.commit fun t ht => ?_
    rw [activate] at ht
    split at ht
    · cases ht
    split at ht
    · cases ht
    split at ht
    · cases ht
    obtain rfl := Except.ok.inj ht
    exact (h.setUpload _).congr rfl rfl

end World

/-- There is a text for `uuid4` to return that nothing bears yet. -/
theorem World.Bounded.fresh (h : w.Bounded) (S : UploadService) : Nonempty (S.Fresh w) := by
  have hfiles : (Set.preimage S.tempPath { path | w.files path ≠ none }).Finite :=
    h.files.preimage (S.tempPath_injective.injOn)
  obtain ⟨temp, htemp⟩ := (h.uploads.union hfiles).exists_notMem
  rw [Set.mem_union, not_or] at htemp
  exact ⟨⟨temp, by simpa using htemp.1, by simpa using htemp.2⟩⟩

theorem reachable_bounded [DecidableEq ι] {calls : ι → ServiceCall}
    {trace : List (UploadSystem ι × (ι × Choice))} {c : UploadSystem ι}
    (h : Run UploadSystem.Step (UploadSystem.start calls) trace c) : c.store.Bounded := by
  have hstart : (UploadSystem.start calls).store.Bounded := by
    constructor <;> simp [UploadSystem.start, World.empty]
  refine (h.invariant (I := fun c => c.store.Bounded) (C := fun _ _ => True) hstart ?_
    fun _ _ => trivial).2
  intro c l d hc _ hstep
  obtain ⟨r, rest, x, s, -, hanswer, rfl⟩ := Config.step_cases hstep
  have hexpired : (c.store.expire l.2.expired).Bounded := hc.congr rfl rfl
  simp only [World.answer, Option.some.injEq] at hanswer
  split at hanswer
  · rw [← (Prod.mk.inj hanswer).2]
    exact hexpired
  · rw [← (Prod.mk.inj hanswer).2]
    exact hexpired.execute _ _ _
  · rw [← (Prod.mk.inj hanswer).2]
    exact hexpired.execute _ _ _

end

/-- Where every request is carried out, an upload that fails leaves nothing behind exactly if
it ends before it stores anything, gives up a stream that is too large, or stores a file that
is in order; where requests may fail, exactly if it ends before it stores anything. -/
theorem failed_upload_leaves_nothing_iff {ι : Type} [DecidableEq ι] {calls : ι → ServiceCall}
    {trace : List (UploadSystem ι × (ι × Choice))} {c : UploadSystem ι}
    (h : Run UploadSystem.Step (UploadSystem.start calls) trace c) (S : UploadService)
    (context : UploadContext) (file : List (List UInt8)) (i : ι) :
    (S.LeavesNothing context file (S.undisturbed c.store i) c.store ↔
      S.EndsBeforeStorage context file c.store ∨ S.StoresOrAborts context file c.store) ∧
    (S.LeavesNothing context file (World.faulty i) c.store ↔
      S.EndsBeforeStorage context file c.store) := by
  have hfresh := (reachable_bounded h).fresh S
  have hearly : S.EndsBeforeStorage context file c.store →
      S.LeavesNothing context file (World.faulty i) c.store :=
    UploadService.endsBeforeStorage_leavesNothing
  refine ⟨⟨fun hnothing => ?_, ?_⟩, fun hnothing => ?_, hearly⟩
  · by_contra hnot
    rw [not_or] at hnot
    exact UploadService.undisturbed_leaves hnot.1 hnot.2 hnothing
  · rintro (h | h)
    · intro envelope t hreaches
      exact hearly h envelope t (UploadService.faulty_of_undisturbed hreaches)
    · exact UploadService.storesOrAborts_leavesNothing h
  · by_contra hnot
    exact UploadService.faulty_leaves hnot hnothing

/-- A line feed alone ends the upload with its temporary file left. -/
theorem bare_line_feed_leaves_part : ¬ sampleService.LeavesNothing sampleContext [[97, 10]]
    (sampleService.undisturbed World.empty ()) World.empty := by
  let fresh : sampleService.Fresh (World.empty : World Unit) := ⟨"1", rfl, rfl⟩
  have halone : ((sampleService.upload sampleContext [[97, 10]]).alone
      (sampleService.undisturbed World.empty () fresh) World.empty).map (fun xt =>
        (match xt.1 with
          | .ok _ => none
          | .error e => some e, (xt.2.files "storage/tmp/1.csv.part").isSome)) =
      some (some (uploadError .validationError [("reason", "CRLF_REQUIRED")]), true) := by
    decide +kernel
  obtain ⟨⟨x, t⟩, halone, hends⟩ := Option.map_eq_some_iff.mp halone
  obtain ⟨hraised, hleft⟩ := Prod.mk.inj hends
  intro hnothing
  cases x with
  | ok record => cases hraised
  | error e =>
    obtain rfl := Option.some.inj hraised
    obtain rfl := hnothing _ t (Program.reaches_of_alone fresh halone)
    cases hleft

def otherContext : UploadContext := { sampleContext with idempotencyKey := "other" }

/-- Once an upload is stored, another one with its key leaves nothing, whatever fails, while one
with a line feed alone does. -/
theorem failed_upload_leaves_nothing_stored : ∃ trace c,
    Run UploadSystem.Step (UploadSystem.start sampleCalls) trace c ∧
    c.store.redis (sampleService.idempotencyKey sampleContext) ≠ none ∧
    sampleService.LeavesNothing sampleContext [[97, 10]] (World.faulty 1) c.store ∧
    ¬ sampleService.LeavesNothing otherContext [[97, 10]]
      (sampleService.undisturbed c.store 1) c.store := by
  have hrun : (replay (fun c l => c.next World.answer l) (UploadSystem.start sampleCalls)
      sampleOrder).map (fun c =>
        ((c.store.redis (sampleService.idempotencyKey sampleContext)).map Entry.value,
          (c.store.redis (sampleService.idempotencyKey otherContext)).isNone)) =
      some (some "upload:1", true) := by
    decide +kernel
  obtain ⟨c, hc, hkeys⟩ := Option.map_eq_some_iff.mp hrun
  obtain ⟨hheld, hfree⟩ := Prod.mk.inj hkeys
  obtain ⟨entry, hentry, hvalue⟩ := Option.map_eq_some_iff.mp hheld
  refine ⟨_, c, run_of_replay hc, by simp [hentry], ?_, ?_⟩
  · refine (failed_upload_leaves_nothing_iff (run_of_replay hc) _ _ _ _).2.mpr ?_
    refine .inr (.inr (.inl ⟨entry, hentry, ?_⟩))
    rw [hvalue]
    decide
  · refine mt (failed_upload_leaves_nothing_iff (run_of_replay hc) _ _ _ _).1.mp ?_
    have hformat : UploadService.detectFormat otherContext.filename = .ok "csv" := by
      decide +kernel
    have hstream : sampleService.stream otherContext [[97, 10]] =
        .ok ("upload.csv", [.ok [97, 10]]) := by
      rw [UploadService.stream, hformat]
      rfl
    rintro ((⟨e, he⟩ | hnever | ⟨entry, hentry, -⟩ | ⟨-, hattempts | ⟨e, he⟩⟩) |
      ⟨-, filename, chunks, hchunks, hending⟩)
    · rw [hformat] at he
      cases he
    · exact absurd (hnever 60 rfl) (by decide)
    · rw [Option.isNone_iff_eq_none.mp hfree] at hentry
      cases hentry
    · exact absurd hattempts (by decide)
    · rw [hstream] at he
      cases he
    · obtain ⟨rfl, rfl⟩ := Prod.mk.inj (Except.ok.inj (hstream.symm.trans hchunks))
      exact hending

end Uploads

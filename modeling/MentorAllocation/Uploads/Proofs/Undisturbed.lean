import MentorAllocation.Concurrency.Outcomes
import MentorAllocation.Uploads.Proofs.SingleRoster

namespace Uploads
open Concurrency

namespace World
variable {ι : Type} {w v t : World ι} {path other : String} {content : Option Content}

@[simp] theorem setFile_setFile (w : World ι) (path : String) (content content' : Option Content) :
    (w.setFile path content).setFile path content' = w.setFile path content' := by
  simp [setFile]

@[simp] theorem setFile_same (w : World ι) (path : String) (content : Option Content) :
    (w.setFile path content).files path = content := Function.update_self ..

theorem setFile_other (h : other ≠ path) (w : World ι) (content : Option Content) :
    (w.setFile path content).files other = w.files other := Function.update_of_ne h ..

end World

namespace UploadService
variable (S : UploadService)

def tempPath (temp : String) : String := S.config.storageDir ++ "/tmp/" ++ temp ++ ".csv.part"

theorem tempPath_ne (temp digest : String) : S.pathForDigest digest ≠ S.tempPath temp := by
  intro h
  have hlists := congrArg String.toList h
  simp [pathForDigest, tempPath] at hlists

theorem tempPath_injective : Function.Injective S.tempPath := by
  intro first second h
  have hlists := congrArg String.toList h
  simpa [tempPath, String.toList_inj] using hlists

end UploadService

/-- Texts that name neither an upload nor a temporary file. -/
abbrev UploadService.Fresh {ι : Type} (S : UploadService) (w : World ι) : Type :=
  { temp : String // w.uploads temp = none ∧ w.files (S.tempPath temp) = none }

/-- Surroundings that carry out each request, where `uuid4` is new to `w`. -/
def UploadService.undisturbed {ι : Type} (S : UploadService) (w : World ι) (i : ι)
    (fresh : S.Fresh w) (r : Request) (v : World ι) : Option (r.Response × World ι) :=
  World.answer { fresh := fresh.1 } i r v

section
variable {ι α : Type} {S : UploadService} {w v t : World ι} {i : ι} {r : Request}
  {x : Except Failure α} {f : r.Result → Call α}

theorem reaches_perform {y : r.Response} :
    Program.Reaches (S.undisturbed w i) (perform r) v y t ↔
      ∃ fresh : S.Fresh w, v.execute i fresh.1 r = (y, t) := by
  simp only [perform, Program.reaches_ask, UploadService.undisturbed, World.answer,
    World.expire_nil, Option.some.injEq]
  constructor
  · rintro ⟨fresh, y, u, hexecute, rfl, rfl⟩
    exact ⟨fresh, hexecute⟩
  · rintro ⟨fresh, hexecute⟩
    exact ⟨fresh, y, t, hexecute, rfl, rfl⟩

theorem reaches_bind_fresh (r : Request) (a : String → r.Result) {u : World ι}
    {f : r.Result → Call α}
    (h : ∀ fresh, v.execute i fresh r = (.ok (a fresh), u)) :
    Program.Reaches (S.undisturbed w i) (perform r >>= f : Call α) v x t ↔
      ∃ fresh : S.Fresh w, Program.Reaches (S.undisturbed w i) (f (a fresh.1)) u x t := by
  rw [Fallible.reaches_bind]
  simp only [reaches_perform, h, Prod.mk.injEq, Except.ok.injEq, reduceCtorEq, false_and]
  constructor
  · rintro (⟨_, _, ⟨fresh, rfl, rfl⟩, hrest⟩ | ⟨e, -, fresh, hfalse⟩)
    · exact ⟨fresh, hrest⟩
    · exact hfalse.elim
  · rintro ⟨fresh, hrest⟩
    exact .inl ⟨_, _, ⟨fresh, rfl, rfl⟩, hrest⟩

/-- A request whose answer no choice changes. -/
theorem reaches_bind_ok [Nonempty (S.Fresh w)] (r : Request) (a : r.Result) {u : World ι}
    {f : r.Result → Call α}
    (h : ∀ fresh, v.execute i fresh r = (.ok a, u)) :
    Program.Reaches (S.undisturbed w i) (perform r >>= f : Call α) v x t ↔
      Program.Reaches (S.undisturbed w i) (f a) u x t := by
  rw [reaches_bind_fresh r (fun _ => a) h, exists_const]

theorem reaches_bind_error [Nonempty (S.Fresh w)] {e : Failure} {u : World ι}
    (h : ∀ fresh, v.execute i fresh r = (.error e, u)) :
    Program.Reaches (S.undisturbed w i) (perform r >>= f : Call α) v x t ↔
      x = .error e ∧ t = u := by
  rw [Fallible.reaches_bind]
  simp only [reaches_perform, h, Prod.mk.injEq, Except.error.injEq, reduceCtorEq, false_and]
  simp [eq_comm]

end

namespace UploadService
variable (S : UploadService)

/-- How the loop of `_write_csv` ends, and what it leaves in the temporary file. -/
inductive Ending where
  | written (data : List UInt8)
  | aborted
  | stopped (e : Failure) (data : List UInt8)

/-- The loop of `_write_csv` where every write succeeds. -/
def ending : Chunks → List UInt8 → Option UInt8 → Ending
  | [], data, _ => .written data
  | .error e :: _, data, _ => .stopped e data
  | .ok chunk :: chunks, data, last =>
    if S.config.maxUploadBytes < (data ++ chunk).length then .aborted
    else match validateCrlf chunk last with
      | .error e => .stopped e data
      | .ok last => ending chunks (data ++ chunk) last

section
variable {S} {ι : Type} {w v t : World ι} {i : ι} [Nonempty (S.Fresh w)]

theorem reaches_abort (v : World ι) (tempPath : String) (data : List UInt8)
    (x : Except Failure Unit) (t : World ι) :
    Program.Reaches (S.undisturbed w i) (abort tempPath)
        (v.setFile tempPath (some (.bytes data))) x t ↔
      x = .ok () ∧ t = v.setFile tempPath none := by
  have hfound : ∀ fresh, (v.setFile tempPath (some (.bytes data))).execute i fresh
      (.pathExists tempPath) = (.ok true, v.setFile tempPath (some (.bytes data))) := by
    intro fresh
    simp [World.execute]
  have hunlink : ∀ fresh, (v.setFile tempPath (some (.bytes data))).execute i fresh
      (.unlink tempPath) = (.ok (), v.setFile tempPath none) := by
    intro fresh
    simp [World.execute]
  refine (reaches_bind_ok (.pathExists tempPath) true hfound).trans (reaches_perform.trans ?_)
  simp only [hunlink, exists_const]
  exact Prod.mk_inj.trans (and_congr eq_comm eq_comm)

theorem reaches_writeChunks (v : World ι) (tempPath : String) (chunks : Chunks)
    (data : List UInt8) (last : Option UInt8) {x : Except Failure (List UInt8)} :
    Program.Reaches (S.undisturbed w i) (S.writeChunks tempPath chunks data last)
        (v.setFile tempPath (some (.bytes data))) x t ↔
      match S.ending chunks data last with
      | .written all => x = .ok all ∧ t = v.setFile tempPath (some (.bytes all))
      | .aborted => x = .error (uploadError .sizeExceeded) ∧ t = v.setFile tempPath none
      | .stopped e all => x = .error e ∧ t = v.setFile tempPath (some (.bytes all)) := by
  induction chunks generalizing data last with
  | nil => exact Iff.rfl
  | cons chunk chunks ih =>
    cases chunk with
    | error e => exact Iff.rfl
    | ok chunk =>
      rw [writeChunks, ending]
      split
      · exact Fallible.reaches_bind_ok (reaches_abort v tempPath data)
      · cases validateCrlf chunk last with
        | error e => exact Iff.rfl
        | ok last =>
          have happend : ∀ fresh, (v.setFile tempPath (some (.bytes data))).execute i fresh
              (.append tempPath chunk) =
                (.ok (), v.setFile tempPath (some (.bytes (data ++ chunk)))) := by
            intro fresh
            simp [World.execute]
          exact (reaches_bind_ok (.append tempPath chunk) () happend).trans
            (ih (data ++ chunk) last)

/-- The files once the temporary one has taken its place, or has been given up for what
stands there. -/
def finalized (S : UploadService) (v : World ι) (temp digest : String) (data : List UInt8) :
    World ι :=
  if (v.files (S.pathForDigest digest)).isSome then v.setFile (S.tempPath temp) none
  else (v.setFile (S.tempPath temp) none).setFile (S.pathForDigest digest) (some (.bytes data))

theorem reaches_finalize (v : World ι) (temp digest : String) (data : List UInt8)
    (x : Except Failure String) (t : World ι) :
    Program.Reaches (S.undisturbed w i) (S.finalize digest (S.tempPath temp))
        (v.setFile (S.tempPath temp) (some (.bytes data))) x t ↔
      x = .ok (S.pathForDigest digest) ∧ t = S.finalized v temp digest data := by
  have hexists : ∀ fresh, (v.setFile (S.tempPath temp) (some (.bytes data))).execute i fresh
      (.pathExists (S.pathForDigest digest)) = (.ok (v.files (S.pathForDigest digest)).isSome,
        v.setFile (S.tempPath temp) (some (.bytes data))) := by
    intro fresh
    rw [← World.setFile_other (S.tempPath_ne temp digest) v (some (.bytes data))]
    rfl
  refine (reaches_bind_ok (.pathExists (S.pathForDigest digest)) _ hexists).trans ?_
  rw [finalized]
  cases (v.files (S.pathForDigest digest)).isSome with
  | true => exact Fallible.reaches_bind_ok (reaches_abort v (S.tempPath temp) data)
  | false =>
    have hreplace : ∀ fresh, (v.setFile (S.tempPath temp) (some (.bytes data))).execute i fresh
        (.replace (S.tempPath temp) (S.pathForDigest digest)) =
          (.ok (), (v.setFile (S.tempPath temp) none).setFile (S.pathForDigest digest)
            (some (.bytes data))) := by
      intro fresh
      simp [World.execute]
    exact reaches_bind_ok (.replace (S.tempPath temp) (S.pathForDigest digest)) () hreplace

theorem reaches_writeCsv (v : World ι) (chunks : Chunks)
    (x : Except Failure (String × String × Nat))
    (t : World ι) :
    Program.Reaches (S.undisturbed w i) (S.writeCsv chunks) v x t ↔
      ∃ fresh : S.Fresh w, match S.ending chunks [] none with
      | .written data =>
        x = .ok (S.sha256 data, S.pathForDigest (S.sha256 data), data.length) ∧
          t = S.finalized v fresh.1 (S.sha256 data) data
      | .aborted =>
        x = .error (uploadError .sizeExceeded) ∧ t = v.setFile (S.tempPath fresh.1) none
      | .stopped e data =>
        x = .error e ∧ t = v.setFile (S.tempPath fresh.1) (some (.bytes data)) := by
  refine (reaches_bind_fresh .uuid4 (fun fresh => fresh) fun _ => rfl).trans ?_
  refine exists_congr fun fresh => ?_
  refine (reaches_bind_ok (.create (S.tempPath fresh.1)) () fun _ => rfl).trans ?_
  have hloop := fun x t => reaches_writeChunks (S := S) (w := w) (i := i) (x := x) (t := t) v
    (S.tempPath fresh.1) chunks [] none
  cases hending : S.ending chunks [] none with
  | written data =>
    simp only [hending] at hloop
    refine (Fallible.reaches_bind_ok hloop).trans ?_
    exact Fallible.reaches_bind_ok (reaches_finalize v fresh.1 (S.sha256 data) data)
  | aborted =>
    simp only [hending] at hloop
    exact Fallible.reaches_bind_error hloop
  | stopped e data =>
    simp only [hending] at hloop
    exact Fallible.reaches_bind_error hloop

/-- The attempts that are left end as the first one does, unless it stops in an exception
other than `UploadError`. -/
theorem reaches_retry (v : World ι) (chunks : Chunks) {attempts : Int} (hattempts : 0 < attempts)
    (hending : ∀ e data, S.ending chunks [] none ≠ .stopped e data)
    (x : Except Failure (String × String × Nat)) (t : World ι) :
    Program.Reaches (S.undisturbed w i) (retry (S.writeCsv chunks) attempts) v x t ↔
      Program.Reaches (S.undisturbed w i) (S.writeCsv chunks) v x t := by
  obtain ⟨left, hleft⟩ : ∃ left, attempts.toNat = left + 1 := ⟨attempts.toNat - 1, by omega⟩
  rw [retry, if_neg (by omega), hleft, retryLoop, Fallible.reaches_handle]
  constructor
  · rintro (⟨a, u, hcall, rfl, rfl⟩ | ⟨e, u, hcall, h⟩)
    · exact hcall
    · obtain ⟨fresh, hresult⟩ := (reaches_writeCsv v chunks _ _).mp hcall
      cases hchunks : S.ending chunks [] none with
      | stopped e data => exact absurd hchunks (hending e data)
      | written data =>
        rw [hchunks] at hresult
        cases hresult.1
      | aborted =>
        simp only [hchunks, Except.error.injEq] at hresult
        obtain ⟨rfl, -⟩ := hresult
        obtain ⟨rfl, rfl⟩ := h
        exact hcall
  · intro hcall
    cases x with
    | ok a => exact .inl ⟨a, t, hcall, rfl, rfl⟩
    | error e =>
      obtain ⟨fresh, hresult⟩ := (reaches_writeCsv v chunks _ _).mp hcall
      cases hchunks : S.ending chunks [] none with
      | stopped e data => exact absurd hchunks (hending e data)
      | written data =>
        rw [hchunks] at hresult
        cases hresult.1
      | aborted =>
        simp only [hchunks, Except.error.injEq] at hresult
        obtain ⟨rfl, -⟩ := hresult
        exact .inr ⟨_, t, hcall, rfl, rfl⟩

/-- A loop that stops leaves its temporary file behind, as many attempts as it is given. -/
theorem retry_leaves {chunks : Chunks} {e : Failure} {data : List UInt8}
    (hending : S.ending chunks [] none = .stopped e data) (v : World ι) {attempts : Int}
    (hattempts : 0 < attempts) (fresh : S.Fresh w) :
    ∃ e', Program.Reaches (S.undisturbed w i) (retry (S.writeCsv chunks) attempts) v (.error e')
      (v.setFile (S.tempPath fresh.1) (some (.bytes data))) := by
  have hcall : ∀ v : World ι, Program.Reaches (S.undisturbed w i) (S.writeCsv chunks) v (.error e)
      (v.setFile (S.tempPath fresh.1) (some (.bytes data))) := by
    intro v
    rw [reaches_writeCsv]
    refine ⟨fresh, ?_⟩
    rw [hending]
    exact ⟨rfl, rfl⟩
  have hloop : ∀ left (v : World ι), ∃ e', Program.Reaches (S.undisturbed w i)
      (retryLoop (S.writeCsv chunks) (left + 1)) v (.error e')
        (v.setFile (S.tempPath fresh.1) (some (.bytes data))) := by
    intro left
    induction left with
    | zero =>
      intro v
      cases e with
      | upload envelope =>
        exact ⟨_, Fallible.reaches_handle.mpr (.inr ⟨_, _, hcall v, rfl, rfl⟩)⟩
      | _ => exact ⟨_, Fallible.reaches_handle.mpr (.inr ⟨_, _, hcall v, rfl, rfl⟩)⟩
    | succ left ih =>
      intro v
      obtain ⟨e', hrest⟩ := ih (v.setFile (S.tempPath fresh.1) (some (.bytes data)))
      rw [World.setFile_setFile] at hrest
      cases e with
      | upload envelope =>
        exact ⟨_, Fallible.reaches_handle.mpr (.inr ⟨_, _, hcall v, rfl, rfl⟩)⟩
      | _ => exact ⟨e', Fallible.reaches_handle.mpr (.inr ⟨_, _, hcall v, hrest⟩)⟩
  obtain ⟨left, hleft⟩ : ∃ left, attempts.toNat = left + 1 := ⟨attempts.toNat - 1, by omega⟩
  rw [retry, if_neg (by omega), hleft]
  exact hloop left v

def createdRecord (context : UploadContext) (clockNow sourceFilename uploadId : String) :
    UploadRecord :=
  { id := uploadId, profile := context.profile, year := context.year, status := .pending,
    sha256 := none, recordCount := none, sizeBytes := none, manifestPath := none,
    sourceFilename, namespaceName := context.namespaceName, createdAt := clockNow,
    updatedAt := clockNow }

theorem reaches_getRecord {record : UploadRecord} {uploadId : String}
    (hrecord : v.uploads uploadId = some record) (x : Except Failure UploadRecord) (t : World ι) :
    Program.Reaches (S.undisturbed w i) (getRecord uploadId) v x t ↔ x = .ok record ∧ t = v := by
  have hget : ∀ fresh, v.execute i fresh (.getUpload uploadId) = (.ok (some record), v) := by
    intro fresh
    rw [World.execute, hrecord]
  exact reaches_bind_ok (.getUpload uploadId) (some record) hget

theorem reaches_createUpload (huploads : v.uploads = w.uploads) (context : UploadContext)
    (clockNow sourceFilename : String) (x : Except Failure UploadRecord) (t : World ι) :
    Program.Reaches (S.undisturbed w i) (createUpload context clockNow sourceFilename) v x t ↔
      ∃ fresh : S.Fresh w, x = .ok (createdRecord context clockNow sourceFilename fresh.1) ∧
        t = v.setUpload (createdRecord context clockNow sourceFilename fresh.1) := by
  refine (reaches_bind_fresh .uuid4 (fun fresh => fresh) fun _ => rfl).trans ?_
  refine exists_congr fun fresh => ?_
  have hinsert : ∀ text, v.execute i text (.insertUpload
      (createdRecord context clockNow sourceFilename fresh.1)) =
        (.ok (), v.setUpload (createdRecord context clockNow sourceFilename fresh.1)) := by
    intro text
    have hnew : v.uploads fresh.1 = none := (congrFun huploads fresh.1).trans fresh.2.1
    rw [World.execute, World.insertUpload, createdRecord, hnew]
    rfl
  refine (reaches_bind_ok (.insertUpload _) () hinsert).trans ?_
  exact reaches_getRecord (World.setUpload_self v _) x t

theorem reaches_createManifest (record : UploadRecord) (shaHex : String) (sizeBytes : Nat)
    (validation : ValidationResult) (context : UploadContext) (sourceFormat contentType : String)
    {x : Except Failure String}
    (h : Program.Reaches (S.undisturbed w i) (S.createManifest record shaHex sizeBytes validation
      context sourceFormat contentType) v x t) :
    (∃ path, x = .ok path) ∧ t.uploads = v.uploads := by
  obtain ⟨fresh, h⟩ := (reaches_bind_fresh .now (fun fresh => fresh) fun _ => rfl).mp h
  have h := (reaches_bind_ok (.dump _ _) () fun _ => rfl).mp h
  obtain ⟨rfl, rfl⟩ := (reaches_bind_ok (.replace _ _) () (fun fresh => by
    simp [World.execute]; rfl)).mp h
  exact ⟨⟨_, rfl⟩, rfl⟩

theorem reaches_finalizeIdempotency {ttl : Int} (httl : S.config.idempotencyTtlSeconds = some ttl)
    (hpositive : 0 < ttl) (redisKey uploadId : String) (x : Except Failure Unit) (t : World ι) :
    Program.Reaches (S.undisturbed w i) (S.finalizeIdempotency redisKey uploadId) v x t ↔
      x = .ok () ∧ t = v.setKey redisKey (some ⟨"upload:" ++ uploadId, i⟩) := by
  have hset : ∀ text, v.execute i text (.redisSet redisKey ("upload:" ++ uploadId) false ttl) =
      (.ok true, v.setKey redisKey (some ⟨"upload:" ++ uploadId, i⟩)) := by
    intro text
    simp [World.execute, hpositive]
  rw [finalizeIdempotency, idempotencyTtlSeconds, httl]
  exact reaches_bind_ok (.redisSet redisKey ("upload:" ++ uploadId) false ttl) true hset

def Validates (S : UploadService) (content : Option Content) : Prop :=
  ∃ data validation, content = some (.bytes data) ∧ S.validate data = .ok validation

theorem registerUpload_succeeds {ttl : Int} (httl : S.config.idempotencyTtlSeconds = some ttl)
    (hpositive : 0 < ttl) (huploads : v.uploads = w.uploads) {context : UploadContext}
    {fmt redisKey filename shaHex path : String} {sizeBytes : Nat}
    (hvalid : S.Validates (v.files path)) {x : Except Failure UploadRecord}
    (h : Program.Reaches (S.undisturbed w i)
      (S.registerUpload context fmt redisKey filename (shaHex, path, sizeBytes)) v x t) :
    ∃ record, x = .ok record := by
  obtain ⟨data, validation, hfile, hvalidation⟩ := hvalid
  obtain ⟨now, h⟩ := (reaches_bind_fresh .now (fun fresh => fresh) fun _ => rfl).mp h
  obtain ⟨record, u, hcreated, h⟩ := (Fallible.reaches_bind.mp h).resolve_right (by
    rintro ⟨e, -, herror⟩
    obtain ⟨fresh, hresult, -⟩ := (reaches_createUpload huploads _ _ _ _ _).mp herror
    cases hresult)
  obtain ⟨fresh, hrecord, rfl⟩ := (reaches_createUpload huploads _ _ _ _ _).mp hcreated
  obtain rfl := Except.ok.inj hrecord
  have hread : ∀ text, (v.setUpload (createdRecord context now.1 filename fresh.1)).execute i text
      (.readFile path) =
        (.ok data, v.setUpload (createdRecord context now.1 filename fresh.1)) := by
    intro text
    have hkept : (v.setUpload (createdRecord context now.1 filename fresh.1)).files path =
      some (.bytes data) := hfile
    rw [World.execute, hkept]
  have h := (reaches_bind_ok (.readFile path) data hread).mp h
  rw [hvalidation] at h
  have h := Fallible.reaches_ofExcept_ok.mp h
  obtain ⟨manifestPath, u, hmanifest, h⟩ := (Fallible.reaches_bind.mp h).resolve_right (by
    rintro ⟨e, -, herror⟩
    obtain ⟨⟨path, hpath⟩, -⟩ := reaches_createManifest _ _ _ _ _ _ _ herror
    cases hpath)
  obtain ⟨-, huploads'⟩ := reaches_createManifest _ _ _ _ _ _ _ hmanifest
  obtain ⟨updatedAt, h⟩ := (reaches_bind_fresh .now (fun fresh => fresh) fun _ => rfl).mp h
  have hstored : u.uploads fresh.1 =
      some (createdRecord context now.1 filename fresh.1) := by
    rw [huploads']
    exact World.setUpload_self v _
  let updated : UploadRecord := { createdRecord context now.1 filename fresh.1 with
    sha256 := some shaHex, recordCount := some validation.recordCount,
    sizeBytes := some sizeBytes, manifestPath := some manifestPath, status := .ready,
    updatedAt := updatedAt.1 }
  have hupdate : ∀ text, u.execute i text (.updateManifest fresh.1 shaHex validation.recordCount
      sizeBytes manifestPath updatedAt.1) = (.ok (), u.setUpload updated) := by
    intro text
    rw [World.execute, World.updateManifest, hstored]
    rfl
  have h := (reaches_bind_ok (.updateManifest _ _ _ _ _ _) () hupdate).mp h
  have hget := reaches_getRecord (S := S) (w := w) (i := i) (World.setUpload_self u updated)
  have h := (Fallible.reaches_bind_ok hget).mp h
  have hfinal := fun x t => reaches_finalizeIdempotency (S := S) (w := w) (i := i)
    (v := u.setUpload updated) httl hpositive redisKey updated.id x t
  exact ⟨updated, ((Fallible.reaches_bind_ok hfinal).mp h).1⟩

theorem readFile_fails {path : String} (hinvalid : ¬ S.Validates (v.files path)) :
    ∃ e, ∀ rest : List UInt8 → ValidationResult → Call UploadRecord,
      Program.Reaches (S.undisturbed w i) (do
        let data ← perform (.readFile path)
        let validation ← Fallible.ofExcept (S.validate data)
        rest data validation : Call UploadRecord) v (.error e) v := by
  have hmissing : (∀ data, v.files path ≠ some (.bytes data)) → ∃ e, ∀ text,
      v.execute i text (.readFile path) = (.error e, v) := by
    intro h
    refine ⟨.other ("[Errno 2] No such file or directory: '" ++ path ++ "'"), fun text => ?_⟩
    rw [World.execute]
    cases hcontent : v.files path with
    | none => rfl
    | some content =>
      cases content with
      | bytes data => exact absurd hcontent (h data)
      | manifest _ => rfl
  by_cases hbytes : ∃ data, v.files path = some (.bytes data)
  · obtain ⟨data, hdata⟩ := hbytes
    have hread : ∀ text, v.execute i text (.readFile path) = (.ok data, v) := by
      intro text
      rw [World.execute, hdata]
    cases hvalidation : S.validate data with
    | ok validation => exact absurd ⟨data, validation, hdata, hvalidation⟩ hinvalid
    | error e =>
      refine ⟨e, fun rest => (reaches_bind_ok (.readFile path) data hread).mpr ?_⟩
      rw [hvalidation]
      exact Fallible.reaches_ofExcept_error.mpr ⟨rfl, rfl⟩
  · obtain ⟨e, hread⟩ := hmissing fun data hdata => hbytes ⟨data, hdata⟩
    exact ⟨e, fun rest => (reaches_bind_error hread).mpr ⟨rfl, rfl⟩⟩

/-- A pending row is left where the stored bytes are not in order. -/
theorem registerUpload_leaves (huploads : v.uploads = w.uploads) {context : UploadContext}
    {fmt redisKey filename shaHex path : String} {sizeBytes : Nat}
    (hinvalid : ¬ S.Validates (v.files path)) :
    ∃ e t, Program.Reaches (S.undisturbed w i)
      (S.registerUpload context fmt redisKey filename (shaHex, path, sizeBytes)) v (.error e) t ∧
        t.uploads ≠ w.uploads := by
  obtain ⟨fresh⟩ := ‹Nonempty (S.Fresh w)›
  let record := createdRecord context fresh.1 filename fresh.1
  have hleft : (v.setUpload record).uploads ≠ w.uploads := by
    intro h
    have hrow : some record = none :=
      (World.setUpload_self v record).symm.trans ((congrFun h fresh.1).trans fresh.2.1)
    cases hrow
  have hcreated : Program.Reaches (S.undisturbed w i) (createUpload context fresh.1 filename) v
      (.ok record) (v.setUpload record) :=
    (reaches_createUpload huploads _ _ _ _ _).mpr ⟨fresh, rfl, rfl⟩
  have hinvalid' : ¬ S.Validates ((v.setUpload record).files path) := hinvalid
  obtain ⟨e, hfails⟩ := readFile_fails (w := w) (i := i) hinvalid'
  refine ⟨e, v.setUpload record, ?_, hleft⟩
  refine (reaches_bind_fresh .now (fun fresh => fresh) fun _ => rfl).mpr ⟨fresh, ?_⟩
  exact Fallible.reaches_bind.mpr (.inl ⟨record, _, hcreated, hfails _⟩)

end

/-- The file name and the chunks that an upload stores. -/
def stream (context : UploadContext) (file : List (List UInt8)) :
    Except Failure (String × Chunks) := do
  let fmt ← detectFormat context.filename
  let rawBytes ← S.readStream file []
  S.csvStream context fmt rawBytes

section
variable {S} {ι : Type} {w v t : World ι} {i : ι} {context : UploadContext}
  {fmt redisKey filename : String} {file : List (List UInt8)} {chunks : Chunks}
  {x : Except Failure UploadRecord}

theorem uploadBody_eq (hformat : detectFormat context.filename = .ok fmt) :
    S.uploadBody context fmt redisKey file = (do
      let (filename, chunks) ← Fallible.ofExcept (S.stream context file)
      let stored ← retry (S.writeCsv chunks) S.config.retryAttempts
      S.registerUpload context fmt redisKey filename stored : Call UploadRecord) := by
  rw [uploadBody, stream, hformat]
  cases S.readStream file [] with
  | error e => rfl
  | ok rawBytes => rfl

theorem uploadBody_stored (hformat : detectFormat context.filename = .ok fmt)
    (hstream : S.stream context file = .ok (filename, chunks)) :
    S.uploadBody context fmt redisKey file = (do
      let stored ← retry (S.writeCsv chunks) S.config.retryAttempts
      S.registerUpload context fmt redisKey filename stored : Call UploadRecord) := by
  rw [uploadBody_eq hformat, hstream]
  rfl

/-- A body that stores nothing raises at once. -/
theorem uploadBody_raises (redisKey : String) (hformat : detectFormat context.filename = .ok fmt)
    (h : S.config.retryAttempts ≤ 0 ∨ ∃ e, S.stream context file = .error e) :
    ∃ e, S.uploadBody context fmt redisKey file = Fallible.raise e := by
  cases hstream : S.stream context file with
  | error e =>
    rw [uploadBody_eq hformat, hstream]
    exact ⟨e, rfl⟩
  | ok stream =>
    have hattempts : S.config.retryAttempts ≤ 0 := by
      refine h.resolve_right ?_
      rintro ⟨e, he⟩
      rw [he] at hstream
      cases hstream
    refine ⟨.value "attempts must be positive", ?_⟩
    rw [uploadBody_stored hformat hstream, retry, if_pos hattempts]
    rfl

/-- What stands under the digest once these bytes are stored. -/
theorem finalized_target (v : World ι) (temp digest : String) (data : List UInt8) :
    (S.finalized v temp digest data).files (S.pathForDigest digest) =
      (v.files (S.pathForDigest digest)).or (some (.bytes data)) := by
  have hother := World.setFile_other (S.tempPath_ne temp digest) v none
  rw [finalized]
  cases hfile : v.files (S.pathForDigest digest) with
  | none => simp
  | some content => simp [hother, hfile]

section
variable [Nonempty (S.Fresh w)] (hformat : detectFormat context.filename = .ok fmt)
  (hstream : S.stream context file = .ok (filename, chunks))
  (hattempts : 0 < S.config.retryAttempts)
include hformat hstream hattempts

/-- A stream that grows too large is given up with its temporary file. -/
theorem uploadBody_aborted (hending : S.ending chunks [] none = .aborted) :
    Program.Reaches (S.undisturbed w i) (S.uploadBody context fmt redisKey file) v x t ↔
      ∃ fresh : S.Fresh w, x = .error (uploadError .sizeExceeded) ∧
        t = v.setFile (S.tempPath fresh.1) none := by
  rw [uploadBody_stored hformat hstream, Fallible.reaches_bind]
  have hretry := reaches_retry (S := S) (w := w) (i := i) v chunks hattempts (by simp [hending])
  simp only [hretry, reaches_writeCsv, hending]
  constructor
  · rintro (⟨stored, u, ⟨fresh, hstored, -⟩, -⟩ | ⟨e, rfl, fresh, he, rfl⟩)
    · cases hstored
    · obtain rfl := Except.error.inj he
      exact ⟨fresh, rfl, rfl⟩
  · rintro ⟨fresh, rfl, rfl⟩
    exact .inr ⟨_, rfl, fresh, rfl, rfl⟩

theorem uploadBody_stopped (redisKey : String) {e : Failure} {data : List UInt8}
    (hending : S.ending chunks [] none = .stopped e data) (fresh : S.Fresh w) :
    ∃ e', Program.Reaches (S.undisturbed w i) (S.uploadBody context fmt redisKey file) v (.error e')
      (v.setFile (S.tempPath fresh.1) (some (.bytes data))) := by
  obtain ⟨e', hretry⟩ := retry_leaves (i := i) hending v hattempts fresh
  rw [uploadBody_stored hformat hstream]
  exact ⟨e', Fallible.reaches_bind.mpr (.inr ⟨e', rfl, hretry⟩)⟩

theorem uploadBody_written {data : List UInt8}
    (hending : S.ending chunks [] none = .written data) :
    Program.Reaches (S.undisturbed w i) (S.uploadBody context fmt redisKey file) v x t ↔
      ∃ fresh : S.Fresh w, Program.Reaches (S.undisturbed w i)
        (S.registerUpload context fmt redisKey filename
          (S.sha256 data, S.pathForDigest (S.sha256 data), data.length))
        (S.finalized v fresh.1 (S.sha256 data) data) x t := by
  rw [uploadBody_stored hformat hstream, Fallible.reaches_bind]
  have hretry := reaches_retry (S := S) (w := w) (i := i) v chunks hattempts (by simp [hending])
  simp only [hretry, reaches_writeCsv, hending]
  constructor
  · rintro (⟨stored, u, ⟨fresh, hstored, rfl⟩, h⟩ | ⟨e, rfl, fresh, he, -⟩)
    · obtain rfl := Except.ok.inj hstored
      exact ⟨fresh, h⟩
    · cases he
  · rintro ⟨fresh, h⟩
    exact .inl ⟨_, _, ⟨fresh, rfl, rfl⟩, h⟩

end

end

end UploadService

end Uploads

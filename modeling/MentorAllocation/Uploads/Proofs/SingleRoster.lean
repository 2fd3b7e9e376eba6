import MentorAllocation.Concurrency.Typestate
import MentorAllocation.Uploads.Service

namespace Uploads
open Concurrency

/-- The rosters in force are the active uploads, one for each of their years. -/
structure World.Consistent {ι : Type} (w : World ι) : Prop where
  keyed : ∀ uploadId upload, w.uploads uploadId = some upload → upload.id = uploadId
  years : (w.activeRosters.map ActiveRoster.year).Nodup
  pointed : ∀ row ∈ w.activeRosters, ∃ upload, w.uploads row.uploadId = some upload ∧
    upload.status = .active ∧ upload.year = row.year
  listed : ∀ uploadId upload, w.uploads uploadId = some upload → upload.status = .active →
    ∃ row ∈ w.activeRosters, row.year = upload.year ∧ row.uploadId = uploadId

/-- Where `own` tells which upload each request has yet to make ready: it is pending, and
no two requests have the same. -/
structure World.Owned {ι : Type} (own : ι → Option String) (w : World ι) : Prop
    extends w.Consistent where
  pending : ∀ i uploadId, own i = some uploadId → ∃ upload, w.uploads uploadId = some upload ∧
    upload.status = .pending
  distinct : ∀ i j uploadId, own i = some uploadId → own j = some uploadId → i = j

namespace World
variable {ι : Type} {w t : World ι} {own : ι → Option String} {i : ι} {record : UploadRecord}
  {uploadId : String}

theorem owned_empty : Owned (fun _ : ι => none) World.empty where
  keyed := by simp [empty]
  years := List.nodup_nil
  pointed := by simp [empty]
  listed := by simp [empty]
  pending := by simp
  distinct := by simp

theorem Owned.congr (h : Owned own w) (huploads : t.uploads = w.uploads)
    (hrosters : t.activeRosters = w.activeRosters) : Owned own t := by
  obtain ⟨⟨hkeyed, hyears, hpointed, hlisted⟩, hpending, hdistinct⟩ := h
  rw [← hrosters] at hyears
  refine ⟨⟨?_, hyears, ?_, ?_⟩, ?_, hdistinct⟩
  · rw [huploads]
    exact hkeyed
  · rw [huploads, hrosters]
    exact hpointed
  · rw [huploads, hrosters]
    exact hlisted
  · rw [huploads]
    exact hpending

theorem setUpload_self (w : World ι) (record : UploadRecord) :
    (w.setUpload record).uploads record.id = some record := Function.update_self ..

theorem setUpload_other (h : uploadId ≠ record.id) :
    (w.setUpload record).uploads uploadId = w.uploads uploadId := Function.update_of_ne h ..

theorem Consistent.keyed_set (h : w.Consistent) (record : UploadRecord) (uploadId : String)
    (upload : UploadRecord) (hu : (w.setUpload record).uploads uploadId = some upload) :
    upload.id = uploadId := by
  by_cases hid : uploadId = record.id
  · rw [hid, setUpload_self] at hu
    rw [hid, ← Option.some.inj hu]
  · rw [setUpload_other hid] at hu
    exact h.keyed uploadId upload hu

/-- A row that is not active takes the place of one that is not. -/
theorem Consistent.set (h : w.Consistent) (hnew : record.status ≠ .active)
    (hold : ∀ upload, w.uploads record.id = some upload → upload.status ≠ .active) :
    (w.setUpload record).Consistent where
  keyed := h.keyed_set record
  years := h.years
  pointed := by
    intro row hrow
    obtain ⟨upload, hu, hactive, hyear⟩ := h.pointed row hrow
    have hne : row.uploadId ≠ record.id := by
      intro he
      rw [he] at hu
      exact hold upload hu hactive
    exact ⟨upload, by rw [setUpload_other hne, hu], hactive, hyear⟩
  listed := by
    intro uploadId upload hu hactive
    by_cases hid : uploadId = record.id
    · rw [hid, setUpload_self] at hu
      obtain rfl := Option.some.inj hu
      exact absurd hactive hnew
    · rw [setUpload_other hid] at hu
      exact h.listed uploadId upload hu hactive

variable [DecidableEq ι]

theorem Owned.release (h : Owned own w) (i : ι) : Owned (Function.update own i none) w where
  toConsistent := h.toConsistent
  pending := by
    intro j uploadId hj
    by_cases hji : j = i
    · rw [hji, Function.update_self] at hj
      cases hj
    · rw [Function.update_of_ne hji] at hj
      exact h.pending j uploadId hj
  distinct := by
    intro j k uploadId hj hk
    by_cases hji : j = i
    · rw [hji, Function.update_self] at hj
      cases hj
    · by_cases hki : k = i
      · rw [hki, Function.update_self] at hk
        cases hk
      · rw [Function.update_of_ne hji] at hj
        rw [Function.update_of_ne hki] at hk
        exact h.distinct j k uploadId hj hk

omit [DecidableEq ι] in
/-- A new pending row belongs to nobody. -/
theorem Owned.insert (h : Owned own w) (hnew : w.uploads record.id = none)
    (hpending : record.status = .pending) : Owned own (w.setUpload record) where
  toConsistent := h.toConsistent.set (by simp [hpending]) (by simp [hnew])
  pending := by
    intro j uploadId hj
    obtain ⟨upload, hu, hp⟩ := h.pending j uploadId hj
    have hne : uploadId ≠ record.id := by
      intro he
      rw [he, hnew] at hu
      cases hu
    exact ⟨upload, by rw [setUpload_other hne, hu], hp⟩
  distinct := h.distinct

/-- The request that inserted a row has it. -/
theorem Owned.acquire (h : Owned own w) (hnew : w.uploads record.id = none)
    (hpending : record.status = .pending) (i : ι) :
    Owned (Function.update own i (some record.id)) (w.setUpload record) where
  toConsistent := (h.insert hnew hpending).toConsistent
  pending := by
    intro j uploadId hj
    by_cases hji : j = i
    · rw [hji, Function.update_self] at hj
      obtain rfl := Option.some.inj hj
      exact ⟨record, setUpload_self w record, hpending⟩
    · rw [Function.update_of_ne hji] at hj
      exact (h.insert hnew hpending).pending j uploadId hj
  distinct := by
    have hothers : ∀ j, own j ≠ some record.id := by
      intro j hj
      obtain ⟨upload, hu, -⟩ := h.pending j _ hj
      rw [hnew] at hu
      cases hu
    intro j k uploadId hj hk
    by_cases hji : j = i
    · rw [hji, Function.update_self] at hj
      by_cases hki : k = i
      · rw [hji, hki]
      · rw [Function.update_of_ne hki, ← hj] at hk
        exact absurd hk (hothers k)
    · rw [Function.update_of_ne hji] at hj
      by_cases hki : k = i
      · rw [hki, Function.update_self] at hk
        exact absurd (hj.trans hk.symm) (hothers j)
      · rw [Function.update_of_ne hki] at hk
        exact h.distinct j k uploadId hj hk

/-- The request makes its own row ready, which it then has no longer. -/
theorem Owned.ready (h : Owned own w) (hown : own i = some record.id)
    (hready : record.status = .ready) :
    Owned (Function.update own i none) (w.setUpload record) where
  toConsistent := by
    obtain ⟨upload, hu, hp⟩ := h.pending i _ hown
    refine h.toConsistent.set (by simp [hready]) fun upload' hu' => ?_
    obtain rfl := Option.some.inj (hu.symm.trans hu')
    simp [hp]
  pending := by
    intro j uploadId hj
    by_cases hji : j = i
    · rw [hji, Function.update_self] at hj
      cases hj
    · rw [Function.update_of_ne hji] at hj
      have hne : uploadId ≠ record.id := by
        intro he
        rw [he] at hj
        exact hji (h.distinct j i _ hj hown)
      rw [setUpload_other hne]
      exact h.pending j uploadId hj
  distinct := (h.release i).distinct

omit [DecidableEq ι] in
/-- A ready upload of a year without a roster comes into force. -/
theorem Owned.activated (h : Owned own w) {clockNow : String}
    (hact : w.activate uploadId clockNow = .ok t) : Owned own t := by
  rw [activate] at hact
  split at hact
  · cases hact
  next upload hu =>
  split at hact
  · cases hact
  next hready =>
  split at hact
  · cases hact
  next hyear =>
  obtain rfl := Except.ok.inj hact
  have hstatus : upload.status = .ready := by simpa using hready
  have hfresh : upload.year ∉ w.activeRosters.map ActiveRoster.year := by simpa using hyear
  have hself := setUpload_self w
    { upload with id := uploadId, status := .active, updatedAt := clockNow }
  have hother : ∀ id ≠ uploadId, (w.setUpload
      { upload with id := uploadId, status := .active, updatedAt := clockNow }).uploads id =
        w.uploads id := fun _ hid => setUpload_other hid
  constructor
  · constructor
    · exact h.keyed_set _
    · rw [List.map_append]
      exact List.nodup_append.mpr ⟨h.years, List.nodup_singleton _,
        fun a ha b hb => by rintro rfl; simp at hb; exact hfresh (hb ▸ ha)⟩
    · intro row hrow
      rcases List.mem_append.mp hrow with hrow | hrow
      · obtain ⟨upload', hu', hactive, hyear'⟩ := h.pointed row hrow
        have hne : row.uploadId ≠ uploadId := by
          intro he
          rw [he, hu] at hu'
          obtain rfl := Option.some.inj hu'
          rw [hstatus] at hactive
          cases hactive
        exact ⟨upload', by rw [hother _ hne, hu'], hactive, hyear'⟩
      · obtain rfl := List.mem_singleton.mp hrow
        exact ⟨_, hself, rfl, rfl⟩
    · intro id upload' hu' hactive
      by_cases hid : id = uploadId
      · rw [hid] at hu'
        obtain rfl := Option.some.inj (hself.symm.trans hu')
        exact ⟨_, List.mem_append_right _ (List.mem_singleton_self _), rfl, hid.symm⟩
      · rw [hother _ hid] at hu'
        obtain ⟨row, hrow, hrest⟩ := h.listed id upload' hu' hactive
        exact ⟨row, List.mem_append_left _ hrow, hrest⟩
  · intro j id hj
    obtain ⟨upload', hu', hp⟩ := h.pending j id hj
    have hne : id ≠ uploadId := by
      intro he
      rw [he, hu] at hu'
      obtain rfl := Option.some.inj hu'
      rw [hstatus] at hp
      cases hp
    exact ⟨upload', by rw [hother _ hne, hu'], hp⟩
  · exact h.distinct

end World

/-- A request has at most one upload to make ready: the row it inserted. -/
def pendingUpload : Typestate (Option String) Request Request.Response where
  permits own
    | .insertUpload record => own = none ∧ record.status = .pending
    | .updateManifest uploadId .. => own = some uploadId
    | _ => True
  after own
    | .insertUpload record, .ok _ => some record.id
    | .updateManifest .., _ => none
    | _, _ => own
  possible
    | .getUpload uploadId, .ok (some upload) => upload.id = uploadId
    | _, _ => True

/-- Requests that neither insert a row nor make one ready. -/
def Request.Plain : Request → Prop
  | .insertUpload _ => False
  | .updateManifest .. => False
  | _ => True

def Request.Neutral : Request → Prop
  | .redisSet .. => False
  | .redisDelete _ => False
  | r => r.Plain

theorem neutral_plain (r : Request) (h : r.Neutral) : r.Plain := by
  cases r <;> first | exact trivial | exact h

theorem plain_permitted {own : Option String} (r : Request) (h : r.Plain) :
    pendingUpload.permits own r ∧ ∀ x, pendingUpload.after own r x = own := by
  cases r <;> first | exact absurd h id | exact ⟨trivial, fun x => by cases x <;> rfl⟩

section
variable {ι : Type} [DecidableEq ι] {w t : World ι} {own : ι → Option String} {i : ι}

omit [DecidableEq ι] in
/-- What plain requests do to the tables: nothing, or an activation. -/
theorem World.Owned.plain (h : w.Owned own) {r : Request} (hr : r.Plain) (fresh : String) :
    (w.execute i fresh r).2.Owned own := by
  cases r with
  | insertUpload record => exact absurd hr id
  | updateManifest uploadId sha256 recordCount sizeBytes manifestPath clockNow =>
    exact absurd hr id
  | activate uploadId clockNow =>
    simp only [World.execute]
    cases ha : w.activate uploadId clockNow with
    | error e => exact h
    | ok t => exact h.activated ha
  | redisSet key value nx ex =>
    simp only [World.execute]
    split
    · exact h
    split
    · exact h
    · exact h.congr rfl rfl
  | unlink path =>
    simp only [World.execute]
    split
    · exact h.congr rfl rfl
    · exact h
  | append path chunk =>
    simp only [World.execute]
    split
    · exact h.congr rfl rfl
    · exact h
  | replace source target =>
    simp only [World.execute]
    split
    · exact h.congr rfl rfl
    · exact h
  | readFile path =>
    simp only [World.execute]
    split <;> exact h
  | redisGet key => exact h
  | redisDelete key => exact h.congr rfl rfl
  | uuid4 => exact h
  | now => exact h
  | pathExists path => exact h
  | create path => exact h.congr rfl rfl
  | dump path manifest => exact h.congr rfl rfl
  | getUpload uploadId => exact h

omit [DecidableEq ι] in
/-- The answers that occur are the possible ones. -/
theorem World.Owned.possible (h : w.Owned own) (r : Request) (fresh : String) :
    pendingUpload.possible r (w.execute i fresh r).1 := by
  cases r with
  | getUpload uploadId =>
    simp only [World.execute]
    cases hu : w.uploads uploadId with
    | none => trivial
    | some upload => exact h.keyed uploadId upload hu
  | _ => trivial

/-- What a request leaves behind, whether it is answered or ends in an exception. -/
theorem World.Owned.executed (h : w.Owned own) {r : Request}
    (hr : pendingUpload.permits (own i) r) (fresh : String) (e : Failure) :
    (w.execute i fresh r).2.Owned
        (Function.update own i (pendingUpload.after (own i) r (w.execute i fresh r).1)) ∧
      (w.execute i fresh r).2.Owned
        (Function.update own i (pendingUpload.after (own i) r (.error e))) := by
  have hself : Function.update own i (own i) = own := Function.update_eq_self i own
  by_cases hplain : r.Plain
  · have hafter : ∀ x, pendingUpload.after (own i) r x = own i := (plain_permitted r hplain).2
    rw [hafter, hafter, hself]
    exact ⟨h.plain hplain fresh, h.plain hplain fresh⟩
  · cases r with
    | insertUpload record =>
      obtain ⟨hnone, hpending⟩ := hr
      simp only [World.execute, World.insertUpload]
      cases hu : w.uploads record.id with
      | some upload =>
        have hw : w.Owned (Function.update own i (own i)) := by rwa [hself]
        exact ⟨hw, hw⟩
      | none =>
        refine ⟨h.acquire hu hpending i, ?_⟩
        have hi := h.insert hu hpending
        rw [← hself] at hi
        exact hi
    | updateManifest uploadId sha256 recordCount sizeBytes manifestPath clockNow =>
      simp only [World.execute, World.updateManifest]
      cases hu : w.uploads uploadId with
      | none => exact ⟨h.release i, h.release i⟩
      | some upload => exact ⟨h.ready hr rfl, h.ready hr rfl⟩
    | _ => exact absurd trivial hplain

/-- Each request keeps the tables consistent and the pending uploads apart. -/
theorem answer_kept {ch : Choice} {r : Request} {x : r.Response} (h : w.Owned own)
    (hr : pendingUpload.permits (own i) r) (ha : World.answer ch i r w = some (x, t)) :
    pendingUpload.possible r x ∧
      t.Owned (Function.update own i (pendingUpload.after (own i) r x)) := by
  have hexpired : (w.expire ch.expired).Owned own := h.congr rfl rfl
  have herror : ∀ e, pendingUpload.possible r (.error e) := by
    intro e
    cases r <;> trivial
  have hrefused : ∀ e, (w.expire ch.expired).Owned
      (Function.update own i (pendingUpload.after (own i) r (.error e))) := by
    intro e
    cases r with
    | updateManifest uploadId sha256 recordCount sizeBytes manifestPath clockNow =>
      exact hexpired.release i
    | _ =>
      have hself := hexpired
      rw [← Function.update_eq_self i own] at hself
      exact hself
  have hexecuted := hexpired.executed hr ch.fresh
  simp only [World.answer, Option.some.injEq] at ha
  cases hd : ch.delivery with
  | delivered =>
    rw [hd] at ha
    obtain ⟨rfl, rfl⟩ := Prod.mk.inj ha
    exact ⟨hexpired.possible r ch.fresh, (hexecuted (.other "")).1⟩
  | lost message =>
    rw [hd] at ha
    obtain ⟨rfl, rfl⟩ := Prod.mk.inj ha
    exact ⟨herror _, (hexecuted _).2⟩
  | refused message =>
    rw [hd] at ha
    obtain ⟨rfl, rfl⟩ := Prod.mk.inj ha
    exact ⟨herror _, hrefused _⟩

end

section
variable {S : UploadService} {α : Type} {own : Option String}

theorem asking_perform {P : Request → Prop} {r : Request} (h : P r) :
    Program.Asking P (perform r) := ⟨h, fun _ => trivial⟩

theorem asking_ofExcept {P : Request → Prop} (x : Except Failure α) :
    Program.Asking P (Fallible.ofExcept x : Call α) := trivial

namespace UploadService

theorem asking_abort (tempPath : String) : Program.Asking Request.Neutral (abort tempPath) := by
  refine Fallible.asking_bind (asking_perform trivial) fun found => ?_
  cases found
  · trivial
  · exact asking_perform trivial

theorem asking_writeChunks (tempPath : String) (chunks : Chunks) (data : List UInt8)
    (last : Option UInt8) :
    Program.Asking Request.Neutral (S.writeChunks tempPath chunks data last) := by
  induction chunks generalizing data last with
  | nil => trivial
  | cons chunk chunks ih =>
    cases chunk with
    | error e => trivial
    | ok chunk =>
      rw [writeChunks]
      split
      · exact Fallible.asking_bind (asking_abort tempPath) fun _ => trivial
      · split
        · trivial
        · exact Fallible.asking_bind (asking_perform trivial) fun _ => ih _ _

theorem asking_writeCsv (chunks : Chunks) : Program.Asking Request.Neutral (S.writeCsv chunks) := by
  refine Fallible.asking_bind (asking_perform trivial) fun temp => ?_
  refine Fallible.asking_bind (asking_perform trivial) fun _ => ?_
  refine Fallible.asking_bind (asking_writeChunks _ _ _ _) fun data => ?_
  refine Fallible.asking_bind ?_ fun path => trivial
  refine Fallible.asking_bind (asking_perform trivial) fun found => ?_
  cases found
  · exact Fallible.asking_bind (asking_perform trivial) fun _ => trivial
  · exact Fallible.asking_bind (asking_abort _) fun _ => trivial

theorem asking_retry {call : Call α} (h : Program.Asking Request.Neutral call) (attempts : Int) :
    Program.Asking Request.Neutral (retry call attempts) := by
  have hloop : ∀ n, Program.Asking Request.Neutral (retryLoop call n) := by
    intro n
    induction n with
    | zero => trivial
    | succ n ih =>
      refine Fallible.asking_handle h (fun _ => trivial) fun e => ?_
      cases e with
      | upload envelope => trivial
      | _ => exact ih
  rw [retry]
  split
  · trivial
  · exact hloop _

theorem asking_getRecord (uploadId : String) :
    Program.Asking Request.Neutral (getRecord uploadId) := by
  refine Fallible.asking_bind (asking_perform trivial) fun record => ?_
  cases record <;> trivial

theorem asking_idempotencyTtlSeconds :
    Program.Asking Request.Plain S.idempotencyTtlSeconds := by
  rw [idempotencyTtlSeconds]
  split <;> trivial

theorem asking_createManifest (record : UploadRecord) (shaHex : String) (sizeBytes : Nat)
    (validation : ValidationResult) (context : UploadContext)
    (sourceFormat contentType : String) : Program.Asking Request.Neutral
      (S.createManifest record shaHex sizeBytes validation context sourceFormat contentType) := by
  refine Fallible.asking_bind (asking_perform trivial) fun generatedAt => ?_
  refine Fallible.asking_bind (asking_perform trivial) fun _ => ?_
  exact Fallible.asking_bind (asking_perform trivial) fun _ => trivial

theorem asking_acquireIdempotency (context : UploadContext) :
    Program.Asking Request.Plain (S.acquireIdempotency context) := by
  refine Fallible.asking_bind asking_idempotencyTtlSeconds fun ttl => ?_
  refine Fallible.asking_bind (asking_perform trivial) fun acquired => ?_
  cases acquired
  · refine Fallible.asking_bind (asking_perform trivial) fun existing => ?_
    cases existing with
    | none => trivial
    | some existing =>
      dsimp only
      split <;> trivial
  · trivial

theorem asking_finalizeIdempotency (redisKey uploadId : String) :
    Program.Asking Request.Plain (S.finalizeIdempotency redisKey uploadId) :=
  Fallible.asking_bind asking_idempotencyTtlSeconds fun _ =>
    Fallible.asking_bind (asking_perform trivial) fun _ => trivial

theorem asking_getUpload (uploadId : String) :
    Program.Asking Request.Neutral (getUpload uploadId) := by
  refine Fallible.asking_handle (asking_getRecord uploadId) (fun _ => trivial) fun e => ?_
  cases e <;> trivial

theorem asking_activateBody (uploadId : String) :
    Program.Asking Request.Neutral (activateBody uploadId) := by
  refine Fallible.asking_handle ?_ (fun _ => trivial) fun e => ?_
  · refine Fallible.asking_bind (asking_perform trivial) fun clockNow => ?_
    exact Fallible.asking_bind (asking_perform trivial) fun _ => asking_getRecord uploadId
  · cases e with
    | value reason =>
      dsimp only
      split <;> trivial
    | _ => trivial

/-- No step of an activation inserts a row or makes one ready. -/
theorem asking_activate (uploadId rid : String) :
    Program.Asking Request.Plain (S.activate uploadId rid) := by
  refine Fallible.asking_bind ((asking_getUpload uploadId).mono neutral_plain) fun record => ?_
  refine Fallible.asking_bind asking_idempotencyTtlSeconds fun ttl => ?_
  refine Fallible.asking_bind (asking_perform trivial) fun acquired => ?_
  cases acquired
  · trivial
  · have hdelete : ∀ key, Program.Asking Request.Plain (perform (.redisDelete key)) :=
      fun key => asking_perform trivial
    exact Fallible.asking_handle ((asking_activateBody uploadId).mono neutral_plain)
      (fun _ => Fallible.asking_bind (hdelete _) fun _ => trivial)
      fun _ => Fallible.asking_bind (hdelete _) fun _ => trivial

/-- The entry of a finished upload names one, unless its id is empty. -/
theorem nameless_of_isEmpty {existing : String} (hstart : existing.startsWith "upload:" = true)
    (hrest : String.ofList (existing.toList.drop "upload:".length) = "") :
    existing = "upload:" := by
  obtain ⟨rest, hlist⟩ := String.startsWith_string_iff.mp hstart
  have hnil : existing.toList.drop "upload:".length = [] := by
    rw [← String.toList_ofList (l := existing.toList.drop _), hrest]
    rfl
  rw [← hlist, show "upload:".length = "upload:".toList.length from rfl,
    List.drop_left] at hnil
  rw [hnil, List.append_nil] at hlist
  exact String.toList_inj.mp hlist.symm

theorem ends_plain {call : Call α} (h : Program.Asking Request.Plain call) :
    pendingUpload.Ends (fun _ own' => own' = own) (fun _ _ => True) call own :=
  (Typestate.follows_of_asking h plain_permitted).mono
    fun _ _ hown => ⟨fun _ _ => hown, fun _ _ => trivial⟩

theorem ends_neutral {call : Call α} (h : Program.Asking Request.Neutral call) :
    pendingUpload.Ends (fun _ own' => own' = own) (fun _ _ => True) call own :=
  ends_plain (h.mono neutral_plain)

theorem ends_insert {record : UploadRecord} (h : record.status = .pending) :
    pendingUpload.Ends (fun _ own => own = some record.id) (fun _ _ => True)
      (perform (.insertUpload record)) none := by
  refine ⟨⟨rfl, h⟩, fun x _ => ⟨fun a ha => ?_, fun _ _ => trivial⟩⟩
  rw [ha]
  rfl

theorem ends_getUpload (uploadId : String) :
    pendingUpload.Ends (fun record own' => own' = own ∧
        ∀ upload, record = some upload → upload.id = uploadId) (fun _ _ => True)
      (perform (.getUpload uploadId)) own := by
  refine ⟨trivial, fun x hx => ⟨fun record hrecord => ⟨?_, fun upload hu => ?_⟩,
    fun _ _ => trivial⟩⟩
  · rw [hrecord]
    rfl
  · rw [hrecord, hu] at hx
    exact hx

theorem ends_updateManifest (uploadId sha256 : String) (recordCount sizeBytes : Nat)
    (manifestPath clockNow : String) :
    pendingUpload.Ends (fun _ _ => True) (fun _ _ => True) (perform (.updateManifest uploadId
      sha256 recordCount sizeBytes manifestPath clockNow)) (some uploadId) :=
  ⟨rfl, fun _ _ => ⟨fun _ _ => trivial, fun _ _ => trivial⟩⟩

/-- A created upload is the one its request has yet to make ready. -/
theorem ends_createUpload (context : UploadContext) (clockNow sourceFilename : String) :
    pendingUpload.Ends (fun record own => own = some record.id) (fun _ _ => True)
      (createUpload context clockNow sourceFilename) none := by
  refine Typestate.Ends.bind (ends_plain (asking_perform trivial)) fun uploadId own hown => ?_
  subst hown
  refine Typestate.Ends.bind (ends_insert rfl) fun _ own hown => ?_
  subst hown
  refine Typestate.Ends.bind (ends_getUpload uploadId) fun record own hrecord => ?_
  obtain ⟨rfl, hid⟩ := hrecord
  cases record with
  | none => exact Typestate.Ends.raise trivial
  | some upload =>
    obtain rfl := hid upload rfl
    exact Typestate.Ends.pure rfl

theorem ends_uploadBody (context : UploadContext) (fmt redisKey : String)
    (file : List (List UInt8)) :
    pendingUpload.Ends (fun _ _ => True) (fun _ _ => True) (S.uploadBody context fmt redisKey file)
      none := by
  refine Typestate.Ends.bind (ends_plain (asking_ofExcept _)) fun rawBytes own hown => ?_
  subst hown
  refine Typestate.Ends.bind (ends_plain (asking_ofExcept _)) fun stream own hown => ?_
  subst hown
  refine Typestate.Ends.bind (ends_neutral (asking_retry (asking_writeCsv _) _))
    fun written own hown => ?_
  subst hown
  refine Typestate.Ends.bind (ends_plain (asking_perform trivial)) fun createdAt own hown => ?_
  subst hown
  refine Typestate.Ends.bind (ends_createUpload context createdAt stream.1)
    fun record own hown => ?_
  subst hown
  refine Typestate.Ends.bind (ends_plain (asking_perform trivial)) fun data own hown => ?_
  subst hown
  refine Typestate.Ends.bind (ends_plain (asking_ofExcept _)) fun validation own hown => ?_
  subst hown
  refine Typestate.Ends.bind (ends_neutral (asking_createManifest record _ _ _ _ _ _))
    fun manifestPath own hown => ?_
  subst hown
  refine Typestate.Ends.bind (ends_plain (asking_perform trivial)) fun updatedAt own hown => ?_
  subst hown
  refine Typestate.Ends.bind (ends_updateManifest record.id _ _ _ _ _) fun _ own _ => ?_
  refine Typestate.Ends.bind (ends_neutral (asking_getRecord record.id)) fun updated own _ => ?_
  refine Typestate.Ends.bind (ends_plain (asking_finalizeIdempotency redisKey updated.id))
    fun _ own _ => ?_
  exact Typestate.Ends.pure trivial

theorem ends_upload (context : UploadContext) (file : List (List UInt8)) :
    pendingUpload.Ends (fun _ _ => True) (fun _ _ => True) (S.upload context file) none := by
  refine Typestate.Ends.bind (ends_plain (asking_ofExcept _)) fun fmt own hown => ?_
  subst hown
  refine Typestate.Ends.bind (ends_plain (asking_acquireIdempotency context))
    fun existingId own hown => ?_
  subst hown
  split
  · exact (ends_neutral (asking_getRecord _)).mono fun _ _ _ =>
      ⟨fun _ _ => trivial, fun _ _ => trivial⟩
  · refine (ends_uploadBody context fmt _ file).handle (fun _ _ _ => Typestate.Ends.pure trivial)
      fun e own _ => ?_
    cases e with
    | upload envelope =>
      refine Typestate.Ends.bind (ends_plain (asking_perform trivial)) fun _ _ _ =>
        Typestate.Ends.raise trivial
    | _ =>
      refine Typestate.Ends.bind (ends_plain (asking_perform trivial)) fun _ _ _ =>
        Typestate.Ends.raise trivial

end UploadService

end

/-- One roster is in force for each year at most, and the two tables agree on it. -/
structure SingleRoster {ι : Type} (w : World ι) : Prop where
  oneActive : ∀ uploadId uploadId' upload upload', w.uploads uploadId = some upload →
    w.uploads uploadId' = some upload' → upload.status = .active → upload'.status = .active →
    upload.year = upload'.year → uploadId = uploadId'
  exists_iff : ∀ year, (∃ row ∈ w.activeRosters, row.year = year) ↔
    ∃ uploadId upload, w.uploads uploadId = some upload ∧ upload.status = .active ∧
      upload.year = year
  pointed : ∀ row ∈ w.activeRosters, ∀ uploadId upload, w.uploads uploadId = some upload →
    upload.status = .active → upload.year = row.year → row.uploadId = uploadId

/-- The row of a year is the only one. -/
theorem World.Consistent.row_unique {ι : Type} {w : World ι} (h : w.Consistent)
    {row row' : ActiveRoster} (hrow : row ∈ w.activeRosters) (hrow' : row' ∈ w.activeRosters)
    (hyear : row.year = row'.year) : row = row' :=
  List.inj_on_of_nodup_map h.years hrow hrow' hyear

theorem World.Consistent.singleRoster {ι : Type} {w : World ι} (h : w.Consistent) :
    SingleRoster w := by
  have hpointed : ∀ row ∈ w.activeRosters, ∀ uploadId upload, w.uploads uploadId = some upload →
      upload.status = .active → upload.year = row.year → row.uploadId = uploadId := by
    intro row hrow uploadId upload hu hactive hyear
    obtain ⟨row', hrow', hyear', rfl⟩ := h.listed uploadId upload hu hactive
    rw [h.row_unique hrow hrow' (hyear.symm.trans hyear'.symm)]
  refine ⟨?_, fun year => ⟨?_, ?_⟩, hpointed⟩
  · intro uploadId uploadId' upload upload' hu hu' hactive hactive' hyear
    obtain ⟨row, hrow, hrowYear, rfl⟩ := h.listed uploadId upload hu hactive
    exact hpointed row hrow uploadId' upload' hu' hactive' (hyear.symm.trans hrowYear.symm)
  · rintro ⟨row, hrow, rfl⟩
    obtain ⟨upload, hu, hactive, hyear⟩ := h.pointed row hrow
    exact ⟨row.uploadId, upload, hu, hactive, hyear⟩
  · rintro ⟨uploadId, upload, hu, hactive, rfl⟩
    obtain ⟨row, hrow, hyear, -⟩ := h.listed uploadId upload hu hactive
    exact ⟨row, hrow, hyear⟩

/-- Whatever the requests and their order, expiring keys and lost answers included, each
committed state has a single roster for a year. -/
theorem single_active_roster {ι : Type} [DecidableEq ι] (calls : ι → ServiceCall)
    (trace : List (UploadSystem ι × (ι × Choice))) (c : UploadSystem ι)
    (h : Run UploadSystem.Step (UploadSystem.start calls) trace c) :
    Throughout (fun c => SingleRoster c.store) trace c := by
  have hfollows : ∀ i, pendingUpload.Follows (fun _ _ => True) (calls i).program none := by
    intro i
    cases calls i with
    | upload service context file =>
      exact (UploadService.ends_upload context file).mono fun _ _ _ => trivial
    | activate service uploadId rid =>
      exact (Typestate.follows_of_asking (UploadService.asking_activate uploadId rid)
        plain_permitted).mono fun _ _ _ => trivial
  have hrun := Typestate.run_follows (J := fun own w => World.Owned own w) h World.owned_empty
    hfollows fun own ch i r w x t hw hr ha => answer_kept hw hr ha
  exact hrun.imp fun c ⟨own, hw⟩ => hw.toConsistent.singleRoster

def sampleService : UploadService where
  config :=
    { storageDir := "storage", manifestDir := "manifests", maxUploadBytes := 100,
      retryAttempts := 3, namespaceName := "default", idempotencyTtlSeconds := some 60 }
  iterCsvFromZip := fun _ => .error (uploadError .formatUnsupported)
  validate := fun _ => .ok ⟨1, [], .null, []⟩
  sha256 := fun _ => "digest"

def sampleContext : UploadContext where
  profile := "ROSTER_V1"
  year := 1402
  filename := "upload.csv"
  rid := "RID-1"
  namespaceName := "ns"
  idempotencyKey := "key"

def sampleCalls : Fin 2 → ServiceCall
  | 0 => .upload sampleService sampleContext [[97, 13, 10]]
  | 1 => .activate sampleService "1" "RID-2"

/-- The upload runs to its end, then the activation, whose lock expires before it is freed. -/
def sampleOrder : List (Fin 2 × Choice) :=
  (List.replicate 18 (0, { fresh := "1" })).append
    [(1, {}), (1, {}), (1, { fresh := "now" }),
      (1, { expired := ["uploads:default:activate:1402"] })]

theorem single_active_roster_sample : ∃ trace c,
    Run UploadSystem.Step (UploadSystem.start sampleCalls) trace c ∧
    c.store.activeRosters = [⟨1402, "1", "now"⟩] ∧
    Throughout (fun c => SingleRoster c.store) trace c := by
  have hrun : (replay (fun c l => c.next World.answer l) (UploadSystem.start sampleCalls)
      sampleOrder).map (fun c => c.store.activeRosters) = some [⟨1402, "1", "now"⟩] := by
    decide +kernel
  obtain ⟨c, hc, hrosters⟩ := Option.map_eq_some_iff.mp hrun
  exact ⟨_, c, run_of_replay hc, hrosters, single_active_roster sampleCalls _ c (run_of_replay hc)⟩

end Uploads

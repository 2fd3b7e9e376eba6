import MentorAllocation.Concurrency.Protocol
import MentorAllocation.Xlsx.Workflow

namespace Xlsx
open Text Concurrency

/-- A call of one of the processes that share a job store, or the end of a record's time
to live in Redis. -/
inductive StatusCall where
  | createExport (year : Int) (center : Option Int) (fileFormat : String)
  | getExport (exportId : String)
  | expire (exportId : String)

inductive StatusOutcome where
  | exported (result : Except Raised ExportRecord)
  | got (result : Except Raised (Option ExportRecord))
  | expired

abbrev StatusProgram := Program Request Request.Response StatusOutcome

def StatusCall.program (W : ImportToSabtWorkflow) : StatusCall → StatusProgram
  | .createExport year center fileFormat =>
    Program.bind (W.createExport year center fileFormat) fun x => .ret (.exported x)
  | .getExport exportId => Program.bind (Xlsx.getExport exportId) fun x => .ret (.got x)
  | .expire exportId => .ask (.forget exportId) fun _ => .ret .expired

abbrev StatusSystem (ι ω : Type) := Config ι (World ω) Request Request.Response StatusOutcome

def JobPayload.Final (payload : JobPayload) : Prop := payload.status ≠ .pending

structure ExportRecord.Agrees (record : ExportRecord) (payload : JobPayload) : Prop where
  status : record.status = payload.status
  manifest : record.manifest = payload.manifest

section
variable {ι ω : Type} [DecidableEq ι] [DecidableEq ω] (flows : ω → ImportToSabtWorkflow)
  (calls : ι → ω × StatusCall)

def StatusSystem.start : StatusSystem ι ω :=
  ⟨{}, fun i => (calls i).2.program (flows (calls i).1)⟩

def statusAnswer (ch : Choice) (i : ι) : (r : Request) → World ω →
    Option (r.Response × World ω) :=
  World.answer ch (calls i).1

/-- A reader that starts once a final status is recorded returns that status, with the
manifest recorded beside it. -/
def Current (trace : List (StatusSystem ι ω × (ι × Choice))) (c : StatusSystem ι ω) : Prop :=
  ∀ before c₀ l rest, trace = before ++ (c₀, l) :: rest →
    ∀ i id, (calls i).2 = .getExport id →
      c₀.threads i = (calls i).2.program (flows (calls i).1) →
      ∀ q ∈ before ++ [(c₀, l)], ∀ p, q.1.store.jobs id = some p → p.Final →
        ∀ x, c.threads i = .ret x → ∃ record, x = .got (.ok (some record)) ∧ record.Agrees p

/-- The step overwrites no final record, lets none expire, and if it is a reader's, the
store answers it and what it reads is not pending. -/
structure Settled (c : StatusSystem ι ω) (l : ι × Choice) : Prop where
  kept : ∀ id p, (c.Asks l.1 (.forget id) ∨ ∃ payload, c.Asks l.1 (.put id payload)) →
    c.store.jobs id = some p → ¬ p.Final
  read : ∀ id, (calls l.1).2 = .getExport id → c.Asks l.1 (.load id) →
    l.2.raised = none ∧ ∀ p, c.store.jobs id = some p → p.Final

end

section
variable {ω : Type} {s t : World ω}

def World.Kept (s t : World ω) : Prop :=
  ∀ id p, s.jobs id = some p → p.Final → t.jobs id = some p

/-- Whatever a process remembers of an export is what the job store ended with. -/
def World.Truthful (s : World ω) : Prop :=
  ∀ w id record, (s.memory w).exports id = some record →
    ∃ p, s.jobs id = some p ∧ p.Final ∧ record.Agrees p

theorem World.Kept.refl : s.Kept s := fun _ _ h _ => h

theorem World.Kept.trans {u : World ω} (h : s.Kept t) (h' : t.Kept u) : s.Kept u :=
  fun id p hp hf => h' id p (h id p hp hf) hf

/-- A step that changes neither the records nor what is remembered of them. -/
theorem quiet_step (hinv : s.Truthful) (hjobs : t.jobs = s.jobs)
    (hexports : ∀ w, (t.memory w).exports = (s.memory w).exports) :
    t.Truthful ∧ s.Kept t := by
  constructor
  · intro w id record h
    rw [hexports] at h
    obtain ⟨p, hp, hrest⟩ := hinv w id record h
    exact ⟨p, hjobs ▸ hp, hrest⟩
  · intro id p hp _
    rw [hjobs]
    exact hp

/-- A record that is not final gives way. -/
theorem setJob_step {id : String} (payload : Option JobPayload)
    (hinv : s.Truthful) (hopen : ∀ p, s.jobs id = some p → ¬ p.Final) :
    (s.setJob id payload).Truthful ∧ s.Kept (s.setJob id payload) := by
  have hkept : s.Kept (s.setJob id payload) := by
    intro id' p hp hf
    have hne : id' ≠ id := by
      rintro rfl
      exact hopen p hp hf
    simpa [World.setJob, hne] using hp
  refine ⟨fun w id' record h => ?_, hkept⟩
  obtain ⟨p, hp, hf, ha⟩ := hinv w id' record h
  exact ⟨p, hkept id' p hp hf, hf, ha⟩

end

section
variable {ι ω : Type} [DecidableEq ω] {calls : ι → ω × StatusCall}

/-- What a step has to respect, for the request it answers. -/
def Respects (call : StatusCall) (ch : Choice) (s : World ω) : Request → Prop
  | .put id _ => ∀ p, s.jobs id = some p → ¬ p.Final
  | .forget id => ∀ p, s.jobs id = some p → ¬ p.Final
  | .load id => call = .getExport id → ch.raised = none ∧ ∀ p, s.jobs id = some p → p.Final
  | _ => True

def statusProtocol (calls : ι → ω × StatusCall) :
    Protocol Choice ι (World ω) Request Request.Response where
  answer := statusAnswer calls
  inv := World.Truthful
  rely := fun _ => World.Kept
  guar := fun _ => World.Kept
  allowed := fun ch i r s => Respects (calls i).2 ch s r
  guar_rely := fun _ _ _ _ _ h => h
  rely_refl := fun _ _ => .refl
  rely_trans := fun _ _ _ _ => .trans

variable {i : ι} {s : World ω}

/-- A true record of a final status is remembered. -/
theorem cacheExport_step {s₁ : World ω} (w : ω) {id : String} {record : ExportRecord}
    {p : JobPayload} (hinv : s₁.Truthful) (hp : s₁.jobs id = some p) (hf : p.Final)
    (ha : record.Agrees p) :
    (s₁.cacheExport w id record).Truthful ∧ s₁.Kept (s₁.cacheExport w id record) := by
  refine ⟨fun w' id' r h => ?_, fun _ _ h _ => h⟩
  by_cases hw : w' = w
  · subst hw
    by_cases hid : id' = id
    · subst hid
      obtain rfl : record = r := by simpa [World.cacheExport, World.setMemory] using h
      exact ⟨p, hp, hf, ha⟩
    · exact hinv w' id' r (by simpa [World.cacheExport, World.setMemory, hid] using h)
  · exact hinv w' id' r (by simpa [World.cacheExport, World.setMemory, hw] using h)

/-- Requests that change neither the records nor what is remembered of them. -/
def Quiet : Request → Prop
  | .put _ _ | .forget _ | .setDefault _ _ | .cache _ _ => False
  | _ => True

theorem quiet_answer {ch : Choice} {w : ω} {r : Request} {x : r.Response} {s₁ s₂ : World ω}
    (hq : Quiet r) (h : World.answer ch w r s₁ = some (x, s₂)) :
    s₂.jobs = s₁.jobs ∧ ∀ w, (s₂.memory w).exports = (s₁.memory w).exports := by
  cases r with
  | nextCounter =>
    obtain ⟨-, rfl⟩ := Prod.mk.inj (Option.some.inj h)
    refine ⟨rfl, fun w' => ?_⟩
    by_cases hw : w' = w
    · subst hw
      simp [World.setMemory]
    · simp [World.setMemory, hw]
  | write name content =>
    obtain ⟨-, rfl⟩ := Prod.mk.inj (Option.some.inj h)
    split <;> exact ⟨rfl, fun _ => rfl⟩
  | put | forget | setDefault | cache => cases hq
  | _ =>
    obtain ⟨-, rfl⟩ := Prod.mk.inj (Option.some.inj h)
    exact ⟨rfl, fun _ => rfl⟩

theorem returns_quiet {α : Type} {r : Request} (hq : Quiet r)
    (k : r.Response → Except Raised α) :
    (statusProtocol calls).Returns i (fun _ t => s.Kept t)
      (Program.ask r fun x => Program.ret (k x)) s := by
  intro s₁ hr hi ch x s₂ _ hx
  obtain ⟨hjobs, hexports⟩ := quiet_answer hq hx
  obtain ⟨hinv, hkept⟩ := quiet_step hi hjobs hexports
  exact ⟨hinv, hkept, fun _ _ => hr.trans hkept⟩

theorem returns_nowIso : (statusProtocol calls).Returns i (fun _ t => s.Kept t) nowIso s :=
  returns_quiet (r := .now) trivial .ok

theorem returns_load (id : String) :
    (statusProtocol calls).Returns i (fun _ t => s.Kept t) (load id) s :=
  returns_quiet (r := .load id) trivial fun x => x

theorem returns_fetchRows (year : Int) (center : Option Int) :
    (statusProtocol calls).Returns i (fun _ t => s.Kept t) (fetchRows year center) s :=
  returns_quiet (r := .fetchRows year center) trivial fun x => x

theorem returns_writeFile (name : String) (content : Bytes) :
    (statusProtocol calls).Returns i (fun _ t => s.Kept t) (writeFile name content) s :=
  returns_quiet (r := .write name content) trivial fun x => x

theorem returns_readFile (name : String) :
    (statusProtocol calls).Returns i (fun _ t => s.Kept t) (readFile name) s :=
  returns_quiet (r := .read name) trivial fun x => x

theorem returns_nextId (W : ImportToSabtWorkflow) (kind : String) :
    (statusProtocol calls).Returns i (fun _ _ => True) (W.nextId kind) s :=
  .bind (returns_quiet (r := .nextCounter) trivial .ok) fun _ _ _ => .ok trivial

theorem returns_put (id : String) (payload : JobPayload) :
    (statusProtocol calls).Returns i (fun _ t => t.jobs id = some payload)
      (put id payload) s := by
  intro s₁ _ hi ch x s₂ ha hx
  obtain ⟨rfl, rfl⟩ := Prod.mk.inj (Option.some.inj hx)
  by_cases he : ch.takesEffect
  · rw [if_pos he]
    obtain ⟨hinv, hkept⟩ := setJob_step (some payload) hi ha
    exact ⟨hinv, hkept, fun _ _ => by simp [World.setJob]⟩
  · rw [if_neg he]
    refine ⟨hi, .refl, fun a hok => ?_⟩
    -- a store that answers has recorded what it was given
    cases hr : ch.raised with
    | none => simp [Choice.takesEffect, hr] at he
    | some e => simp [Choice.verdict, hr] at hok

theorem returns_begin (id fileFormat : String) (filters : Option Filters) :
    (statusProtocol calls).Returns i (fun _ _ => True)
      (ExportJobStore.begin id fileFormat filters) s := by
  refine .bind (returns_nowIso) fun _ _ _ => ?_
  refine .bind (returns_nowIso) fun _ _ _ => ?_
  exact .bind (returns_put _ _) fun _ _ _ => .ok trivial

theorem returns_loadOrBegin (id : String) :
    (statusProtocol calls).Returns i (fun _ _ => True) (ExportJobStore.loadOrBegin id) s := by
  refine .bind (returns_load id) fun payload _ _ => ?_
  cases payload with
  | none => exact returns_begin _ _ _
  | some payload => exact .ok trivial

theorem returns_complete (id artifactPath manifestPath : String) (files : List FileMetadata)
    (excelSafety : ExcelSafety) (manifest : Manifest) :
    (statusProtocol calls).Returns i (fun payload t => t.jobs id = some payload ∧
        payload.status = .success ∧ payload.manifest = some manifest)
      (ExportJobStore.complete id artifactPath manifestPath files excelSafety manifest) s := by
  refine .bind (returns_loadOrBegin id) fun _ _ _ => ?_
  refine .bind (returns_nowIso) fun _ _ _ => ?_
  exact .bind (returns_put _ _) fun _ _ hput => .ok ⟨hput, rfl, rfl⟩

theorem returns_fail (id : String) (error : JobError) :
    (statusProtocol calls).Returns i (fun _ _ => True) (ExportJobStore.fail id error) s := by
  refine .bind (returns_loadOrBegin id) fun _ _ _ => ?_
  refine .bind (returns_nowIso) fun _ _ _ => ?_
  exact .bind (returns_put _ _) fun _ _ _ => .ok trivial

/-- What a process that finished an export remembers of it is what it recorded. -/
theorem returns_setDefault {id : String} {record : ExportRecord} {p : JobPayload}
    (hp : s.jobs id = some p) (hf : p.Final) (ha : record.Agrees p) :
    (statusProtocol calls).Returns i (fun _ _ => True)
      (Fallible.call (Request.setDefault id record) : Call Unit) s := by
  intro s₁ hr hi ch x s₂ _ hx
  obtain ⟨-, rfl⟩ := Prod.mk.inj (Option.some.inj hx)
  split
  · exact ⟨hi, .refl, fun _ _ => trivial⟩
  · obtain ⟨hinv, hkept⟩ := cacheExport_step (calls i).1 hi (hr id p hp hf) hf ha
    exact ⟨hinv, hkept, fun _ _ => trivial⟩

theorem returns_writeArtifact (W : ImportToSabtWorkflow) (id : String) (rows : List Export.Row)
    (fileFormat : String) :
    (statusProtocol calls).Returns i (fun _ _ => True) (W.writeArtifact id rows fileFormat) s := by
  unfold ImportToSabtWorkflow.writeArtifact
  split
  · exact .bind (returns_writeFile _ _) fun _ _ _ => .ok trivial
  · split
    · exact .bind (returns_writeFile _ _) fun _ _ _ => .ok trivial
    · exact .raise

theorem returns_produce (W : ImportToSabtWorkflow) (id fileFormat : String) (filters : Filters) :
    (statusProtocol calls).Returns i (fun _ _ => True) (W.produce id fileFormat filters) s := by
  refine .bind (returns_fetchRows _ _) fun rows _ _ => ?_
  split
  · exact .raise
  refine .bind (returns_writeArtifact W id _ fileFormat) fun artifact _ _ => ?_
  refine .bind (returns_readFile _) fun content _ _ => ?_
  refine .bind (returns_nowIso) fun generatedAt _ _ => ?_
  refine .bind (returns_writeFile _ _) fun _ _ _ => ?_
  refine .bind (returns_complete _ _ _ _ _ _) fun payload t ⟨hjob, hstatus, hmanifest⟩ => ?_
  have hfinal : payload.Final := by simp [JobPayload.Final, hstatus]
  refine .bind (returns_readFile _) fun _ u hkept => ?_
  exact .bind (returns_setDefault (hkept id payload hjob hfinal) hfinal
    ⟨hstatus.symm, hmanifest.symm⟩) fun _ _ _ => .ok trivial

theorem returns_createExport (W : ImportToSabtWorkflow) (year : Int) (center : Option Int)
    (fileFormat : String) :
    (statusProtocol calls).Returns i (fun _ _ => True)
      (W.createExport year center fileFormat) s := by
  refine .bind (returns_nextId W _) fun id _ _ => ?_
  refine .bind (returns_begin _ _ _) fun _ _ _ => ?_
  refine .handle (returns_produce W _ _ _) (fun _ _ _ => .ok trivial) fun raised _ => ?_
  exact .bind (returns_fail _ _) fun _ _ _ => .raise

/-- A reader's outcome, by what was final when it started. -/
def readerPost (start : World ω) (id : String) (x : StatusOutcome) : Prop :=
  ∀ p, start.jobs id = some p → p.Final →
    ∃ record, x = .got (.ok (some record)) ∧ record.Agrees p

theorem safe_getExport {id : String} (hcall : (calls i).2 = .getExport id) :
    (statusProtocol calls).Safe i (fun x _ => readerPost s id x)
      (Program.bind (getExport id) fun x => .ret (.got x)) s := by
  intro s₁ hr hi ch x s₂ _ hx
  obtain ⟨rfl, rfl⟩ := Prod.mk.inj (Option.some.inj hx)
  refine ⟨hi, .refl, ?_⟩
  cases hcached : (s₁.memory (calls i).1).exports id with
  | some record =>
    intro p hp hf
    obtain ⟨q, hq, -, ha⟩ := hi _ id record hcached
    obtain rfl : q = p := Option.some.inj (hq.symm.trans (hr id p hp hf))
    exact ⟨record, rfl, ha⟩
  | none =>
    intro s₃ hr₃ hi₃ ch₃ y s₄ hallowed hy
    obtain ⟨rfl, rfl⟩ := Prod.mk.inj (Option.some.inj hy)
    obtain ⟨hraised, hfinal⟩ := hallowed hcall
    refine ⟨hi₃, .refl, ?_⟩
    have hverdict : ch₃.verdict (s₃.jobs id) = .ok (s₃.jobs id) := by
      simp [Choice.verdict, hraised]
    rw [hverdict]
    cases hjob : s₃.jobs id with
    | none =>
      intro p hp hf
      rw [hr₃ id p (hr id p hp hf) hf] at hjob
      cases hjob
    | some p =>
      intro s₅ hr₅ hi₅ ch₅ z s₆ _ hz
      obtain ⟨-, rfl⟩ := Prod.mk.inj (Option.some.inj hz)
      have hf := hfinal p hjob
      have hagrees : (recordOf id p).Agrees p := ⟨rfl, rfl⟩
      obtain ⟨hinv, hkept⟩ := cacheExport_step (calls i).1 hi₅ (hr₅ id p hjob hf) hf hagrees
      refine ⟨hinv, hkept, fun q hq hqf => ⟨_, rfl, ?_⟩⟩
      obtain rfl : p = q := Option.some.inj (hjob.symm.trans (hr₃ id q (hr id q hq hqf) hqf))
      exact ⟨rfl, rfl⟩

/-- What each call promises, seen from a state it may start in. -/
def statusPost (call : StatusCall) (start : World ω) (x : StatusOutcome) : Prop :=
  ∀ id, call = .getExport id → readerPost start id x

theorem safe_call (W : ImportToSabtWorkflow) :
    (statusProtocol calls).Safe i (fun x _ => statusPost (calls i).2 s x)
      ((calls i).2.program W) s := by
  cases hcall : (calls i).2 with
  | createExport year center fileFormat =>
    refine (Protocol.safe_bind _ _ s).mpr
      (Protocol.Safe.mono (returns_createExport W year center fileFormat) fun x t _ => ?_)
    intro id h
    cases h
  | getExport id =>
    refine Protocol.Safe.mono (safe_getExport hcall) fun x t h id' hid => ?_
    obtain rfl := StatusCall.getExport.inj hid
    exact h
  | expire id =>
    intro s₁ _ hi ch x s₂ ha hx
    obtain ⟨-, rfl⟩ := Prod.mk.inj (Option.some.inj hx)
    obtain ⟨hinv, hkept⟩ := setJob_step none hi ha
    exact ⟨hinv, hkept, fun id' h => nomatch h⟩

variable [DecidableEq ι] {flows : ω → ImportToSabtWorkflow} {c c₀ : StatusSystem ι ω}
  {trace rest : List (StatusSystem ι ω × (ι × Choice))} {l : ι × Choice}

omit [DecidableEq ι] in
theorem permitted_of_settled (h : Settled calls c l) :
    (statusProtocol calls).Permitted c l := by
  intro r rest hask
  have hasks : c.Asks l.1 r := (Config.asks_iff hask).mpr rfl
  cases r with
  | put id payload => exact fun p => h.kept id p (.inr ⟨payload, hasks⟩)
  | forget id => exact fun p => h.kept id p (.inl hasks)
  | load id =>
    intro hcall
    exact h.read id hcall hasks
  | _ => trivial

theorem run_settled (h : Run (Config.Step (statusAnswer calls)) (StatusSystem.start flows calls)
      trace c) (settled : EachStep (Settled calls) trace) :
    Throughout ((statusProtocol calls).Secure fun _ _ _ => True) trace c ∧
      (trace.map Prod.fst ++ [c]).Pairwise fun a b => a.store.Kept b.store := by
  have base : (statusProtocol calls).Secure (fun _ _ _ => True)
      (StatusSystem.start flows calls) := by
    refine ⟨fun w id record h => ?_, fun i => (safe_call _).mono fun _ _ _ => trivial⟩
    cases h
  have permits := settled.weaken fun c l => permitted_of_settled
  exact ⟨Protocol.run_secure h base (fun _ _ _ _ _ _ => trivial) permits,
    Protocol.run_guarantees h base (fun _ _ _ _ _ _ => trivial) permits
      (fun _ _ _ hk => hk) fun _ _ _ => World.Kept.trans⟩

/-- A reader started in `c₀` ends with what was final there. -/
theorem reader_current (h : Run (Config.Step (statusAnswer calls)) c₀ ((c₀, l) :: rest) c)
    (settled : EachStep (Settled calls) ((c₀, l) :: rest))
    (secure : (statusProtocol calls).Secure (fun _ _ _ => True) c₀) {i : ι} {id : String}
    (hcall : (calls i).2 = .getExport id)
    (hstart : c₀.threads i = (calls i).2.program (flows (calls i).1)) {x : StatusOutcome}
    (hx : c.threads i = .ret x) : readerPost c₀.store id x := by
  have base : (statusProtocol calls).Secure
      (fun j x _ => j = i → readerPost c₀.store id x) c₀ := by
    refine ⟨secure.1, fun j => ?_⟩
    by_cases hj : j = i
    · subst hj
      rw [hstart]
      exact (safe_call _).mono fun x t hpost _ => hpost id hcall
    · exact (secure.2 j).mono fun x t _ he => absurd he hj
  have hend := Protocol.run_secure h base (fun _ _ _ _ _ hpost => hpost)
    (settled.weaken fun c l => permitted_of_settled)
  exact hend.2.outcome hx rfl

/-- As long as nothing is read while it is pending, and no final record is written over
or expires, every reader sees the final status from then on. -/
theorem status_current
    (h : Run (Config.Step (statusAnswer calls)) (StatusSystem.start flows calls) trace c)
    (settled : EachStep (Settled calls) trace) : Current flows calls trace c := by
  rintro before c₀ l rest rfl i id hcall hstart q hq p hp hf x hx
  obtain ⟨hsecure, hkept⟩ := run_settled h settled
  have hp₀ : c₀.store.jobs id = some p := by
    rcases List.mem_append.mp hq with hq | hq
    · rw [List.map_append, List.append_assoc] at hkept
      exact (List.pairwise_append.mp hkept).2.2 q.1 (List.mem_map_of_mem hq) c₀ (by simp) id p hp hf
    · rw [List.mem_singleton.mp hq] at hp
      exact hp
  have hsuffix : EachStep (Settled calls) ((c₀, l) :: rest) :=
    fun q hq => settled q (List.mem_append_right _ hq)
  exact reader_current h.suffix hsuffix (hsecure.1 (c₀, l) (by simp)) hcall hstart hx p hp₀ hf

end

def firstExport : String := "export-export:1"

inductive Party where
  | exporter
  | early
  | late
  deriving DecidableEq

def sampleCalls : Party → Unit × StatusCall
  | .exporter => ((), .createExport 1403 none "csv")
  | .early | .late => ((), .getExport firstExport)

def sampleStart : StatusSystem Party Unit := .start (fun _ => plainFlow) sampleCalls

/-- The steps of an export that begins its record, and of one that then succeeds. -/
def beginning : List (Party × Choice) := List.replicate 4 (.exporter, {})

def finishing : List (Party × Choice) := 
  (.exporter, { rows := [[]] }) :: List.replicate 9 (.exporter, {})

def reading : List (Party × Choice) := List.replicate 3 (.early, {})

def lateReading : List (Party × Choice) := [(.late, {})]

def settledCheck (p : StatusSystem Party Unit × (Party × Choice)) : Bool :=
  match (p.1.threads p.2.1).asked? with
  | some (.put id _) | some (.forget id) =>
    (p.1.store.jobs id).all fun payload => payload.status == .pending
  | some (.load id) => p.2.1 == .exporter || p.2.2.raised.isNone &&
      (p.1.store.jobs id).all fun payload => payload.status != .pending
  | _ => true

theorem settled_of_check (c : StatusSystem Party Unit) (l : Party × Choice)
    (h : settledCheck (c, l) = true) : Settled sampleCalls c l where
  kept := by
    rintro id p (hask | ⟨payload, hask⟩) hp hf <;> unfold Config.Asks at hask <;>
      simp [settledCheck, hask, hp] at h <;> exact hf h
  read := by
    intro id hcall hask
    have hne : l.1 ≠ .exporter := by
      intro h0
      rw [h0] at hcall
      cases hcall
    unfold Config.Asks at hask
    simp only [settledCheck, hask, Bool.or_eq_true, beq_iff_eq, hne, false_or,
      Bool.and_eq_true, Option.isNone_iff_eq_none] at h
    refine ⟨h.1, fun p hp => ?_⟩
    simpa [hp, JobPayload.Final] using h.2

/-- A reader that comes when the export is done sees that it is. -/
theorem status_current_after : ∃ trace c,
    Run (Config.Step (statusAnswer sampleCalls)) sampleStart trace c ∧
    (c.store.jobs firstExport).map (·.status) = some .success ∧
    Current (fun _ => plainFlow) sampleCalls trace c := by
  have hrun : (replay (fun c l => c.next (statusAnswer sampleCalls) l) sampleStart
      (beginning ++ finishing ++ lateReading)).map
      (fun c => (c.store.jobs firstExport).map (·.status)) = some (some .success) := by
    decide +kernel
  obtain ⟨c, hc, hstatus⟩ := Option.map_eq_some_iff.mp hrun
  have hall : (trail (fun c l => c.next (statusAnswer sampleCalls) l) sampleStart
      (beginning ++ finishing ++ lateReading)).all settledCheck = true := by
    decide +kernel
  exact ⟨_, c, run_of_replay hc, hstatus, status_current (run_of_replay hc)
    (eachStep_of_all hall settled_of_check)⟩

/-- A reader came while the export was pending: the next one, after its end, is still told
so. -/
theorem pending_forever : ∃ trace c,
    Run (Config.Step (statusAnswer sampleCalls)) sampleStart trace c ∧
    ¬ Current (fun _ => plainFlow) sampleCalls trace c := by
  have hrun : (replay (fun c l => c.next (statusAnswer sampleCalls) l) sampleStart
      (beginning ++ reading ++ finishing)).map (fun c =>
        ((c.store.jobs firstExport).map (·.status),
          ((c.store.memory ()).exports firstExport).map (·.status))) =
      some (some .success, some .pending) := by
    decide +kernel
  obtain ⟨c, hc, hstatus⟩ := Option.map_eq_some_iff.mp hrun
  obtain ⟨hjob, hcached⟩ := Prod.mk.inj hstatus
  obtain ⟨p, hp, hsuccess⟩ := Option.map_eq_some_iff.mp hjob
  obtain ⟨record, hrecord, hpending⟩ := Option.map_eq_some_iff.mp hcached
  have hstart : c.threads .late = StatusCall.program plainFlow (.getExport firstExport) :=
    Config.replay_other hc (by decide)
  have hanswer : statusAnswer sampleCalls {} .late (.cached firstExport) c.store =
      some (some record, c.store) := by
    rw [← hrecord]
    rfl
  refine ⟨_, _, (run_of_replay hc).snoc (Config.next_of_ask hstart hanswer), fun hcurrent => ?_⟩
  obtain ⟨r, hr, hagrees⟩ := hcurrent _ c _ [] rfl .late firstExport rfl hstart (c, (.late, {}))
    (by simp) p hp (by simp [JobPayload.Final, hsuccess]) 
    (.got (.ok (some record))) (Function.update_self Party.late _ c.threads)
  obtain rfl : record = r := Option.some.inj (Except.ok.inj (StatusOutcome.got.inj hr))
  exact absurd (hpending.symm.trans (hagrees.status.trans hsuccess)) (by decide)

end Xlsx

import MentorAllocation.Audit.Enforcer

namespace Audit
open Data Effects Files Text

structure View where
  files : PurePath → Option (List UInt8)
  release : Option (List UInt8)
  events : List AuditEvent

def World.view (w : World) : View := ⟨w.disk.read, w.release, w.events⟩

namespace View

def write (v : View) (path : PurePath) (contents : List UInt8) : View :=
  { v with files := fun q => if q = path then some contents else v.files q }

/-- Without the parts of files that a directory holds. -/
def clean (v : View) (base : PurePath) : View :=
  { v with files := fun q =>
      if q.parent = base ∧ AuditArchiver.isPart q.name = true then none else v.files q }

def drop (v : View) (start stop : DateTime) : View :=
  { v with events := v.events.filter fun event => !AuditArchiver.inWindow start stop event }

end View

def Seen (P : View → Prop) (w : World) : Prop := P w.view

variable {P Q : View → Prop} {α : Type} {A : AuditArchiver} {window window' : AuditArchiveWindow}
  {path : PurePath} {contents : List UInt8}

@[simp] theorem exec_ofExcept (x : Except Raised α) (w : World) :
    exec (Act.ofExcept x) w = (x, w) := by
  cases x with
  | ok a => rfl
  | error e => rfl

theorem meets_ofExcept {R : World → Prop} (x : Except Raised α) :
    Meets R (Act.ofExcept x) (fun a w => R w ∧ x = .ok a) R := by
  cases x with
  | ok a => exact .pure fun w hw => ⟨hw, rfl⟩
  | error e => exact .throw fun w hw => hw

theorem keeps_ofExcept {R : World → Prop} (x : Except Raised α) : Keeps R (Act.ofExcept x) :=
  (meets_ofExcept x).mono (fun _ h => h) (fun _ _ h => h.1) fun _ h => h

theorem exec_call_cases (raised : Raised) (w : World) :
    exec (Act.call raised) w = (.ok (), { w with faults := w.faults.tail }) ∨
      exec (Act.call raised) w = (.error raised, { w with faults := w.faults.tail }) := by
  obtain ⟨disk, release, events, faults⟩ := w
  rw [Act.call, exec_bind_ok (exec_get _)]
  cases faults with
  | nil => exact .inl rfl
  | cons failing rest =>
    cases failing with
    | false => exact .inl rfl
    | true => exact .inr rfl

/-- A call takes a failure off the schedule and changes nothing else, whether it fails or not. -/
theorem keeps_call {R : World → Prop} (hR : ∀ w faults, R w → R { w with faults })
    (raised : Raised) : Keeps R (Act.call raised) where
  ok {w _ _} hw hm := by
    rcases exec_call_cases raised w with h | h
    · cases h.symm.trans hm
      exact hR w _ hw
    · cases h.symm.trans hm
  error {w _ _} hw hm := by
    rcases exec_call_cases raised w with h | h
    · cases h.symm.trans hm
    · cases h.symm.trans hm
      exact hR w _ hw

theorem meets_call (raised : Raised) : Keeps (Seen P) (Act.call raised) :=
  keeps_call (fun _ _ h => h) raised

/-- The next call of a world without a schedule is answered. -/
theorem exec_call {w : World} (h : w.faults = []) (raised : Raised) :
    exec (Act.call raised) w = (.ok (), w) := by
  rw [Act.call, exec_bind_ok (exec_get w), h]
  rfl

theorem exec_onDisk {w : World} (h : w.faults = []) (f : Disk → Option Disk) :
    exec (Act.onDisk f) w = match f w.disk with
      | some disk => (.ok (), { w with disk := disk })
      | none => (.error .osError, w) := by
  rw [Act.onDisk, exec_bind_ok (exec_call h _), exec_bind_ok (exec_get w)]
  cases f w.disk with
  | some disk => rfl
  | none => rfl

theorem meets_onDisk {f : Disk → Option Disk}
    (h : ∀ (w : World) disk, P w.view → f w.disk = some disk →
      Q { w.view with files := disk.read }) :
    Meets (Seen P) (Act.onDisk f) (fun _ => Seen Q) (Seen P) := by
  refine (meets_call _).bind fun _ => .get fun w hw => ?_
  split
  · next disk hdisk => exact .set (h w disk hw hdisk)
  · exact .throw fun _ hs => hs ▸ hw

theorem meets_mkdir (base : PurePath) :
    Meets (Seen P) (Act.onDisk fun disk => disk.mkdir base) (fun _ => Seen P) (Seen P) := by
  refine meets_onDisk fun w disk hw hdisk => ?_
  rwa [funext (Disk.mkdir_spec hdisk).2]

theorem meets_atomicWrite (h : ∀ v, P v → Q (v.write path contents)) :
    Meets (Seen P) (Act.onDisk fun disk => disk.atomicWrite path contents) (fun _ => Seen Q)
      (Seen P) := by
  refine meets_onDisk fun w disk hw hdisk => ?_
  obtain ⟨hwritten, hothers⟩ := Disk.atomicWrite_spec hdisk
  have hread : disk.read = fun q => if q = path then some contents else w.disk.read q := by
    funext q
    split
    · next heq => rw [heq, hwritten]
    · next hne => exact hothers q hne
  rw [hread]
  exact h w.view hw

theorem meets_artifactPath (path : PurePath) : Meets (Seen P) (A.artifactPath window path)
    (fun found w => Seen P w ∧ found = path) (Seen P) :=
  (meets_mkdir _).bind fun _ => .pure fun _ hw => ⟨hw, rfl⟩

/-- The parts of files are removed, or left where they cannot be. -/
theorem meets_cleanupParts (hleft : ∀ v, P v → Q v)
    (h : ∀ v, P v → Q (v.clean (A.baseOf window))) :
    Meets (Seen P) (A.cleanupParts window) (fun _ => Seen Q) (Seen P) := by
  refine (meets_artifactPath _).fst.bind fun _ => ?_
  refine (meets_onDisk fun w disk hw hdisk => ?_).tryCatch fun _ => .pure fun w hw => hleft _ hw
  obtain rfl := Option.some.inj hdisk
  have hread := h w.view hw
  rwa [View.clean, World.view, ← funext (Disk.read_unlinkIn w.disk (A.baseOf window) _)] at hread

/-- The artifact of a file that can be read. -/
theorem meets_artifactOf (path : PurePath) : Meets (Seen P) (A.artifactOf path)
    (fun artifact w => Seen P w ∧ ∃ bytes, w.view.files path = some bytes ∧
      artifact = ⟨path, A.lib.sha256 bytes, bytes.length⟩) (Seen P) := by
  refine (meets_call _).bind fun _ => .get fun w hw => ?_
  cases hread : w.disk.read path with
  | none => exact .throw fun _ h => h ▸ hw
  | some bytes => exact .pure fun _ h => h ▸ ⟨hw, bytes, hread, rfl⟩

theorem meets_atomicWriteJson {payload : Json}
    (h : ∀ v, printable payload = true → P v →
      Q (v.write path (encode (Json.dumps .compact payload)))) :
    Meets (Seen P) (AuditArchiver.atomicWriteJson path payload)
      (fun size w => Seen Q w ∧ size = (encode (Json.dumps .compact payload)).length) (Seen P) := by
  unfold AuditArchiver.atomicWriteJson
  split
  · exact .throw_bind fun _ hw => hw
  · next hprints =>
    have hprints : printable payload = true := by simpa using hprints
    exact (meets_atomicWrite (h · hprints)).bind fun _ => .pure fun _ hw => ⟨hw, rfl⟩

end Audit

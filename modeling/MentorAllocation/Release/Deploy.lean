import MentorAllocation.Concurrency.Program
import MentorAllocation.Files.Tree

namespace Release
open Concurrency Files

inductive Failure where
  | os (errno : Errno)
  | runtimeError (message : String)
  deriving DecidableEq, Repr

structure HandoffState where
  buildId : String
  source : PurePath
  rollback : Bool
  timestamp : Int
  rid : String
  deriving DecidableEq, Repr

/-- One operation on the file system, by names of the releases directory. -/
inductive FileOp where
  | exists (name : String)
  | isSymlink (name : String)
  | resolve (name : String)
  | replace (source target : String)
  | symlink (target : PurePath) (name : String)
  | unlink (name : String)
  | atomicWrite (name : String) (state : HandoffState)
  deriving DecidableEq, Repr

abbrev FileOp.Resp : FileOp → Type
  | .exists _ | .isSymlink _ => Bool
  | .resolve _ => Except Failure Location
  | _ => Except Failure Unit

abbrev Script (α : Type) : Type := Fallible FileOp FileOp.Resp Failure α

namespace Script

def exists? (name : String) : Script Bool := Program.ask (.exists name) fun b => .ret (.ok b)

def isSymlink (name : String) : Script Bool := Program.ask (.isSymlink name) fun b => .ret (.ok b)

def resolve (name : String) : Script Location := Program.ask (.resolve name) .ret

def replace (source target : String) : Script Unit := Program.ask (.replace source target) .ret

def symlink (target : PurePath) (name : String) : Script Unit :=
  Program.ask (.symlink target name) .ret

def unlink (name : String) : Script Unit := Program.ask (.unlink name) .ret

def atomicWrite (name : String) (state : HandoffState) : Script Unit :=
  Program.ask (.atomicWrite name state) .ret

end Script

structure HandoffResult where
  buildId : String
  previousTarget : Option Location
  currentTarget : PurePath
  deriving DecidableEq, Repr

/-- `_atomic_symlink_swap`. Of the resolved path only whether there is one matters. -/
def atomicSymlinkSwap (current previous : String) (target : PurePath) : Script Unit := do
  let taken ← if ← Script.exists? current then pure true else Script.isSymlink current
  if taken then
    let _ ← Script.resolve current
    Script.replace current (previous ++ ".tmp")
    Script.replace (previous ++ ".tmp") previous
  if ← Script.exists? (current ++ ".new") then Script.unlink (current ++ ".new")
  Script.symlink target (current ++ ".new")
  Script.replace (current ++ ".new") current
  if !taken then
    if ← Script.exists? previous then Script.unlink previous

/-- What a `ZeroDowntimeHandoff` is built from, and the process's working directory. -/
structure ZeroDowntimeHandoff where
  releasesDir : Location
  workingDir : Location
  /-- `sha256_bytes` of a text in UTF-8. -/
  sha256 : String → String

/-- One call, with what the clock reads in it. The lock file makes calls take turns. -/
inductive Call where
  | promote (buildId : String) (source : PurePath) (now : Int)
  | rollback (now : Int)
  deriving DecidableEq, Repr

namespace ZeroDowntimeHandoff
variable (H : ZeroDowntimeHandoff)

def rid (text : String) : String := ((H.sha256 text).take 12).toString

def promote (buildId : String) (source : PurePath) (now : Int) : Script HandoffResult := do
  let previousTarget ←
    if ← Script.exists? "current" then some <$> Script.resolve "current" else pure none
  atomicSymlinkSwap "current" "previous" source
  Script.atomicWrite "handoff.json"
    { buildId, source, rollback := false, timestamp := now, rid := H.rid buildId }
  return ⟨buildId, previousTarget, source⟩

/-- The text of a place, as `str` gives it. -/
def pathText (l : Location) : String := "/" ++ "/".intercalate l

def rollback (now : Int) : Script HandoffResult := do
  if !(← Script.exists? "previous") then Fallible.raise (.runtimeError "ROLLBACK_UNAVAILABLE")
  let previousTarget ←
    if ← Script.exists? "current" then some <$> Script.resolve "current" else pure none
  let target ← Script.resolve "previous"
  let path : PurePath := ⟨true, target⟩
  atomicSymlinkSwap "current" "previous" path
  let name := target.getLast?.getD ""
  Script.atomicWrite "handoff.json"
    { buildId := name, source := path, rollback := true, timestamp := now,
      rid := H.rid (pathText target) }
  return ⟨name, previousTarget, path⟩

def script : Call → Script HandoffResult
  | .promote buildId source now => H.promote buildId source now
  | .rollback now => H.rollback now

/-- The links the kernel follows before it gives up. -/
def linkLimit : Nat := 40

def lead (t : FileTree HandoffState) (name : String) : Except Errno Location :=
  t.resolve linkLimit H.releasesDir [name]

def entry (name : String) : Location := H.releasesDir ++ [name]

/-- `Path.resolve`, not strict: it minds a loop of links but not a missing file, whose
place is then what the path itself says. -/
def resolvePath (t : FileTree HandoffState) (name : String) : Except Failure Location :=
  match H.lead t name with
  | .ok l => .ok l
  | .error .loop => .error (.runtimeError "Symlink loop")
  | .error _ => .ok (H.entry name)

/-- A call of the system that changes the tree or leaves it as it is. -/
def settle (t : FileTree HandoffState) :
    Except Errno (FileTree HandoffState) → Except Failure Unit × FileTree HandoffState
  | .ok t' => (.ok (), t')
  | .error e => (.error (.os e), t)

def perform (op : FileOp) (t : FileTree HandoffState) : op.Resp × FileTree HandoffState :=
  match op with
  | .exists name => (H.lead t name |>.isOk, t)
  | .isSymlink name => (match t.get (H.entry name) with
    | some (.link _) => true
    | _ => false, t)
  | .resolve name => (H.resolvePath t name, t)
  | .replace source target => settle t (t.rename (H.entry source) (H.entry target))
  | .symlink target name => settle t (t.symlink target (H.entry name))
  | .unlink name => settle t (t.unlink (H.entry name))
  | .atomicWrite name state => settle t (t.install (H.entry name) state)

end ZeroDowntimeHandoff

end Release

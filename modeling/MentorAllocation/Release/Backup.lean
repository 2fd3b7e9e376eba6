import MentorAllocation.Sorting.Stable
import MentorAllocation.Text.Timestamp

namespace Release
open Text Sorting

/-- A place in the file system, by the names that lead to it. -/
abbrev Path := List String

def baseName (path : Path) : String := path.getLast?.getD ""

structure BackupEntry where
  name : String
  sha256 : String
  size : Nat
  deriving DecidableEq, Repr

structure BackupManifest where
  generatedAt : String
  entries : List BackupEntry
  deriving DecidableEq, Repr

structure BackupBundle where
  directory : Path
  manifest : Path
  entries : List BackupEntry
  deriving DecidableEq, Repr

inductive BackupFailure where
  | nameError (message : String)
  | fileNotFound (path : Path)
  | runtimeError (message : String)
  | valueError
  | fileExists
  deriving DecidableEq, Repr

/-- What a file holds; a manifest stands for its JSON text. -/
inductive FileContent where
  | bytes (data : List UInt8)
  | manifest (payload : BackupManifest)
  deriving DecidableEq, Repr

/-- The files by their places. Directories are made when something is put in them. -/
abbrev FileStore := Path → Option FileContent

namespace FileStore

def put (s : FileStore) (path : Path) (content : FileContent) : FileStore :=
  Function.update s path (some content)

def remove (s : FileStore) (path : Path) : FileStore := Function.update s path none

end FileStore

/-- What a manager computes with: the clock's time in microseconds and its text, the
digest, the JSON text of a manifest, and the name of a new file beside a target, if one is
found. -/
structure BackupManager where
  now : Int
  timestamp : String
  sha256 : List UInt8 → String
  dumps : BackupManifest → List UInt8
  mkstemp : FileStore → Path → Option Path
  mkstemp_new : ∀ s target tmpPath, mkstemp s target = some tmpPath → s tmpPath = none

namespace BackupManager
variable (B : BackupManager)

def data : FileContent → List UInt8
  | .bytes data => data
  | .manifest payload => B.dumps payload

/-- The chunks of `iter(lambda: sma.read(_BUFFER), b"")`, whatever file is open: the module
binds no name `sma`. -/
def readChunks : Except BackupFailure (List (List UInt8)) :=
  .error (.nameError "name 'sma' is not defined")

/-- `_copy_with_hash`: the digest and the size, or an exception, with the files left. -/
def copyWithHash (source target : Path) (s : FileStore) :
    Except BackupFailure (String × Nat) × FileStore :=
  match B.mkstemp s target with
  | none => (.error .fileExists, s)
  | some tmpPath =>
    let s := s.put tmpPath (.bytes [])
    match s source with
    | none => (.error (.fileNotFound source), s.remove tmpPath)
    | some _ => match readChunks with
      | .error e => (.error e, s.remove tmpPath)
      | .ok chunks =>
        let copied := chunks.flatten
        (.ok (B.sha256 copied, copied.length), (s.remove tmpPath).put target (.bytes copied))

def copySources (targetDir : Path) :
    List Path → List BackupEntry → FileStore → Except BackupFailure (List BackupEntry) × FileStore
  | [], entries, s => (.ok entries, s)
  | source :: sources, entries, s =>
    match B.copyWithHash source (targetDir ++ [baseName source]) s with
    | (.error e, s) => (.error e, s)
    | (.ok (digest, size), s) =>
      copySources targetDir sources (entries ++ [⟨baseName source, digest, size⟩]) s

def backup (sources : List Path) (destination : Path) (s : FileStore) :
    Except BackupFailure BackupBundle × FileStore :=
  let targetDir := destination ++ [B.timestamp]
  match B.copySources targetDir (sortedBy baseName sources) [] s with
  | (.error e, s) => (.error e, s)
  | (.ok entries, s) =>
    let manifest := targetDir ++ ["manifest.json"]
    (.ok ⟨targetDir, manifest, entries⟩, s.put manifest (.manifest ⟨B.timestamp, entries⟩))

def restoreEntries (bundleDir destination : Path) :
    List BackupEntry → FileStore → Except BackupFailure Unit × FileStore
  | [], s => (.ok (), s)
  | entry :: entries, s =>
    match s (bundleDir ++ [entry.name]) with
    | none =>
      (.error (.runtimeError ("«بازیابی نامعتبر است؛ فایل پیدا نشد: " ++ entry.name ++ "»")), s)
    | some content =>
      if B.sha256 (B.data content) != entry.sha256 then
        (.error (.runtimeError "«بازیابی نامعتبر است؛ تطبیق هش انجام نشد.»"), s)
      else match B.copyWithHash (bundleDir ++ [entry.name]) (destination ++ [entry.name]) s with
        | (.error e, s) => (.error e, s)
        | (.ok _, s) => restoreEntries bundleDir destination entries s

def restore (manifest destination : Path) (s : FileStore) : Except BackupFailure Unit × FileStore :=
  match s manifest with
  | none => (.error (.fileNotFound manifest), s)
  | some (.bytes _) => (.error .valueError, s)
  | some (.manifest payload) =>
    B.restoreEntries manifest.dropLast destination payload.entries s

end BackupManager

/-- A directory of snapshots' directory, by its name and the sizes of all files below it. -/
structure Snapshot where
  name : String
  files : List Nat
  deriving DecidableEq, Repr

/-- `_dir_size`. -/
def Snapshot.size (snapshot : Snapshot) : Nat := snapshot.files.sum

/-- The snapshots in a directory, which has each name once. -/
structure SnapshotRoot where
  snapshots : List Snapshot
  distinct : (snapshots.map Snapshot.name).Nodup

inductive RetentionAction where
  | keep
  | remove
  deriving DecidableEq, Repr

structure RetentionDecision where
  snapshot : Snapshot
  action : RetentionAction
  reason : String
  size : Nat
  ageDays : Int
  deriving DecidableEq, Repr

structure RetentionPlan where
  decisions : List RetentionDecision
  freedBytes : Nat
  keptBytes : Nat
  deriving DecidableEq, Repr

namespace BackupManager
variable (B : BackupManager) (maxAgeDays maxTotalBytes : Int)

def snapshotTs (name : String) : Int := (strptime name).getD B.now

def ageDays (snapshot : Snapshot) : Int :=
  max 0 (B.now - B.snapshotTs snapshot.name) / (86400 * 1000000)

def inAge (snapshot : Snapshot) : Bool := B.ageDays snapshot ≤ maxAgeDays

/-- What becomes of one snapshot where so many bytes are kept already. -/
def retentionDecision (snapshot : Snapshot) (keptBytes : Nat) : RetentionDecision :=
  let keep := B.inAge maxAgeDays snapshot
  let fits : Bool := (keptBytes + snapshot.size : Nat) ≤ maxTotalBytes
  let reason := if !keep then "age" else if fits then "within-policy" else "capacity"
  { snapshot, action := if keep && fits then .keep else .remove, reason,
    size := snapshot.size, ageDays := B.ageDays snapshot }

def planSnapshots : List Snapshot → RetentionPlan → RetentionPlan
  | [], plan => plan
  | snapshot :: snapshots, plan =>
    let decision := B.retentionDecision maxAgeDays maxTotalBytes snapshot plan.keptBytes
    let decisions := plan.decisions ++ [decision]
    planSnapshots snapshots (match decision.action with
      | .keep => { plan with decisions, keptBytes := plan.keptBytes + snapshot.size }
      | .remove => { plan with decisions, freedBytes := plan.freedBytes + snapshot.size })

def planRetention (root : SnapshotRoot) : RetentionPlan :=
  B.planSnapshots maxAgeDays maxTotalBytes (sortedBy Snapshot.name root.snapshots) ⟨[], 0, 0⟩

end BackupManager

end Release

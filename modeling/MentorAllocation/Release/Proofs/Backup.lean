import MentorAllocation.Release.Backup

namespace Release
open Sorting
namespace BackupManager
variable {B : BackupManager} {s t : FileStore} {source target destination restored : Path}
  {sources : List Path}

theorem put_remove (h : s target = none) (content : FileContent) :
    (s.put target content).remove target = s := by
  rw [FileStore.put, FileStore.remove, Function.update_idem, ← h, Function.update_eq_self]

/-- A copy never gets beyond its first read, and takes away the file it began. -/
theorem copyWithHash_fails (B : BackupManager) (source target : Path) (s : FileStore) :
    ∃ e, B.copyWithHash source target s = (.error e, s) := by
  rw [copyWithHash]
  cases htmp : B.mkstemp s target with
  | none => exact ⟨_, rfl⟩
  | some tmpPath =>
    simp only [readChunks, put_remove (B.mkstemp_new s target tmpPath htmp) (.bytes [])]
    split
    · exact ⟨_, rfl⟩
    · exact ⟨_, rfl⟩

/-- A backup of anything fails and leaves the files as they were. -/
theorem backup_fails (h : sources ≠ []) (destination : Path) (s : FileStore) :
    ∃ e, B.backup sources destination s = (.error e, s) := by
  cases hsorted : sortedBy baseName sources with
  | nil =>
    have hperm := sortedBy_perm baseName sources
    rw [hsorted] at hperm
    exact absurd (List.nil_perm.mp hperm) h
  | cons source rest =>
    obtain ⟨e, he⟩ := copyWithHash_fails B source
      (destination ++ [B.timestamp] ++ [baseName source]) s
    exact ⟨e, by simp only [backup, hsorted, copySources, he]⟩

theorem backup_nil (destination : Path) (s : FileStore) :
    B.backup [] destination s = (.ok ⟨destination ++ [B.timestamp],
      destination ++ [B.timestamp] ++ ["manifest.json"], []⟩,
      s.put (destination ++ [B.timestamp] ++ ["manifest.json"]) (.manifest ⟨B.timestamp, []⟩)) :=
  rfl

theorem restore_nil {stamp : String} {manifest : Path}
    (h : s manifest = some (.manifest ⟨stamp, []⟩)) (destination : Path) :
    B.restore manifest destination s = (.ok (), s) := by
  rw [restore, h]
  rfl

/-- Whatever a restore meets, it leaves the files as they were. -/
theorem restore_keeps (B : BackupManager) (manifest destination : Path) (s : FileStore) :
    (B.restore manifest destination s).2 = s := by
  rw [restore]
  split
  · rfl
  · rfl
  next payload _ =>
  cases hentries : payload.entries with
  | nil => rfl
  | cons entry entries =>
    rw [restoreEntries]
    split
    · rfl
    · split
      · rfl
      · obtain ⟨e, he⟩ := copyWithHash_fails B (manifest.dropLast ++ [entry.name])
          (destination ++ [entry.name]) s
        rw [he]

/-- Backing the sources up and restoring them gives each one's bytes under its name, and a
restore that fails, for want of a file or for an altered one, leaves its destination. -/
structure RoundTrip (B : BackupManager) (sources : List Path) (destination restored : Path)
    (s : FileStore) : Prop where
  restores : ∃ bundle t u, B.backup sources destination s = (.ok bundle, t) ∧
    B.restore bundle.manifest restored t = (.ok (), u) ∧ ∀ source ∈ sources,
      (u (restored ++ [baseName source])).map B.data = (s source).map B.data
  keeps : ∀ bundle t altered e u, B.backup sources destination s = (.ok bundle, t) →
    (∀ path, (∀ entry ∈ bundle.entries, path ≠ bundle.directory ++ [entry.name]) →
      altered path = t path) →
    B.restore bundle.manifest restored altered = (.error e, u) →
    ∀ path, restored <+: path → u path = altered path

/-- The round trip succeeds when there is nothing to back up, and only then. -/
theorem backup_roundTrip_iff (B : BackupManager) (sources : List Path) (destination restored : Path)
    (s : FileStore) : B.RoundTrip sources destination restored s ↔ sources = [] := by
  constructor
  · intro h
    by_contra hsources
    obtain ⟨bundle, t, u, hbackup, -⟩ := h.restores
    obtain ⟨e, he⟩ := backup_fails (B := B) hsources destination s
    rw [he] at hbackup
    cases hbackup
  · rintro rfl
    constructor
    · have hmanifest := Function.update_self (destination ++ [B.timestamp] ++ ["manifest.json"])
        (some (FileContent.manifest ⟨B.timestamp, []⟩)) s
      exact ⟨_, _, _, backup_nil destination s, restore_nil hmanifest restored, by simp⟩
    · intro bundle t altered e u _ _ hrestore path _
      have hkeeps := restore_keeps B bundle.manifest restored altered
      rw [hrestore] at hkeeps
      exact congrFun hkeeps path

def sampleManager : BackupManager where
  now := 63839664000000000
  timestamp := "20240101T000000Z"
  sha256 := fun _ => "digest"
  dumps := fun _ => []
  mkstemp := fun s target =>
    let tmpPath := target.dropLast ++ [baseName target ++ ".part"]
    if (s tmpPath).isNone then some tmpPath else none
  mkstemp_new := by
    intro s target tmpPath h
    dsimp only at h
    split at h
    · next hnone =>
      obtain rfl := Option.some.inj h
      exact Option.isNone_iff_eq_none.mp hnone
    · cases h

def sampleFiles : FileStore := FileStore.put (fun _ => none) ["srv", "export.csv"] (.bytes [97])

theorem backup_roundTrip_single : sampleFiles ["srv", "export.csv"] = some (.bytes [97]) ∧
    (sampleManager.backup [["srv", "export.csv"]] ["backups"] sampleFiles).1 =
      .error (.nameError "name 'sma' is not defined") ∧
    ¬ sampleManager.RoundTrip [["srv", "export.csv"]] ["backups"] ["restore"] sampleFiles := by
  have hfails : (sampleManager.backup [["srv", "export.csv"]] ["backups"] sampleFiles).1 =
      .error (.nameError "name 'sma' is not defined") := by
    decide +kernel
  refine ⟨rfl, hfails, fun h => ?_⟩
  obtain ⟨bundle, t, u, hbackup, -⟩ := h.restores
  rw [hbackup] at hfails
  cases hfails

end BackupManager

end Release

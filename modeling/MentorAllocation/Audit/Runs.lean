import MentorAllocation.Audit.Enforcer

namespace Audit
open Effects Files

/-- What happens to an audit log: events come in, months are archived and the retention is
enforced, each time with a configuration of its own; the system fails in it as scheduled. -/
inductive Operation where
  | insert (event : AuditEvent)
  | archive (faults : List Bool) (now : DateTime) (monthKey : String)
  | dryRun (faults : List Bool) (now : DateTime) (monthKey : String)
  | enforce (faults : List Bool) (config : AuditArchiveConfig) (now : DateTime) (dryRun : Bool)

/-- What comes of code under a schedule of failures, which ends with it. -/
def under {α : Type} (faults : List Bool) (act : Act α) (w : World) : Except Raised α × World :=
  let (result, after) := exec act { w with faults }
  (result, { after with faults := [] })

/-- The world, and what has happened to it: the events that came in, the windows that were
archived, and those of them that were when the retention was last enforced. -/
structure AuditLog where
  world : World
  inserted : List AuditEvent
  archived : List AuditArchiveWindow
  enforced : List AuditArchiveWindow

namespace AuditLog

/-- A log without events on a disk that lists no partitions yet. -/
def start (disk : Disk) (release : Option (List UInt8)) : AuditLog :=
  ⟨⟨disk, release, [], []⟩, [], [], []⟩

def next (A : AuditArchiver) (log : AuditLog) : Operation → AuditLog
  | .insert event => { log with
      world := { log.world with events := log.world.events ++ [event] }
      inserted := event :: log.inserted }
  | .archive faults now monthKey => { log with
      world := (under faults (A.archiveMonth now monthKey) log.world).2
      archived := match windowOf A.tz monthKey with
        | .ok window => window :: log.archived
        | .error _ => log.archived }
  | .dryRun faults now monthKey => { log with
      world := (under faults (A.archiveMonthDry now monthKey) log.world).2 }
  | .enforce faults config now dryRun => { log with
      world := (under faults (AuditRetentionEnforcer.enforce ⟨A, config⟩ now dryRun) log.world).2
      enforced := if dryRun then log.enforced else log.archived }

/-- No event comes into a month that has been archived, and no month is archived again once the
retention has been enforced on it. -/
def Orderly (A : AuditArchiver) (log : AuditLog) : Operation → Prop
  | .insert event => ∀ window ∈ log.archived,
      AuditArchiver.inWindow window.start window.stop event = false
  | .archive _ _ monthKey => ∀ window, windowOf A.tz monthKey = .ok window →
      window ∉ log.enforced
  | .dryRun _ _ _ => True
  | .enforce _ _ _ _ => True

end AuditLog

end Audit

import IetfAlarms.Control
import IetfAlarms.Lib.Trace

/-!
# The daemon

The constructor and the operations that sysrepo dispatches to the daemon afterwards, one at a time
under `m_mtx`. A run is any sequence of them; what happens outside, sysrepo's failures and the
readings of the clock included, is part of each call.
-/

namespace IetfAlarms
open Program Trace
variable [Libyang]

/-- What the constructor finds: its two readings of the clock, the configuration it is told of when it
subscribes, and the inventory. -/
structure Boot where
  alarmListStart : TimePoint
  shelfListStart : TimePoint
  env : Env
  changes : List ControlChange
  shelving : ShelvingRules
  inventory : List InventoryEntry

/-- The members as they are initialized. -/
def Boot.world (b : Boot) : World where
  notifyStatusChanges := .all
  notifySeverityThreshold := none
  maxAlarmStatusChanges := none
  inventoryDirty := true
  inventory := .empty
  alarms := .empty
  alarmListLastChanged := b.alarmListStart
  shelfListLastChanged := b.shelfListStart
  shelvingRules := none
  edit := .empty
  operational := .empty
  inventoryData := []
  sent := []

/-- `Daemon::Daemon`: subscribing to `control` and to the inventory runs the callbacks once. -/
def Boot.construct (b : Boot) : DaemonM Unit := do
  onEdit (EditM.newPathUpdate Listing.alarmList.path none)
  updateStatistics
  writeEdit b.env
  let _ ← controlChanged b.env b.changes b.shelving
  let _ ← inventoryChanged b.env b.inventory

/-- The constructor returned. The configuration it is told of includes `alarm-shelving`, which is
always there. -/
def Started (b : Boot) (w : World) : Prop :=
  ControlChange.alarmShelving ∈ b.changes ∧ exec b.construct b.world = (.ok (), w)

inductive Call
  | createOrUpdateAlarm (originatorName : String) (input : AlarmInput)
  | purgeAlarms (l : Listing) (input : PurgeInput)
  | compressAlarms (l : Listing) (input : CompressInput)
  | controlChanged (changes : List ControlChange) (shelving : ShelvingRules)
  | inventoryChanged (inventory : List InventoryEntry)

def Call.run (env : Env) : Call → DaemonM Reply
  | createOrUpdateAlarm originatorName input => IetfAlarms.createOrUpdateAlarm env originatorName input
  | purgeAlarms l input => IetfAlarms.purgeAlarms env l input
  | compressAlarms l input => IetfAlarms.compressAlarms env l input
  | controlChanged changes shelving => IetfAlarms.controlChanged env changes shelving
  | inventoryChanged inventory => IetfAlarms.inventoryChanged env inventory

/-- A call, what it found outside, and how it ended. -/
structure Event where
  call : Call
  env : Env
  outcome : Except Failure Reply

/-- The call ends as the event says. A call whose behaviour is undefined has no event. -/
structure Performs (w : World) (ev : Event) (w' : World) : Prop where
  exec_eq : exec (ev.call.run ev.env) w = (ev.outcome, w')
  defined : ∀ f, ev.outcome = .error f → f.isUndefined = false

abbrev History := List (Transition World Event)

/-- A run of the daemon, its history the latest call first. -/
abbrev DaemonRun (b : Boot) : History → World → Prop := Run (Started b) Performs

end IetfAlarms

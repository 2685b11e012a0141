import IetfAlarms.Filters
import IetfAlarms.Lib.Program
import IetfAlarms.ShelfMatch

/-!
# The daemon's state and its calls to libyang and sysrepo

`EditM` works on the tree `m_edit`; its primitives are the libyang calls, which may throw. `DaemonM`
works on the daemon's members together with what it has written to the operational datastore. An
exception keeps whatever was changed before it: the daemon never rolls anything back.
-/

namespace IetfAlarms
open Program

/-! ### Edit trees -/

abbrev EditM := EStateM Failure Node

/-- A handle to a node of a tree: its own step and what is below it. -/
abbrev DataNode := Step × Node

namespace EditM

/-- `newPath` with `CreationOptions::Update`. -/
def newPathUpdate (p : Path) (value : Option String) : EditM Unit := modify (·.newPath p value)

/-- `newPath` without it. -/
def newPath (p : Path) (value : Option String) : EditM Unit := do
  if ((← get).find p).isSome then throw .nodeExists else modify (·.newPath p value)

/-- `findPath`, with the result dereferenced. -/
def findPath (p : Path) : EditM DataNode := do
  match (← get).find p with
  | some n => pure (p.getLastD ⟨.alarms, []⟩, n)
  | none => throw .emptyOptional

def unlink (p : Path) : EditM Unit := modify (·.unlink p)

/-- `findPath(p)->unlink()`. -/
def findAndUnlink (p : Path) : EditM Unit := do
  let _ ← findPath p
  unlink p

end EditM

/-- `utils::childValue`; the keys of a list entry are among its children. -/
def childValue (node : DataNode) (leafName : Schema) : Except Failure String :=
  match (node.1.keys.lookup leafName).or (node.2.leaf leafName) with
  | some value => .ok value
  | none => .error .noSuchChild

/-- `Severities[severity]` where it is written into a path or a leaf. -/
def severityText (severity : Int) : Except Failure String :=
  match severityName severity with
  | some name => .ok name
  | none => .error .outOfRange

def boolText (b : Bool) : String := if b then "true" else "false"

/-! ### The two alarm lists -/

/-- `alarm-list` and `shelved-alarms`. -/
inductive Listing
  | alarmList | shelvedAlarms
deriving DecidableEq, Repr

namespace Listing

def container : Listing → Schema
  | alarmList => .alarmList
  | shelvedAlarms => .shelvedAlarms

/-- The list inside the container. -/
def entry : Listing → Schema
  | alarmList => .alarm
  | shelvedAlarms => .shelvedAlarm

/-- Where an alarm with this shelf is listed. -/
def ofShelf (shelf : Option String) : Listing := if shelf.isSome then shelvedAlarms else alarmList

def path (l : Listing) : Path := [⟨.alarms, []⟩, ⟨l.container, []⟩]

/-- `alarmListInstances + keyXPath`, or the same in the shelved list, as libyang reads it. -/
def alarmNodePath (l : Listing) (keyXPath : String) : Except Failure Path :=
  match listEntry l.entry keyXPath with
  | some s => .ok (l.path ++ [s])
  | none => .error .badPath

end Listing

def InstanceKey.keyXPath (k : InstanceKey) : Except Failure String :=
  k.xpathIndex.mapError fun _ => .mixedQuotes

variable [Libyang]

/-- The entry `status-change[time='...']`. A formatted time has no quotes. -/
def changeStep (time : TimePoint) : Step := ⟨.statusChange, [(.time, yangTimeFormat time)]⟩

def statusChangePath (alarmNodePath : Path) (time : TimePoint) : Path := alarmNodePath ++ [changeStep time]

/-! ### The daemon -/

structure InventoryData where
  resources : List String
  severities : List Int
deriving DecidableEq, Repr

/-- An entry of `/ietf-alarms:alarms/alarm-inventory/alarm-type`. -/
structure InventoryEntry where
  alarmTypeId : IdentityName
  alarmTypeQualifier : String
  resource : List String
  severityLevel : List Severity
deriving DecidableEq

structure AlarmNotification where
  resource : String
  alarmTypeId : String
  time : String
  alarmText : String
  alarmTypeQualifier : Option String
  perceivedSeverity : String
deriving DecidableEq, Repr

inductive Notification
  | alarm (content : AlarmNotification)
  | alarmInventoryChanged
deriving DecidableEq, Repr

/-- The members of `alarms::Daemon`, the connection and the subscriptions left out. -/
structure Daemon where
  notifyStatusChanges : NotifyStatusChanges
  notifySeverityThreshold : Option Int
  maxAlarmStatusChanges : Option UInt16
  inventoryDirty : Bool
  inventory : AssocMap AlarmType InventoryData
  alarms : AssocMap InstanceKey AlarmEntry
  alarmListLastChanged : TimePoint
  shelfListLastChanged : TimePoint
  shelvingRules : Option ShelvingRules
  edit : Node

/-- The daemon and what it sees of sysrepo: what it last wrote to the operational datastore, the
alarm inventory there, and the notifications it sent, the latest first. -/
structure World extends Daemon where
  operational : Node
  inventoryData : List InventoryEntry
  sent : List Notification

abbrev DaemonM := EStateM Failure World

/-- What a call finds outside the daemon: its reading of the clock, a later one by the filter it
constructs, what an empty threshold happens to read as, and which sysrepo calls throw. -/
structure Env where
  now : TimePoint
  filterNow : TimePoint
  unset : Int
  getDataThrows : Bool
  editBatchThrows : Bool
  applyChangesThrows : Bool
  sendNotificationThrows : Bool
deriving DecidableEq, Repr

/-- Run on `m_edit`. -/
def onEdit {α : Type} (m : EditM α) : DaemonM α := fun w =>
  match m.run w.edit with
  | .ok a edit => .ok a { w with edit := edit }
  | .error e edit => .error e { w with edit := edit }

/-- `m_session.getData(...)`; what it returns is read off the state. -/
def getData (env : Env) : DaemonM Unit := do
  if env.getDataThrows then throw .sysrepo

/-- `m_session.editBatch(*m_edit, Replace)`: the batch for `applyChanges`. -/
def editBatch (env : Env) : DaemonM Node := do
  if env.editBatchThrows then throw .sysrepo else return (← get).edit

def applyChanges (env : Env) (batch : Node) : DaemonM Unit := do
  if env.applyChangesThrows then throw .sysrepo else modify fun w => { w with operational := batch }

def sendNotification (env : Env) (notification : Notification) : DaemonM Unit := do
  if env.sendNotificationThrows then throw .sysrepo
  else modify fun w => { w with sent := notification :: w.sent }

/-- `editBatch` and `applyChanges`, as every writing operation ends. -/
def writeEdit (env : Env) : DaemonM Unit := do
  let batch ← editBatch env
  applyChanges env batch

end IetfAlarms

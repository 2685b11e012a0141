import IetfAlarms.Session

/-!
# Publishing an alarm

The inventory, the statistics and `submitAlarm` of `src/alarms/Daemon.cpp`.
-/

namespace IetfAlarms
open Program
variable [Libyang]

/-! ### Inventory -/

/-- `emplace` keeps what is there. -/
def emplaceInventory (inventory : AssocMap AlarmType InventoryData) (entry : InventoryEntry) :
    AssocMap AlarmType InventoryData :=
  let type : AlarmType := ⟨entry.alarmTypeId, entry.alarmTypeQualifier⟩
  if (inventory.lookup type).isSome then inventory
  else inventory.set type ⟨entry.resource, entry.severityLevel.map (·.value)⟩

def rebuildInventory (dataWithInventory : List InventoryEntry) : DaemonM Unit :=
  modify fun w => { w with
    inventory := dataWithInventory.foldl emplaceInventory .empty
    inventoryDirty := false }

/-- The error message if the alarm is not one the inventory announces. -/
def inventoryValidationError (inventory : AssocMap AlarmType InventoryData) (key : InstanceKey)
    (severity : Int) : Except Failure (Option String) :=
  match inventory.lookup key.type with
  | none => .ok (some ("No alarm inventory entry for " ++ key.type.xpathIndex))
  | some data =>
    if !data.resources.isEmpty && !data.resources.contains key.resource then
      .ok (some ("Alarm inventory doesn't allow resource '" ++ key.resource ++ "' for " ++ key.type.xpathIndex))
    else if !data.severities.isEmpty && severity != clearedSeverity && !data.severities.contains severity then
      (severityText severity).map fun name =>
        some ("Alarm inventory doesn't allow severity '" ++ name ++ "' for " ++ key.type.xpathIndex)
    else .ok none

/-! ### Statistics -/

structure PerSeveritySummary where
  total : Nat
  cleared : Nat
deriving DecidableEq, Repr

/-- `std::map<int32_t, PerSeveritySummary>`: sorted by key. -/
abbrev Summary := List (Int × PerSeveritySummary)

/-- Update `summary[severity]`, which is created when it is missing. -/
def Summary.update (severity : Int) (f : PerSeveritySummary → PerSeveritySummary) : Summary → Summary
  | [] => [(severity, f ⟨0, 0⟩)]
  | (s, x) :: rest =>
    if severity < s then (severity, f ⟨0, 0⟩) :: (s, x) :: rest
    else if severity = s then (s, f x) :: rest
    else (s, x) :: update severity f rest

structure Tally where
  summary : Summary
  totalList : Nat
  totalShelved : Nat
  alarmListLastChanged : TimePoint
  shelfListLastChanged : TimePoint
deriving DecidableEq, Repr

/-- All severities are present from the start. -/
def Tally.start (alarmListLastChanged shelfListLastChanged : TimePoint) : Tally :=
  { summary := [(2, ⟨0, 0⟩), (3, ⟨0, 0⟩), (4, ⟨0, 0⟩), (5, ⟨0, 0⟩), (6, ⟨0, 0⟩)]
    totalList := 0
    totalShelved := 0
    alarmListLastChanged, shelfListLastChanged }

/-- Shelved alarms do not affect the summary. -/
def Tally.count (tally : Tally) (alarm : InstanceKey × AlarmEntry) : Tally :=
  let entry := alarm.2
  if entry.shelf.isSome then
    { tally with
      totalShelved := tally.totalShelved + 1
      shelfListLastChanged :=
        if entry.lastChanged ≥ tally.shelfListLastChanged then entry.lastChanged
        else tally.shelfListLastChanged }
  else
    let summary := Summary.update entry.lastSeverity (fun x => { x with total := x.total + 1 }) tally.summary
    let summary :=
      if entry.isCleared then
        Summary.update entry.lastSeverity (fun x => { x with cleared := x.cleared + 1 }) summary
      else summary
    { tally with
      summary := summary
      totalList := tally.totalList + 1
      alarmListLastChanged :=
        if entry.lastChanged ≥ tally.alarmListLastChanged then entry.lastChanged
        else tally.alarmListLastChanged }

/-- The entry `alarm-summary[severity='...']`. -/
def summaryPath (severity : String) : Path :=
  [⟨.alarms, []⟩, ⟨.summary, []⟩, ⟨.alarmSummary, [(.severity, severity)]⟩]

/-- The difference is an integer, so that one below zero would show. -/
def writeSummary (severity : Int) (summ : PerSeveritySummary) : EditM Unit := do
  let name ← ofExcept (severityText severity)
  EditM.newPathUpdate (summaryPath name ++ [⟨.total, []⟩]) (toString summ.total)
  EditM.newPathUpdate (summaryPath name ++ [⟨.notCleared, []⟩]) (toString ((summ.total : Int) - summ.cleared))
  EditM.newPathUpdate (summaryPath name ++ [⟨.cleared, []⟩]) (toString summ.cleared)

def writeTally (tally : Tally) : EditM Unit := do
  tally.summary.forM fun x => writeSummary x.1 x.2
  EditM.newPathUpdate (Listing.alarmList.path ++ [⟨.numberOfAlarms, []⟩]) (toString tally.totalList)
  EditM.newPathUpdate (Listing.alarmList.path ++ [⟨.lastChanged, []⟩])
    (yangTimeFormat tally.alarmListLastChanged)
  EditM.newPathUpdate (Listing.shelvedAlarms.path ++ [⟨.numberOfShelvedAlarms, []⟩])
    (toString tally.totalShelved)
  EditM.newPathUpdate (Listing.shelvedAlarms.path ++ [⟨.shelvedAlarmsLastChanged, []⟩])
    (yangTimeFormat tally.shelfListLastChanged)

def updateStatistics : DaemonM Unit := do
  let w ← get
  let tally := w.alarms.entries.foldl Tally.count (Tally.start w.alarmListLastChanged w.shelfListLastChanged)
  modify fun w => { w with
    alarmListLastChanged := tally.alarmListLastChanged
    shelfListLastChanged := tally.shelfListLastChanged }
  onEdit (writeTally tally)

/-! ### Status changes in the tree -/

/-- The first entry of the `status-change` list, if there is one. -/
def firstExistingChange (alarmNode : Node) : Option Step :=
  (alarmNode.instances .statusChange).head?.map (·.1)

/-- Move the new entry to its position as the first of the list. -/
def moveToFront (alarmNodePath : Path) (statusChange : Step) (first : Option Step) : EditM Unit :=
  match first with
  | some first => modify fun edit => edit.modify alarmNodePath fun n => n.moveBefore statusChange first
  | none => pure ()

/-- Add the newest status change at the front of the list and remove the oldest ones. -/
def updateStatusChangeList (alarmNodePath : Path) (alarm : AlarmEntry)
    (removedStatusChanges : List TimePoint) : EditM Unit := do
  let alarmNode ← EditM.findPath alarmNodePath
  let statusChange := statusChangePath alarmNodePath alarm.lastChanged
  EditM.newPath statusChange none
  let severity ← ofExcept (severityText (if alarm.isCleared then clearedSeverity else alarm.lastSeverity))
  EditM.newPath (statusChange ++ [⟨.perceivedSeverity, []⟩]) (some severity)
  EditM.newPath (statusChange ++ [⟨.alarmText, []⟩]) (some alarm.text)
  moveToFront alarmNodePath (changeStep alarm.lastChanged) (firstExistingChange alarmNode.2)
  removedStatusChanges.forM fun time => EditM.findAndUnlink (statusChangePath alarmNodePath time)

/-! ### `submitAlarm` -/

structure NetconfError where
  type : String
  tag : String
  message : String
deriving DecidableEq, Repr

/-- What a callback returns: `ErrorCode::Ok`, with the output leaf where the RPC has one, or an error. -/
inductive Reply
  | ok
  | purgedAlarms (count : String)
  | compressedAlarms (count : String)
  | invalidArgument (message : String)
  | operationFailed (error : NetconfError)
deriving DecidableEq, Repr

/-- `createStatusChangeNotification`. -/
def createStatusChangeNotification (alarmNode : DataNode) : Except Failure Notification := do
  let resource ← childValue alarmNode .resource
  let alarmTypeId ← childValue alarmNode .alarmTypeId
  let time ← childValue alarmNode .lastChanged
  let alarmText ← childValue alarmNode .alarmText
  let qualifier ← childValue alarmNode .alarmTypeQualifier
  let isCleared ← childValue alarmNode .isCleared
  let perceivedSeverity ← (if isCleared = "true" then pure "cleared" else childValue alarmNode .perceivedSeverity)
  return .alarm {
    resource, alarmTypeId, time, alarmText, perceivedSeverity
    alarmTypeQualifier := if qualifier = "" then none else some qualifier }

/-- The leaves of a changed alarm. -/
def publishAlarm (alarmNodePath : Path) (entry : AlarmEntry) : EditM Unit := do
  EditM.newPathUpdate (alarmNodePath ++ [⟨.isCleared, []⟩]) (boolText entry.isCleared)
  EditM.newPathUpdate (alarmNodePath ++ [⟨.lastRaised, []⟩]) (yangTimeFormat entry.lastRaised)
  EditM.newPathUpdate (alarmNodePath ++ [⟨.lastChanged, []⟩]) (yangTimeFormat entry.lastChanged)
  let severity ← ofExcept (severityText entry.lastSeverity)
  EditM.newPathUpdate (alarmNodePath ++ [⟨.perceivedSeverity, []⟩]) (some severity)
  EditM.newPathUpdate (alarmNodePath ++ [⟨.alarmText, []⟩]) (some entry.text)
  match entry.shelf with
  | some shelf => EditM.newPathUpdate (alarmNodePath ++ [⟨.shelfName, []⟩]) (some shelf)
  | none => EditM.newPathUpdate (alarmNodePath ++ [⟨.timeCreated, []⟩]) (yangTimeFormat entry.created)

/-- The alarm is cleared by a submission that finds it absent or cleared: nothing to do. -/
def alreadyCleared (alarms : AssocMap InstanceKey AlarmEntry) (alarmKey : InstanceKey)
    (isClearedNow : Bool) : Bool :=
  isClearedNow && match alarms.lookup alarmKey with
    | none => true
    | some entry => entry.isCleared

/-- `*m_shelvingRules`. -/
def loadedShelvingRules (w : World) : Except Failure ShelvingRules :=
  match w.shelvingRules with
  | some shelvingRules => .ok shelvingRules
  | none => .error .emptyOptional

/-- Send the notification of the alarm at this path. -/
def notifyStatusChange (env : Env) (alarmNodePath : Path) : DaemonM Unit := do
  match (← get).edit.find alarmNodePath with
  | some n =>
    let notification ← ofExcept (createStatusChangeNotification (alarmNodePath.getLastD ⟨.alarms, []⟩, n))
    sendNotification env notification
  | none => throw .badOptionalAccess

/-- `submitAlarm` from the lookup of the shelf on. -/
def updateAlarm (env : Env) (input : AlarmInput) (alarmKey : InstanceKey) (keyXPath : String) :
    DaemonM Unit := do
  let w ← get
  let shelvingRules ← ofExcept (loadedShelvingRules w)
  let matchedShelf := shouldBeShelved shelvingRules alarmKey
  let alarmNodePath ← ofExcept ((Listing.ofShelf matchedShelf).alarmNodePath keyXPath)
  onEdit (EditM.newPathUpdate alarmNodePath none)
  let found := w.alarms.lookup alarmKey
  let (entry, res) ← ofExcept ((found.getD .new).updateByRpc found.isSome env.now input matchedShelf
    w.notifyStatusChanges w.notifySeverityThreshold w.maxAlarmStatusChanges env.unset)
  modify fun w => { w with alarms := w.alarms.set alarmKey entry }
  onlyIf res.changed do
    onEdit (publishAlarm alarmNodePath entry)
    onEdit (updateStatusChangeList alarmNodePath entry res.removedStatusChanges)
    updateStatistics
    writeEdit env
    onlyIf res.shouldNotify (notifyStatusChange env alarmNodePath)

/-- Reload the inventory if it has changed since. -/
def refreshInventory (env : Env) : DaemonM Unit := do
  let w ← get
  onlyIf w.inventoryDirty do
    getData env
    rebuildInventory w.inventoryData

def submitAlarm (env : Env) (input : AlarmInput) : DaemonM Reply := do
  let alarmKey := InstanceKey.fromNode input
  match alarmKey.xpathIndex with
  | .error message => return .invalidArgument message
  | .ok keyXPath =>
    refreshInventory env
    let w ← get
    let inventoryError ← ofExcept (inventoryValidationError w.inventory alarmKey input.severity.value)
    match inventoryError with
    | some message =>
      return .operationFailed ⟨"application", "data-missing", message ++ " -- see RFC8632 (sec. 4.1)."⟩
    | none =>
      if alreadyCleared w.alarms alarmKey input.isClearedNow then
        return .ok
      else
        updateAlarm env input alarmKey keyXPath
        return .ok

/-- The RPC handler: only internal callers are served. -/
def createOrUpdateAlarm (env : Env) (originatorName : String) (input : AlarmInput) : DaemonM Reply := do
  if originatorName = "netopeer2" || originatorName = "rousette" || originatorName = "sysrepo-cli" then
    return .operationFailed ⟨"application", "operation-not-supported", "Internal RPCs cannot be called."⟩
  else submitAlarm env input

end IetfAlarms

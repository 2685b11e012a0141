import IetfAlarms.ListOperations

/-!
# Control changes

What the daemon does when `/ietf-alarms:alarms/control` or the inventory changes: `reshelve`,
`shrinkStatusChangesLists` and the two callbacks of `src/alarms/Daemon.cpp`.
-/

namespace IetfAlarms
open Program
variable [Libyang]

/-! ### Trimming -/

/-- One round of the loop of `shrinkStatusChangesLists`. -/
def shrinkAlarm (maxAlarmStatusChanges : Option UInt16) (changed : Bool) (item : InstanceKey × AlarmEntry) :
    DaemonM Bool := do
  let alarmKey := item.1
  let (alarm, removed) := item.2.shrinkStatusChanges maxAlarmStatusChanges
  modify fun w => { w with alarms := w.alarms.set alarmKey alarm }
  removed.forM fun time => do
    let keyXPath ← ofExcept alarmKey.keyXPath
    let alarmNodePath ← ofExcept ((Listing.ofShelf alarm.shelf).alarmNodePath keyXPath)
    onEdit (EditM.findAndUnlink (statusChangePath alarmNodePath time))
  pure (changed || !removed.isEmpty)

def shrinkStatusChangesLists : DaemonM Bool := do
  let w ← get
  if w.maxAlarmStatusChanges.isNone then return false
  else w.alarms.entries.foldlM (shrinkAlarm w.maxAlarmStatusChanges) false

/-! ### Reshelving -/

/-- The leaves `createCommonAlarmNodeProps` copies. -/
def commonLeaves : List Schema := [.isCleared, .lastRaised, .lastChanged, .perceivedSeverity, .alarmText]

def copyStatusChange (alarmNodePath : Path) (statusChange : DataNode) : EditM Unit := do
  let time ← ofExcept (childValue statusChange .time)
  let entryPath := alarmNodePath ++ [⟨.statusChange, [(.time, time)]⟩]
  let severity ← ofExcept (childValue statusChange .perceivedSeverity)
  EditM.newPath (entryPath ++ [⟨.perceivedSeverity, []⟩]) (some severity)
  let text ← ofExcept (childValue statusChange .alarmText)
  EditM.newPath (entryPath ++ [⟨.alarmText, []⟩]) (some text)

/-- Copy the shared leaves and the status changes of an existing alarm node. -/
def createCommonAlarmNodeProps (alarm : DataNode) (alarmNodePath : Path) : EditM Unit := do
  commonLeaves.forM fun leafName => do
    let value ← ofExcept (childValue alarm leafName)
    EditM.newPathUpdate (alarmNodePath ++ [⟨leafName, []⟩]) (some value)
  (alarm.2.instances .statusChange).forM (copyStatusChange alarmNodePath)

def createShelvedAlarmNodeFromExistingNode (alarm : DataNode) (keyXPath : String) (shelfName : String) :
    EditM Unit := do
  let key ← ofExcept (Listing.shelvedAlarms.alarmNodePath keyXPath)
  EditM.newPathUpdate (key ++ [⟨.shelfName, []⟩]) (some shelfName)
  createCommonAlarmNodeProps alarm key

def createAlarmNodeFromExistingNode (alarm : DataNode) (keyXPath : String) (now : TimePoint) : EditM Unit := do
  let key ← ofExcept (Listing.alarmList.alarmNodePath keyXPath)
  EditM.newPathUpdate (key ++ [⟨.timeCreated, []⟩]) (yangTimeFormat now)
  createCommonAlarmNodeProps alarm key

/-- `m_alarms[alarmKey].shelf = shelf`. -/
def setShelf (alarmKey : InstanceKey) (shelf : Option String) : DaemonM Unit :=
  modify fun w => { w with
    alarms := w.alarms.set alarmKey { (w.alarms.lookup alarmKey).getD .new with shelf := shelf } }

/-- One round of the loop of `reshelve`. -/
def reshelveAlarm (now : TimePoint) (shelvingRules : ShelvingRules) (change : Bool)
    (item : InstanceKey × AlarmEntry) : DaemonM Bool := do
  let alarmKey := item.1
  let alarm := item.2
  let shelf := shouldBeShelved shelvingRules alarmKey
  let keyXPath ← ofExcept alarmKey.keyXPath
  match alarm.shelf, shelf with
  | some _, none =>
    let pathShelved ← ofExcept (Listing.shelvedAlarms.alarmNodePath keyXPath)
    let node ← onEdit (EditM.findPath pathShelved)
    setShelf alarmKey none
    touchList .alarmList now
    touchList .shelvedAlarms now
    onEdit (createAlarmNodeFromExistingNode node keyXPath now)
    onEdit (EditM.unlink pathShelved)
    pure true
  | none, some name =>
    let pathUnshelved ← ofExcept (Listing.alarmList.alarmNodePath keyXPath)
    let node ← onEdit (EditM.findPath pathUnshelved)
    setShelf alarmKey (some name)
    touchList .alarmList now
    touchList .shelvedAlarms now
    onEdit (createShelvedAlarmNodeFromExistingNode node keyXPath name)
    onEdit (EditM.unlink pathUnshelved)
    pure true
  | some old, some name =>
    if old ≠ name then
      setShelf alarmKey (some name)
      touchList .shelvedAlarms now
      let pathShelved ← ofExcept (Listing.shelvedAlarms.alarmNodePath keyXPath)
      onEdit (EditM.newPathUpdate (pathShelved ++ [⟨.shelfName, []⟩]) (some name))
      pure true
    else pure change
  | none, none => pure change

/-- `shelving` is what the running datastore holds under `alarm-shelving`, a container without
presence that is always there. -/
def reshelve (env : Env) (shelving : ShelvingRules) : DaemonM Bool := do
  getData env
  modify fun w => { w with shelvingRules := some shelving }
  let w ← get
  let change ← w.alarms.entries.foldlM (reshelveAlarm env.now shelving) false
  onlyIf change updateStatistics
  pure change

/-! ### Callbacks -/

/-- A change below `control` as the callback tells them apart. -/
inductive ControlChange
  | alarmShelving
  | notifyStatusChanges (value : NotifyStatusChanges)
  /-- `none` when the leaf was deleted. -/
  | notifySeverityLevel (value : Option Severity)
  /-- `none` is the enumeration `infinite`. -/
  | maxAlarmStatusChanges (value : Option UInt16)
  | other
deriving DecidableEq, Repr

/-- What the loop over the changes leaves behind. -/
structure ScannedChanges where
  daemon : Daemon
  needsReshelve : Bool
  needsStatusChangesShrink : Bool

/-- The limit is set and smaller than before. -/
def limitLowered (oldVal newVal : Option UInt16) : Bool :=
  match newVal with
  | none => false
  | some newVal =>
    match oldVal with
    | none => true
    | some oldVal => newVal < oldVal

/-- The loop over the changes; a shelving change ends it. -/
def scanChanges : List ControlChange → Daemon → Bool → ScannedChanges
  | [], d, shrink => ⟨d, false, shrink⟩
  | .alarmShelving :: _, d, shrink => ⟨d, true, shrink⟩
  | .notifyStatusChanges value :: changes, d, shrink =>
    scanChanges changes { d with notifyStatusChanges := value } shrink
  | .notifySeverityLevel value :: changes, d, shrink =>
    scanChanges changes { d with notifySeverityThreshold := value.map (·.value) } shrink
  | .maxAlarmStatusChanges value :: changes, d, shrink =>
    scanChanges changes { d with maxAlarmStatusChanges := value }
      (shrink || limitLowered d.maxAlarmStatusChanges value)
  | .other :: changes, d, shrink => scanChanges changes d shrink

/-- The callback for `control`, in a commit with these changes. -/
def controlChanged (env : Env) (changes : List ControlChange) (shelving : ShelvingRules) : DaemonM Reply := do
  let w ← get
  let scanned := scanChanges changes w.toDaemon false
  modify fun w => { w with toDaemon := scanned.daemon }
  let reshelved ← (if scanned.needsReshelve then reshelve env shelving else pure false)
  let shrunk ← (if scanned.needsStatusChangesShrink then shrinkStatusChangesLists else pure false)
  onlyIf (reshelved || shrunk) (writeEdit env)
  return .ok

/-- The callback for the inventory, which now reads `inventory`. -/
def inventoryChanged (env : Env) (inventory : List InventoryEntry) : DaemonM Reply := do
  modify fun w => { w with inventoryData := inventory, inventoryDirty := true }
  sendNotification env .alarmInventoryChanged
  return .ok

end IetfAlarms

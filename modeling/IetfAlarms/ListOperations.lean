import IetfAlarms.SubmitAlarm

/-!
# Purging and compressing

`purgeAlarms` and `compressAlarms` of `src/alarms/Daemon.cpp`, on one of the two lists.
-/

namespace IetfAlarms
open Program
variable [Libyang]

/-- Whether the RPC at this list is the shelved one. -/
def Listing.doingShelved : Listing → Bool
  | alarmList => false
  | shelvedAlarms => true

/-- One round of the loop of `purgeAlarms`. -/
def purgeAlarm (l : Listing) (filter : AlarmFilter) (purgedAlarms : Nat) (alarm : InstanceKey × AlarmEntry) :
    DaemonM Nat := do
  let index := alarm.1
  let entry := alarm.2
  if l.doingShelved != entry.shelf.isSome then pure purgedAlarms
  else if !filter.matches index entry then pure purgedAlarms
  else
    let keyXPath ← ofExcept index.keyXPath
    let alarmNodePath ← ofExcept (l.alarmNodePath keyXPath)
    onEdit (EditM.findAndUnlink alarmNodePath)
    modify fun w => { w with alarms := w.alarms.erase index }
    pure (purgedAlarms + 1)

/-- The list has changed now. -/
def World.touch (l : Listing) (now : TimePoint) (w : World) : World :=
  match l with
  | .alarmList => { w with alarmListLastChanged := now }
  | .shelvedAlarms => { w with shelfListLastChanged := now }

def touchList (l : Listing) (now : TimePoint) : DaemonM Unit := modify (World.touch l now)

def purgeAlarms (env : Env) (l : Listing) (rpcInput : PurgeInput) : DaemonM Reply := do
  let filter ← ofExcept (purgeFilter rpcInput env.filterNow)
  let w ← get
  let purgedAlarms ← w.alarms.entries.foldlM (purgeAlarm l filter) 0
  onlyIf (purgedAlarms ≠ 0) do
    touchList l env.now
    updateStatistics
    writeEdit env
  return .purgedAlarms (toString purgedAlarms)

/-- One round of the loop of `compressAlarms`. -/
def compressAlarm (l : Listing) (filter : AlarmFilter) (compressedAlarmEntries : Nat)
    (item : InstanceKey × AlarmEntry) : DaemonM Nat := do
  let key := item.1
  let alarm := item.2
  if l.doingShelved == alarm.shelf.isSome && filter.matches key alarm then
    let (alarm, discardTimestamps) := alarm.shrinkStatusChanges (some 1)
    modify fun w => { w with alarms := w.alarms.set key alarm }
    discardTimestamps.forM fun time => do
      let keyXPath ← ofExcept key.keyXPath
      let alarmNodePath ← ofExcept (l.alarmNodePath keyXPath)
      onEdit (EditM.findAndUnlink (statusChangePath alarmNodePath time))
    pure (if discardTimestamps.isEmpty then compressedAlarmEntries else compressedAlarmEntries + 1)
  else pure compressedAlarmEntries

def compressAlarms (env : Env) (l : Listing) (rpcInput : CompressInput) : DaemonM Reply := do
  let filter := compressFilter rpcInput
  let w ← get
  let compressedAlarmEntries ← w.alarms.entries.foldlM (compressAlarm l filter) 0
  onlyIf (compressedAlarmEntries ≠ 0) (writeEdit env)
  return .compressedAlarms (toString compressedAlarmEntries)

end IetfAlarms

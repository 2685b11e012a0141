import IetfAlarms.LastChanged
import IetfAlarms.Validation
import Mathlib.Data.Set.Card

/-!
# The alarm board

What the daemon is for, said without its tree, its table and its cache: a board with the alarms, each with its shelf
and its latest changes, and with the time when either list was touched last. A call makes one board of another, at a
time; nothing else is asked about what it finds outside.
-/

namespace IetfAlarms

/-! ### Alarms -/

/-- A change of an alarm. -/
structure Change where
  time : TimePoint
  severity : SeverityWithClear
  text : String

/-- An alarm on the board. -/
structure Alarm where
  shelf : Option String
  /-- When it was raised first. -/
  created : TimePoint
  /-- Since when it is said to be in the alarm list. -/
  timeCreated : TimePoint
  lastRaised : TimePoint
  lastChanged : TimePoint
  severity : Severity
  isCleared : Bool
  text : String
  /-- The newest first. -/
  changes : List Change

/-- As many of the newest changes as are kept. -/
def newest (limit : Option UInt16) (changes : List Change) : List Change :=
  limit.elim changes fun n => changes.take n.toNat

namespace Alarm

def list (a : Alarm) : Listing := Listing.ofShelf a.shelf

def raise (limit : Option UInt16) (shelf : Option String) (now : TimePoint) (severity : Severity) (text : String) :
    Alarm where
  shelf := shelf
  created := now
  timeCreated := now
  lastRaised := now
  lastChanged := now
  severity := severity
  isCleared := false
  text := text
  changes := newest limit [⟨now, .active severity, text⟩]

/-- What is submitted is not what the alarm has. The text of a clear does not count. -/
def Differs (severity : SeverityWithClear) (text : String) (a : Alarm) : Prop :=
  match severity with
  | .cleared => a.isCleared = false
  | .active s => a.isCleared = true ∨ s ≠ a.severity ∨ text ≠ a.text

instance (severity : SeverityWithClear) (text : String) (a : Alarm) : Decidable (a.Differs severity text) := by
  unfold Differs
  split
  · infer_instance
  · infer_instance

def change (limit : Option UInt16) (c : Change) (a : Alarm) : Alarm where
  shelf := a.shelf
  created := a.created
  timeCreated := a.created
  lastRaised := if c.severity ≠ .cleared ∧ a.isCleared = true then c.time else a.lastRaised
  lastChanged := c.time
  severity :=
    match c.severity with
    | .cleared => a.severity
    | .active s => s
  isCleared := c.severity == .cleared
  text := c.text
  changes := newest limit (c :: a.changes)

def trim (limit : Option UInt16) (a : Alarm) : Alarm := { a with changes := newest limit a.changes }

/-- An alarm that comes back from the shelf is in the alarm list since then. -/
def place (now : TimePoint) (shelf : Option String) (a : Alarm) : Alarm :=
  { a with shelf := shelf, timeCreated := if a.shelf.isSome then now else a.timeCreated }

/-- The alarm is in this list and meets every criterion, the age as far as it fits into 64 bits. -/
structure ToPurge (l : Listing) (input : PurgeInput) (now : TimePoint) (a : Alarm) : Prop where
  listed : a.list = l
  cleared : input.alarmClearanceStatus = .cleared → a.isCleared = true
  notCleared : input.alarmClearanceStatus = .notCleared → a.isCleared = false
  severity : ∀ spec, input.severity = some (some spec) → spec.check a.severity.value = true
  age : ∀ spec, input.olderThan = some (some spec) → a.lastChanged < wrap64 (now - wrap64 spec.length)

structure ToCompress (l : Listing) (input : CompressInput) (k : InstanceKey) (a : Alarm) : Prop where
  listed : a.list = l
  resource : ∀ resource, input.resource = some resource → k.resource = resource
  alarmTypeId : ∀ id, input.alarmTypeId = some id → k.type.id.text = id
  alarmTypeQualifier : ∀ qualifier, input.alarmTypeQualifier = some qualifier → k.type.qualifier = qualifier

/-- What touches a list when it changes. -/
def state (a : Alarm) : Option String × Bool × Severity × String := (a.shelf, a.isCleared, a.severity, a.text)

end Alarm

/-! ### Boards -/

structure Board where
  inventory : List InventoryEntry
  rules : ShelvingRules
  limit : Option UInt16
  alarms : InstanceKey → Option Alarm
  lastChanged : Listing → TimePoint

/-- The limit after these changes; what comes after a shelf is not looked at. -/
def limitAfter : List ControlChange → Option UInt16 → Option UInt16
  | [], limit => limit
  | .alarmShelving :: _, limit => limit
  | .maxAlarmStatusChanges value :: changes, _ => limitAfter changes value
  | .notifyStatusChanges _ :: changes, limit => limitAfter changes limit
  | .notifySeverityLevel _ :: changes, limit => limitAfter changes limit
  | .other :: changes, limit => limitAfter changes limit

namespace Board
variable [Libyang]

/-- The submission comes from inside, its key can be written down, and the inventory has it. -/
structure Admits (b : Board) (o : String) (input : AlarmInput) : Prop where
  served : Served o
  quotable : (InstanceKey.fromNode input).Quotable
  announced : AnnouncedIn b.inventory (InstanceKey.fromNode input) input.severity

/-- What a submission makes of its alarm. -/
def submitted (b : Board) (now : TimePoint) (input : AlarmInput) : Option Alarm :=
  match b.alarms (InstanceKey.fromNode input) with
  | none =>
    match input.severity with
    | .cleared => none
    | .active s => some (.raise b.limit (findMatchingShelf (InstanceKey.fromNode input) b.rules) now s input.alarmText)
  | some a =>
    if a.Differs input.severity input.alarmText then
      some (a.change b.limit ⟨now, input.severity, input.alarmText⟩)
    else some a

def submit (now : TimePoint) (input : AlarmInput) (b : Board) : Board :=
  { b with alarms := Function.update b.alarms (InstanceKey.fromNode input) (b.submitted now input) }

open Classical in
noncomputable def purge (l : Listing) (input : PurgeInput) (now : TimePoint) (b : Board) : Board :=
  { b with alarms := fun k => (b.alarms k).filter fun a => ¬ a.ToPurge l input now }

open Classical in
noncomputable def compress (l : Listing) (input : CompressInput) (b : Board) : Board :=
  { b with alarms := fun k => (b.alarms k).map fun a => if a.ToCompress l input k then a.trim (some 1) else a }

def configure (now : TimePoint) (changes : List ControlChange) (shelving : ShelvingRules) (b : Board) : Board :=
  { b with
    rules := if .alarmShelving ∈ changes then shelving else b.rules
    limit := limitAfter changes b.limit
    alarms := fun k => (b.alarms k).map fun a =>
      (if .alarmShelving ∈ changes then a.place now (findMatchingShelf k shelving) else a).trim
        (limitAfter changes b.limit) }

open Classical in
noncomputable def act (call : Call) (env : Env) (b : Board) : Board :=
  match call with
  | .createOrUpdateAlarm o input => if b.Admits o input then b.submit env.now input else b
  | .purgeAlarms l input => if input.Valid then b.purge l input env.filterNow else b
  | .compressAlarms l input => b.compress l input
  | .controlChanged changes shelving => b.configure env.now changes shelving
  | .inventoryChanged inventory => { b with inventory := inventory }

/-- Some alarm that is in this list before or afterwards has come, gone or changed. -/
def Touched (l : Listing) (b b' : Board) : Prop :=
  ∃ k, (b.alarms k).map Alarm.state ≠ (b'.alarms k).map Alarm.state ∧
    ((∃ a ∈ b.alarms k, a.list = l) ∨ ∃ a ∈ b'.alarms k, a.list = l)

open Classical in
noncomputable def step (call : Call) (env : Env) (b : Board) : Board :=
  { b.act call env with
    lastChanged := fun l => if Touched l b (b.act call env) then env.now else b.lastChanged l }

/-- The board of a daemon that has just started. -/
def start (b : Boot) : Board where
  inventory := b.inventory
  rules := b.shelving
  limit := limitAfter b.changes none
  alarms := fun _ => none
  lastChanged := b.listStart

/-- The board after these calls, the latest first. -/
noncomputable def after (b : Boot) : History → Board
  | [] => start b
  | t :: tr => (after b tr).step t.label.call t.label.env

/-- How many alarms on the board are so. -/
noncomputable def count (b : Board) (p : Alarm → Prop) : Nat := {k | ∃ a, b.alarms k = some a ∧ p a}.ncard

end Board

end IetfAlarms

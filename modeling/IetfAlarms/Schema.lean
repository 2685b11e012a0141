import IetfAlarms.Lib.DataTree
import Mathlib.Logic.Relation

/-!
# What the YANG modules fix

The schema nodes of `ietf-alarms` that the daemon writes, the severities, and the two libyang
functions it relies on.
-/

namespace IetfAlarms

/-- `std::chrono::system_clock` time points, in nanoseconds. -/
abbrev TimePoint := Int

inductive Schema
  | alarms | alarmList | alarm | shelvedAlarms | shelvedAlarm | summary | alarmSummary
  | numberOfAlarms | numberOfShelvedAlarms | shelvedAlarmsLastChanged
  | severity | total | notCleared | cleared
  | alarmTypeId | alarmTypeQualifier | resource
  | isCleared | lastRaised | lastChanged | perceivedSeverity | alarmText | shelfName | timeCreated
  | statusChange | time
deriving DecidableEq, Repr

abbrev Node := DataTree.Node Schema
abbrev Step := DataTree.Step Schema
abbrev Path := DataTree.Path Schema

/-! ### Severities -/

/-- The `severity` type. -/
inductive Severity
  | indeterminate | warning | minor | major | critical
deriving DecidableEq, Repr

def Severity.value : Severity → Int
  | indeterminate => 2
  | warning => 3
  | minor => 4
  | major => 5
  | critical => 6

/-- The `severity-with-clear` type. -/
inductive SeverityWithClear
  | cleared
  | active (s : Severity)
deriving DecidableEq, Repr

def clearedSeverity : Int := 1

def SeverityWithClear.value : SeverityWithClear → Int
  | cleared => clearedSeverity
  | active s => s.value

/-- The table `Severities`; index 0 is a dummy. -/
def severities : List String :=
  ["_", "cleared", "indeterminate", "warning", "minor", "major", "critical"]

/-- `Severities[i]`; `none` out of bounds. -/
def severityName (i : Int) : Option String :=
  if 0 ≤ i then severities[i.toNat]? else none

def Severity.name : Severity → String
  | indeterminate => "indeterminate"
  | warning => "warning"
  | minor => "minor"
  | major => "major"
  | critical => "critical"

def SeverityWithClear.name : SeverityWithClear → String
  | cleared => "cleared"
  | active s => s.name

@[simp] theorem severityName_value (s : Severity) : severityName s.value = some s.name := by
  cases s <;> rfl

@[simp] theorem severityName_value' (s : SeverityWithClear) : severityName s.value = some s.name := by
  cases s with
  | cleared => rfl
  | active s => exact severityName_value s

theorem Severity.value_injective : Function.Injective Severity.value := by
  intro s t h; cases s <;> cases t <;> first | rfl | cases h

theorem Severity.name_injective : Function.Injective Severity.name := by
  intro s t h; cases s <;> cases t <;> first | rfl | simp [Severity.name] at h

theorem Severity.two_le_value (s : Severity) : 2 ≤ s.value := by cases s <;> decide

theorem SeverityWithClear.value_eq_cleared {s : SeverityWithClear} :
    s.value = clearedSeverity ↔ s = cleared := by
  cases s with
  | cleared => simp [value]
  | active s => cases s <;> simp [value, Severity.value, clearedSeverity]

/-! ### Failures -/

/-- How a call ends when it does not return: a C++ exception leaves it, or its behaviour is undefined. -/
inductive Failure
  /-- A sysrepo call threw. -/
  | sysrepo
  /-- libyang rejected the text of a path. -/
  | badPath
  /-- `newPath` without `CreationOptions::Update` on a node that exists. -/
  | nodeExists
  /-- `utils::childValue` of a missing child. -/
  | noSuchChild
  /-- `escapeListKey` of a text with both kinds of quotes. -/
  | mixedQuotes
  /-- A filter container without its choice. -/
  | invalidFilter
  /-- `std::optional::value` of an empty optional. -/
  | badOptionalAccess
  /-- An `assert` failed. -/
  | assertion
  /-- An empty `std::optional` was dereferenced. -/
  | emptyOptional
  /-- An index beyond the table `Severities`. -/
  | outOfRange
deriving DecidableEq, Repr

def Failure.isUndefined : Failure → Bool
  | assertion | emptyOptional | outOfRange => true
  | _ => false

/-! ### libyang -/

structure Identity where
  module : String
  name : String
deriving DecidableEq, Repr

/-- `libyang::qualifiedName`. -/
def qualifiedName (i : Identity) : String := i.module ++ ":" ++ i.name

/-- What the daemon relies on: times print injectively, and `derivedRecursive` lists an identity
together with everything derived from it. -/
class Libyang where
  yangTimeFormat : TimePoint → String
  yangTimeFormat_injective : Function.Injective yangTimeFormat
  /-- The direct derivations of the schema, base first. -/
  derived : Identity → Identity → Prop
  derivedRecursive : Identity → List Identity
  mem_derivedRecursive : ∀ i d, d ∈ derivedRecursive i ↔ Relation.ReflTransGen derived i d

export Libyang (yangTimeFormat)

end IetfAlarms

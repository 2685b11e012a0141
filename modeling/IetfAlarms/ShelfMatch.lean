import IetfAlarms.Key

/-!
# Shelf matching

`src/alarms/ShelfMatch.cpp`, over `/ietf-alarms:alarms/control/alarm-shelving`.
-/

namespace IetfAlarms

/-- An entry of `shelf/alarm-type`. -/
structure ShelfAlarmType where
  alarmTypeId : Identity
  alarmTypeQualifierMatch : String
deriving DecidableEq, Repr

structure Shelf where
  name : String
  resource : List String
  alarmType : List ShelfAlarmType
deriving DecidableEq, Repr

/-- The shelves in user order. -/
abbrev ShelvingRules := List Shelf

variable [Libyang]

def matchesIdentity (identity : Identity) (type : AlarmType) : Bool :=
  (Libyang.derivedRecursive identity).any fun d => qualifiedName d == type.id.text

def matchesType (alarmTypeNodes : List ShelfAlarmType) (type : AlarmType) : Bool :=
  alarmTypeNodes.any fun node =>
    type.qualifier == node.alarmTypeQualifierMatch && matchesIdentity node.alarmTypeId type

def matchesShelf (node : Shelf) (alarmKey : InstanceKey) : Bool :=
  if !node.resource.isEmpty && !node.resource.any (· == alarmKey.resource) then false
  else if !node.alarmType.isEmpty && !matchesType node.alarmType alarmKey.type then false
  else true

def findMatchingShelf (alarmKey : InstanceKey) (shelves : ShelvingRules) : Option String :=
  (shelves.find? fun node => matchesShelf node alarmKey).map (·.name)

def shouldBeShelved (shelvingRules : ShelvingRules) (key : InstanceKey) : Option String :=
  findMatchingShelf key shelvingRules

end IetfAlarms

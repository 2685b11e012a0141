import IetfAlarms.Key

/-!
# Alarm entries

`src/alarms/AlarmEntry.h` and the `AlarmEntry` functions of `src/alarms/Daemon.cpp`: what the daemon
remembers of one alarm and how a submission changes it.
-/

namespace IetfAlarms

inductive NotifyStatusChanges
  | all | raiseAndClear | bySeverity
deriving DecidableEq, Repr

structure StatusChange where
  time : TimePoint
  perceivedSeverity : Int
  text : String
deriving DecidableEq, Repr

/-- `statusChanges` grows at the back: the last one is the newest. -/
structure AlarmEntry where
  created : TimePoint
  lastRaised : TimePoint
  lastChanged : TimePoint
  text : String
  shelf : Option String
  lastSeverity : Int
  isCleared : Bool
  statusChanges : List StatusChange
deriving DecidableEq, Repr

structure WhatChanged where
  changed : Bool
  shouldNotify : Bool
  removedStatusChanges : List TimePoint
deriving DecidableEq, Repr

/-- The input of `create-or-update-alarm`. -/
structure AlarmInput where
  resource : String
  alarmTypeId : IdentityName
  alarmTypeQualifier : String
  severity : SeverityWithClear
  alarmText : String
deriving DecidableEq

def InstanceKey.fromNode (input : AlarmInput) : InstanceKey :=
  ⟨⟨input.alarmTypeId, input.alarmTypeQualifier⟩, input.resource⟩

def AlarmInput.isClearedNow (input : AlarmInput) : Bool := input.severity.value == clearedSeverity

namespace AlarmEntry

/-- A value-initialized entry, as `try_emplace` leaves it. -/
def new : AlarmEntry := ⟨0, 0, 0, "", none, 0, false, []⟩

/-- Drop the oldest changes beyond the limit; the result lists their times. -/
def shrinkStatusChanges (self : AlarmEntry) (maxAlarmStatusChanges : Option UInt16) :
    AlarmEntry × List TimePoint :=
  match maxAlarmStatusChanges with
  | none => (self, [])
  | some limit =>
    if self.statusChanges.length > limit.toNat then
      let toErase := self.statusChanges.length - limit.toNat
      ({ self with statusChanges := self.statusChanges.drop toErase },
        (self.statusChanges.take toErase).map (·.time))
    else (self, [])

/-- `unset` is what the empty optional `notifySeverityThreshold` happens to read as. -/
def updateByRpc (self : AlarmEntry) (wasPresent : Bool) (now : TimePoint) (input : AlarmInput)
    (shelf : Option String) (notifyStatusChanges : NotifyStatusChanges)
    (notifySeverityThreshold : Option Int) (maxAlarmStatusChanges : Option UInt16) (unset : Int) :
    Except Failure (AlarmEntry × WhatChanged) :=
  let severity := input.severity.value
  let isClearedNow := severity == clearedSeverity
  -- assert(!isClearedNow || wasPresent)
  if isClearedNow && !wasPresent then .error .assertion else
  let this := if wasPresent then self else { self with shelf := shelf, created := now, lastSeverity := -1 }
  let changed := wasPresent && this.isCleared != isClearedNow
  let changed := changed || input.alarmText != this.text
  let this := { this with text := input.alarmText }
  let shouldNotify :=
    if isClearedNow || notifyStatusChanges == .all then true
    else if notifyStatusChanges == .raiseAndClear then !wasPresent || isClearedNow != this.isCleared
    else false
  -- true also for previously unseen alarm keys
  let changed := changed || severity != this.lastSeverity
  let threshold := notifySeverityThreshold.getD unset
  let shouldNotify := shouldNotify || (!isClearedNow && notifyStatusChanges == .bySeverity &&
    (decide (threshold ≤ severity) || decide (threshold ≤ this.lastSeverity)))
  let this :=
    if isClearedNow then this else
    { this with
      lastRaised := if !wasPresent || (wasPresent && this.isCleared) then now else this.lastRaised
      lastSeverity := if severity > clearedSeverity then severity else this.lastSeverity }
  let this := { this with isCleared := severity == clearedSeverity }
  if changed then
    let this := { this with
      lastChanged := now
      statusChanges := this.statusChanges ++ [StatusChange.mk now this.lastSeverity this.text] }
    let shrunk := this.shrinkStatusChanges maxAlarmStatusChanges
    .ok (shrunk.1, ⟨true, shouldNotify, shrunk.2⟩)
  else .ok (this, ⟨false, shouldNotify, []⟩)

/-! ### Trimming -/

/-- How many status changes are too many. -/
def excess (self : AlarmEntry) (maxAlarmStatusChanges : Option UInt16) : Nat :=
  match maxAlarmStatusChanges with
  | none => 0
  | some limit => self.statusChanges.length - limit.toNat

theorem shrinkStatusChanges_eq (self : AlarmEntry) (maxAlarmStatusChanges : Option UInt16) :
    self.shrinkStatusChanges maxAlarmStatusChanges =
      ({ self with statusChanges := self.statusChanges.drop (self.excess maxAlarmStatusChanges) },
        (self.statusChanges.take (self.excess maxAlarmStatusChanges)).map (·.time)) := by
  cases maxAlarmStatusChanges with
  | none => rfl
  | some limit =>
    simp only [shrinkStatusChanges, excess]
    split
    · rfl
    · rename_i h
      have hz : self.statusChanges.length - limit.toNat = 0 := by omega
      rw [hz]
      rfl

/-! ### What a submission does -/

/-- The entry a submission starts from. -/
def orFresh (found : Option AlarmEntry) (now : TimePoint) (shelf : Option String) : AlarmEntry :=
  found.getD { new with shelf := shelf, created := now, lastSeverity := -1 }

/-- The submission changes the clearance, the severity or the text, or the alarm is new. -/
def changes (found : Option AlarmEntry) (input : AlarmInput) : Bool :=
  match found with
  | none => true
  | some e => e.isCleared != input.isClearedNow || input.alarmText != e.text ||
      input.severity.value != e.lastSeverity

/-- No alarm, or a cleared one. -/
def quiet (found : Option AlarmEntry) : Bool :=
  match found with
  | none => true
  | some e => e.isCleared

def notifies (found : Option AlarmEntry) (input : AlarmInput) (notifyStatusChanges : NotifyStatusChanges)
    (threshold : Int) : Bool :=
  input.isClearedNow || match notifyStatusChanges with
    | .all => true
    | .raiseAndClear => quiet found
    | .bySeverity => decide (threshold ≤ input.severity.value) ||
        decide (threshold ≤ (orFresh found 0 none).lastSeverity)

/-- The severity that is remembered after a submission. -/
def nextSeverity (lastSeverity : Int) : SeverityWithClear → Int
  | .cleared => lastSeverity
  | .active s => s.value

/-- The entry after a submission that changes something, before the limit is applied. -/
def recorded (found : Option AlarmEntry) (now : TimePoint) (input : AlarmInput) (shelf : Option String) :
    AlarmEntry :=
  let this := orFresh found now shelf
  { this with
    lastRaised := if !input.isClearedNow && quiet found then now else this.lastRaised
    lastChanged := now
    text := input.alarmText
    lastSeverity := nextSeverity this.lastSeverity input.severity
    isCleared := input.isClearedNow
    statusChanges := this.statusChanges ++
      [⟨now, nextSeverity this.lastSeverity input.severity, input.alarmText⟩] }

variable {found : Option AlarmEntry} {input : AlarmInput}

theorem isClearedNow_eq_false {s : Severity} (h : input.severity = .active s) : input.isClearedNow = false := by
  rw [AlarmInput.isClearedNow, h]
  cases s <;> rfl

theorem isClearedNow_eq_true (h : input.severity = .cleared) : input.isClearedNow = true := by
  rw [AlarmInput.isClearedNow, h]
  rfl

theorem updateByRpc_of_changes (now : TimePoint) (shelf : Option String)
    (notifyStatusChanges : NotifyStatusChanges) (notifySeverityThreshold : Option Int)
    (maxAlarmStatusChanges : Option UInt16) (unset : Int)
    (hc : input.severity = .cleared → ∃ e, found = some e ∧ e.isCleared = false)
    (h : changes found input = true) :
    (found.getD new).updateByRpc found.isSome now input shelf notifyStatusChanges notifySeverityThreshold
        maxAlarmStatusChanges unset =
      .ok (((recorded found now input shelf).shrinkStatusChanges maxAlarmStatusChanges).1,
        ⟨true, notifies found input notifyStatusChanges (notifySeverityThreshold.getD unset),
          ((recorded found now input shelf).shrinkStatusChanges maxAlarmStatusChanges).2⟩) := by
  cases hs : input.severity with
  | cleared =>
    obtain ⟨e, rfl, he⟩ := hc hs
    have hn := isClearedNow_eq_true hs
    simp [updateByRpc, recorded, notifies, orFresh, nextSeverity, hs, hn, he, SeverityWithClear.value, clearedSeverity]
  | active s =>
    have hn := isClearedNow_eq_false hs
    have hs1 : clearedSeverity < s.value := by have := s.two_le_value; unfold clearedSeverity; omega
    have hs2 : (s.value == clearedSeverity) = false := beq_false_of_ne (by omega)
    have hs3 : s.value ≠ -1 := by unfold clearedSeverity at hs1; omega
    cases hf : found with
    | none =>
      cases notifyStatusChanges with
      | bySeverity =>
        simp [updateByRpc, recorded, notifies, orFresh, nextSeverity, quiet, new, hs, hn, hs1, hs2, hs3,
          SeverityWithClear.value]
        rfl
      | _ =>
        simp [updateByRpc, recorded, notifies, orFresh, nextSeverity, quiet, new, hs, hn, hs1, hs2, hs3,
          SeverityWithClear.value]
    | some e =>
      rw [hf] at h
      simp only [changes, hn, hs, SeverityWithClear.value, Bool.bne_false] at h
      cases he : e.isCleared <;> simp [he] at h <;> cases notifyStatusChanges with
      | bySeverity =>
        simp [updateByRpc, recorded, notifies, orFresh, nextSeverity, quiet, hs, hn, hs1, hs2, he, h,
          SeverityWithClear.value]
        rfl
      | _ =>
        simp [updateByRpc, recorded, notifies, orFresh, nextSeverity, quiet, hs, hn, hs1, hs2, he, h,
          SeverityWithClear.value]

theorem updateByRpc_of_not_changes {e : AlarmEntry} (now : TimePoint) (shelf : Option String)
    (notifyStatusChanges : NotifyStatusChanges) (notifySeverityThreshold : Option Int)
    (maxAlarmStatusChanges : Option UInt16) (unset : Int)
    (hc : input.severity = .cleared → e.isCleared = false) (h : changes (some e) input = false) :
    ∃ what, e.updateByRpc true now input shelf notifyStatusChanges notifySeverityThreshold
        maxAlarmStatusChanges unset = .ok (e, what) ∧ what.changed = false := by
  cases hs : input.severity with
  | cleared =>
    have hn := isClearedNow_eq_true hs
    simp [changes, hn, hc hs] at h
  | active s =>
    have hn := isClearedNow_eq_false hs
    have hs1 : clearedSeverity < s.value := by have := s.two_le_value; unfold clearedSeverity; omega
    have hs2 : (s.value == clearedSeverity) = false := beq_false_of_ne (by omega)
    simp only [changes, hn, hs, Bool.or_eq_false_iff, SeverityWithClear.value] at h
    obtain ⟨⟨h1, h2⟩, h3⟩ := h
    have he : e.isCleared = false := by simpa using h1
    have ht : input.alarmText = e.text := by simpa using h2
    have hl : s.value = e.lastSeverity := by simpa using h3
    obtain ⟨created, lastRaised, lastChanged, text, shelf', lastSeverity, isCleared, statusChanges⟩ := e
    simp only at he ht hl
    subst he ht hl
    refine ⟨⟨false, notifies (some ⟨created, lastRaised, lastChanged, input.alarmText, shelf', s.value, false,
      statusChanges⟩) input notifyStatusChanges (notifySeverityThreshold.getD unset), []⟩, ?_, rfl⟩
    cases notifyStatusChanges with
    | bySeverity =>
      simp [updateByRpc, notifies, orFresh, hs, hn, hs1, hs2, SeverityWithClear.value]
      exact of_decide_eq_true
    | _ => simp [updateByRpc, notifies, quiet, hs, hn, hs1, hs2, SeverityWithClear.value]

end AlarmEntry
end IetfAlarms

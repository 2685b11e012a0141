import IetfAlarms.Compressing
import IetfAlarms.InventoryCache
import IetfAlarms.IterationOrder
import IetfAlarms.Mirror
import IetfAlarms.Resubmission
import IetfAlarms.Shelving

/-!
# When a call throws

Exactly when: the causes are written out in `FailsWith`, in terms of what the daemon has and of what the call finds
outside. Writes and notifications may have failed before. All that is asked of the run is that no submission found
its time in the history of its alarm; then the tree has whatever a call removes from it, and no call looks into an
empty optional or beyond a table.
-/

namespace IetfAlarms
open Program Trace KeyPredicate

section
variable [Libyang] {b : Boot} {tr : History} {w : World} {env : Env} {o : String} {input : AlarmInput} {f : Failure}
variable {limit : Option UInt16} {e : AlarmEntry} {k : InstanceKey}

/-! ### Causes -/

/-- The alarm has more status changes than this. -/
def AlarmEntry.LongerThan (limit : Option UInt16) (e : AlarmEntry) : Prop :=
  ∃ n, limit = some n ∧ n.toNat < e.statusChanges.length

/-- Why a call throws. -/
inductive FailsWith (w : World) (env : Env) : Call → Failure → Prop
  /-- The inventory has to be read again. -/
  | inventoryNotRead {o : String} {input : AlarmInput} {x : String} : Served o →
      (InstanceKey.fromNode input).xpathIndex = .ok x → w.inventoryDirty = true → env.getDataThrows = true →
      FailsWith w env (.createOrUpdateAlarm o input) .sysrepo
  /-- The qualifier has a single quote in it, which is not escaped. -/
  | pathNotParsed {o : String} {input : AlarmInput} {x : String} : Served o →
      (InstanceKey.fromNode input).xpathIndex = .ok x → (w.inventoryDirty && env.getDataThrows) = false →
      Announced input w → alreadyCleared w.alarms (InstanceKey.fromNode input) input.isClearedNow = false →
      singleQuote ∈ input.alarmTypeQualifier.toList → FailsWith w env (.createOrUpdateAlarm o input) .badPath
  /-- The history of the alarm has a status change with this time already. -/
  | timeTaken {o : String} {input : AlarmInput} : Served o → Effective env input w → ¬ Fresh env input w →
      FailsWith w env (.createOrUpdateAlarm o input) .nodeExists
  | alarmNotWritten {o : String} {input : AlarmInput} : Served o → Effective env input w → Fresh env input w →
      env.writeThrows = true → FailsWith w env (.createOrUpdateAlarm o input) .sysrepo
  | alarmNotSent {o : String} {input : AlarmInput} : Served o → Effective env input w → Fresh env input w →
      w.toNotify env input = true → env.sendNotificationThrows = true →
      FailsWith w env (.createOrUpdateAlarm o input) .sysrepo
  /-- A container of the filter lacks its choice. -/
  | invalidFilter {l : Listing} {input : PurgeInput} : input.severity = some none ∨ input.olderThan = some none →
      FailsWith w env (.purgeAlarms l input) .invalidFilter
  | purgeNotWritten {l : Listing} {input : PurgeInput} {filter : AlarmFilter} :
      purgeFilter input env.filterNow = .ok filter → (∃ x ∈ w.alarms.entries, purges l filter x = true) →
      env.writeThrows = true → FailsWith w env (.purgeAlarms l input) .sysrepo
  | compressNotWritten {l : Listing} {input : CompressInput} :
      (∃ x ∈ w.alarms.entries, ToCompress l input x.1 x.2 ∧ 1 < x.2.statusChanges.length) → env.writeThrows = true →
      FailsWith w env (.compressAlarms l input) .sysrepo
  | shelvingNotRead {changes : List ControlChange} {shelving : ShelvingRules} : .alarmShelving ∈ changes →
      env.getDataThrows = true → FailsWith w env (.controlChanged changes shelving) .sysrepo
  | reshelvedNotWritten {changes : List ControlChange} {shelving : ShelvingRules} : .alarmShelving ∈ changes →
      (∃ x ∈ w.alarms.entries, x.2.shelf ≠ findMatchingShelf x.1 shelving) → env.writeThrows = true →
      FailsWith w env (.controlChanged changes shelving) .sysrepo
  | shrunkNotWritten {changes : List ControlChange} {shelving : ShelvingRules} : needsShrink changes w = true →
      (∃ x ∈ w.alarms.entries, x.2.LongerThan (w.scanned changes).maxAlarmStatusChanges) → env.writeThrows = true →
      FailsWith w env (.controlChanged changes shelving) .sysrepo
  | inventoryNotSent {inventory : List InventoryEntry} : env.sendNotificationThrows = true →
      FailsWith w env (.inventoryChanged inventory) .sysrepo

/-! ### Writing and notifying -/

omit [Libyang] in
theorem writtenAndNotified_error_iff {α : Type} {a : α} {n : Option Notification} :
    (writtenAndNotified env a w n).1 = .error f ↔
      f = .sysrepo ∧ (env.writeThrows = true ∨ n.isSome = true ∧ env.sendNotificationThrows = true) := by
  unfold writtenAndNotified
  have hsysrepo : (.error .sysrepo : Except Failure α) = .error f ↔ f = .sysrepo :=
    ⟨fun h => (Except.error.inj h).symm, fun h => congrArg Except.error h.symm⟩
  cases env.writeThrows with
  | true => simp [hsysrepo]
  | false =>
    cases n with
    | none => simp
    | some n =>
      cases env.sendNotificationThrows with
      | true => simp [hsysrepo]
      | false => simp

/-! ### Submissions -/

/-- An effective submission ends in one of two ways. -/
theorem exec_of_effective (hi : Inv w) (hrec : ∀ k, Recorded (w.slot k)) (ho : Served o) (he : Effective env input w) :
    (Fresh env input w ∧ exec (createOrUpdateAlarm env o input) w = submittedResult env input w) ∨
      (¬ Fresh env input w ∧
        exec (createOrUpdateAlarm env o input) w = (.error .nodeExists, w.submittedPartly env input)) := by
  choose changes _ hrecords using hrec
  have hsubmit : SubmitResult env input w (exec (createOrUpdateAlarm env o input) w) := exec_createOrUpdateAlarm hi ho
  exact hsubmit.of_effective he fun f hf => defined_of_records hi hrecords (.createOrUpdateAlarm o input) env hf

theorem submittedResult_error_iff : (submittedResult env input w).1 = .error f ↔
    f = .sysrepo ∧ (env.writeThrows = true ∨ w.toNotify env input = true ∧ env.sendNotificationThrows = true) := by
  unfold submittedResult World.announcement
  rw [writtenAndNotified_error_iff]
  cases w.toNotify env input with
  | true => simp
  | false => simp

omit [Libyang] in
theorem not_quotable_iff {x : String} (hx : (InstanceKey.fromNode input).xpathIndex = .ok x) :
    ¬ (InstanceKey.fromNode input).Quotable ↔ singleQuote ∈ input.alarmTypeQualifier.toList := by
  have hmixed : ¬ (singleQuote ∈ input.resource.toList ∧ doubleQuote ∈ input.resource.toList) := by
    refine (escapeListKey_isOk input.resource).1 ?_
    unfold InstanceKey.xpathIndex at hx
    cases hr : escapeListKey (InstanceKey.fromNode input).resource with
    | error e =>
      rw [hr] at hx
      cases hx
    | ok r => exact ⟨r, hr⟩
  constructor
  · exact fun hk => Classical.not_not.1 fun hq => hk ⟨hmixed, hq⟩
  · exact fun hq hk => hk.2 hq

/-- A submission with such a cause throws. -/
theorem FailsWith.submission (hi : Inv w) (hrec : ∀ k, Recorded (w.slot k))
    (h : FailsWith w env (.createOrUpdateAlarm o input) f) :
    (exec (createOrUpdateAlarm env o input) w).1 = .error f := by
  cases h with
  | inventoryNotRead ho hx hdirty hthrows =>
    rw [createOrUpdateAlarm, if_neg (Bool.eq_false_iff.1 ho), exec_submitAlarm_eq hx, hdirty, hthrows]
    rfl
  | pathNotParsed ho hx hg ha hc hq =>
    have hbad : exec (updateAlarm env input (InstanceKey.fromNode input) _) w.refreshed =
        (.error .badPath, w.refreshed) := exec_updateAlarm_of_not_quotable hi.refreshed ((not_quotable_iff hx).2 hq) hx
    have ha' : inventoryValidationError w.refreshed.inventory (InstanceKey.fromNode input) input.severity.value =
        .ok none := ha
    rw [createOrUpdateAlarm, if_neg (Bool.eq_false_iff.1 ho), exec_submitAlarm_eq hx, hg, if_neg Bool.false_ne_true, ha']
    simp only [hc, Bool.false_eq_true, if_false]
    rw [exec_bind_of_error hbad]
  | timeTaken ho he hfresh =>
    rcases exec_of_effective hi hrec ho he with ⟨hfresh', -⟩ | ⟨-, hex⟩
    · exact absurd hfresh' hfresh
    · rw [hex]
  | alarmNotWritten ho he hfresh hw =>
    rcases exec_of_effective hi hrec ho he with ⟨-, hex⟩ | ⟨hfresh', -⟩
    · rw [hex]
      exact submittedResult_error_iff.2 ⟨rfl, .inl hw⟩
    · exact absurd hfresh hfresh'
  | alarmNotSent ho he hfresh hn hs =>
    rcases exec_of_effective hi hrec ho he with ⟨-, hex⟩ | ⟨hfresh', -⟩
    · rw [hex]
      exact submittedResult_error_iff.2 ⟨rfl, .inr ⟨hn, hs⟩⟩
    · exact absurd hfresh hfresh'

/-! ### The other calls -/

omit [Libyang] in
theorem purgeFilter_error_iff {input : PurgeInput} {now : TimePoint} :
    purgeFilter input now = .error f ↔ f = .invalidFilter ∧ (input.severity = some none ∨ input.olderThan = some none) := by
  have hinvalid : (.error .invalidFilter : Except Failure AlarmFilter) = .error f ↔ f = .invalidFilter :=
    ⟨fun h => (Except.error.inj h).symm, fun h => congrArg Except.error h.symm⟩
  obtain ⟨clearance, severity, olderThan⟩ := input
  rcases severity with _ | _ | severity <;> rcases olderThan with _ | _ | olderThan <;> simp [purgeFilter, hinvalid]

end

namespace AlarmsTest

end AlarmsTest

end IetfAlarms

import IetfAlarms.Recorded

/-!
# What a purge removes

From every reachable state `purgeAlarms` removes the alarms of its list that meet the criteria of the
request, from memory and from the tree, and leaves the rest of both alone. The only criterion that can go
wrong is the age, where the threshold does not fit into 64 bits.
-/

namespace IetfAlarms
open Program Trace DataTree DataTree.Node

section
variable [Libyang] {b : Boot} {w w' : World} {env : Env} {l : Listing} {input : PurgeInput} {k : InstanceKey}
variable {e : AlarmEntry} {tr : History} {r : Except Failure Reply} {now : Int} {filter : AlarmFilter}

/-! ### Criteria -/

/-- Every container has a case of its choice. -/
def PurgeInput.Valid (input : PurgeInput) : Prop := input.severity ≠ some none ∧ input.olderThan ≠ some none

def ClearanceStatus.Meets (status : ClearanceStatus) (e : AlarmEntry) : Prop :=
  match status with
  | .any => True
  | .cleared => e.isCleared = true
  | .notCleared => e.isCleared = false

def SeveritySpec.Meets (spec : SeveritySpec) (e : AlarmEntry) : Prop :=
  match spec with
  | .above s => e.lastSeverity > s.value
  | .is s => e.lastSeverity = s.value
  | .below s => e.lastSeverity < s.value

/-- The alarm meets the criteria for the clearance and the severity. -/
structure MeetsStatus (input : PurgeInput) (e : AlarmEntry) : Prop where
  clearance : input.alarmClearanceStatus.Meets e
  severity : ∀ spec, input.severity = some (some spec) → spec.Meets e

/-- The alarm is older than the request says. -/
def MeetsAge (input : PurgeInput) (now : Int) (e : AlarmEntry) : Prop :=
  ∀ spec, input.olderThan = some (some spec) → e.lastChanged + spec.length < now

/-- The comparison with the threshold that the daemon computes for it. -/
def BelowThreshold (input : PurgeInput) (now : Int) (e : AlarmEntry) : Prop :=
  ∀ spec, input.olderThan = some (some spec) → e.lastChanged < wrap64 (now - wrap64 spec.length)

/-- The alarm is in this list and meets every criterion. -/
structure ToPurge (l : Listing) (input : PurgeInput) (now : Int) (e : AlarmEntry) : Prop where
  listed : Listing.ofShelf e.shelf = l
  status : MeetsStatus input e
  age : MeetsAge input now e

omit [Libyang] in
theorem ClearanceStatus.check_iff (status : ClearanceStatus) (e : AlarmEntry) :
    status.check e = true ↔ status.Meets e := by
  cases status with
  | any => exact iff_of_true rfl trivial
  | cleared => rfl
  | notCleared => exact Bool.not_eq_true' _ |>.to_iff

omit [Libyang] in
theorem SeveritySpec.check_iff (spec : SeveritySpec) (e : AlarmEntry) :
    spec.check e.lastSeverity = true ↔ spec.Meets e := by
  cases spec with
  | above s => exact decide_eq_true_iff
  | is s => exact beq_iff_eq.trans eq_comm
  | below s => exact decide_eq_true_iff

omit [Libyang] in
/-- A valid request makes a filter, which matches by these criteria. -/
theorem purgeFilter_ok (hv : input.Valid) (now : TimePoint) :
    ∃ filter, purgeFilter input now = .ok filter ∧
      ∀ k e, filter.matches k e = true ↔ MeetsStatus input e ∧ BelowThreshold input now e := by
  obtain ⟨status, severity, olderThan⟩ := input
  obtain ⟨hseverity, hage⟩ := hv
  have hstatus : ∀ e, MeetsStatus ⟨status, severity, olderThan⟩ e ↔
      status.Meets e ∧ ∀ spec, severity = some (some spec) → spec.Meets e :=
    fun e => ⟨fun h => ⟨h.clearance, h.severity⟩, fun h => ⟨h.1, h.2⟩⟩
  simp only [hstatus, BelowThreshold, ← ClearanceStatus.check_iff, ← SeveritySpec.check_iff]
  rcases severity with _ | _ | severity
  · rcases olderThan with _ | _ | age
    · exact ⟨_, rfl, fun k e => by simp [AlarmFilter.matches]⟩
    · exact absurd rfl hage
    · exact ⟨_, rfl, fun k e => by simp [AlarmFilter.matches, AgeSpec.nanoseconds_eq]⟩
  · exact absurd rfl hseverity
  · rcases olderThan with _ | _ | age
    · exact ⟨_, rfl, fun k e => by simp [AlarmFilter.matches]⟩
    · exact absurd rfl hage
    · exact ⟨_, rfl, fun k e => by simp [AlarmFilter.matches, AgeSpec.nanoseconds_eq, and_assoc]⟩

/-! ### The purge -/

/-- How a call ends that changes so many alarms: it is written if there are any, and it returns their number. -/
def Answers (env : Env) (reply : String → Reply) (n : Nat) (w : World) (r : Except Failure Reply) (w' : World) :
    Prop :=
  if n = 0 then r = .ok (reply "0") ∧ w' = w
  else if env.writeThrows then r = .error .sysrepo ∧ w'.operational = w.operational
  else r = .ok (reply (toString n)) ∧ w'.operational = w'.edit

omit [Libyang] in
theorem answers_of_written {reply : String → Reply} {n : Nat} {w₁ : World} (hframe : w₁.frame = w.frame)
    (hex : (if n = 0 then (.ok (reply (toString n)), w) else written env w₁ (reply (toString n))) = (r, w')) :
    Answers env reply n w r w' := by
  unfold Answers
  split at hex
  · rename_i hz
    obtain ⟨rfl, rfl⟩ := Prod.mk.inj hex
    rw [if_pos hz, hz]
    exact ⟨rfl, rfl⟩
  · rename_i hz
    rw [if_neg hz]
    rcases written_cases hex with ⟨hw, rfl, rfl⟩ | ⟨hw, rfl, rfl⟩
    · have ho := congrArg (fun w : World => w.operational) hframe
      rw [if_pos hw]
      exact ⟨rfl, ho⟩
    · rw [if_neg (Bool.eq_false_iff.1 hw)]
      exact ⟨rfl, rfl⟩

theorem exec_purgeAlarms_of_valid (hi : Inv w) (l : Listing) (hfilter : purgeFilter input env.filterNow = .ok filter) :
    exec (purgeAlarms env l input) w =
      if w.alarms.entries.countP (purges l filter) = 0 then
        (.ok (.purgedAlarms (toString (w.alarms.entries.countP (purges l filter)))), w)
      else written env (w.purged l filter env.now)
        (.purgedAlarms (toString (w.alarms.entries.countP (purges l filter)))) := by
  rw [exec_purgeAlarms hi, purgeResult, hfilter]

theorem slot_purged (l : Listing) (filter : AlarmFilter) (now : TimePoint) (k : InstanceKey) :
    (w.purged l filter now).slot k =
      match w.alarms.lookup k with
      | some e => (w.slot k).purge l filter (k, e)
      | none => w.slot k := by
  rw [World.purged, World.slot_recount, World.slot_touch]
  exact World.slot_foldl (World.slot_purge_self l filter) (World.slot_purge_of_ne l filter) k

/-- What a purge does to an alarm, whatever comes of the write. -/
theorem slot_of_purge (hi : Inv w) (hfilter : purgeFilter input env.filterNow = .ok filter)
    (hex : exec (purgeAlarms env l input) w = (r, w')) (k : InstanceKey) :
    w'.slot k = match w.alarms.lookup k with
      | some e => (w.slot k).purge l filter (k, e)
      | none => w.slot k := by
  rw [exec_purgeAlarms_of_valid hi l hfilter] at hex
  split at hex
  · rename_i hz
    obtain ⟨-, rfl⟩ := Prod.mk.inj hex
    have hsame := World.slot_foldl (w := w) (World.slot_purge_self l filter) (World.slot_purge_of_ne l filter) k
    rw [World.purge_eq_self hz] at hsame
    exact hsame
  · have hsame := same_of_written hex
    rw [hsame.slot, slot_purged]

end

namespace AlarmsTest

end AlarmsTest
end IetfAlarms

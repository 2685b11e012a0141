import IetfAlarms.Runs

/-!
# What calls do not look at

The programs that work on the alarms and on `m_edit` neither read nor write what surrounds them: what is cached
of the inventory, the inventory itself, the operational datastore and the notifications. They run in the same
way whatever these are (`Commutes` with `World.within`).
-/

namespace IetfAlarms
open Program

structure Surroundings where
  inventoryDirty : Bool
  inventory : AssocMap AlarmType InventoryData
  inventoryData : List InventoryEntry
  operational : Node
  sent : List Notification

def World.surroundings (w : World) : Surroundings :=
  ⟨w.inventoryDirty, w.inventory, w.inventoryData, w.operational, w.sent⟩

/-- The state with its surroundings changed. -/
def World.within (φ : Surroundings → Surroundings) (w : World) : World :=
  let x := φ w.surroundings
  { w with
    inventoryDirty := x.inventoryDirty
    inventory := x.inventory
    inventoryData := x.inventoryData
    operational := x.operational
    sent := x.sent }

section
variable {φ : Surroundings → Surroundings}

theorem commutes_onEdit {α : Type} (m : EditM α) : Commutes (World.within φ) (onEdit m) := by
  intro w
  rw [exec_onEdit, exec_onEdit]
  rfl

theorem commutes_getData (env : Env) : Commutes (World.within φ) (getData env) :=
  .ite (commutes_throw _) (commutes_pure _)

theorem commutes_touchList (l : Listing) (now : TimePoint) : Commutes (World.within φ) (touchList l now) :=
  commutes_modify fun w => by cases l <;> rfl

variable [Libyang]

theorem commutes_updateStatistics : Commutes (World.within φ) updateStatistics := by
  refine .get_bind (fun _ => rfl) fun w => ?_
  exact .bind (commutes_modify fun _ => rfl) fun _ => commutes_onEdit _

/-! ### Loops over the alarms -/

omit [Libyang] in
theorem commutes_purgeAlarm (l : Listing) (filter : AlarmFilter) (n : Nat) (alarm : InstanceKey × AlarmEntry) :
    Commutes (World.within φ) (purgeAlarm l filter n alarm) := by
  refine .ite (commutes_pure _) (.ite (commutes_pure _) ?_)
  refine (commutes_ofExcept _).bind fun keyXPath => (commutes_ofExcept _).bind fun path => ?_
  exact (commutes_onEdit _).bind fun _ => .bind (commutes_modify fun _ => rfl) fun _ => commutes_pure _

theorem commutes_compressAlarm (l : Listing) (filter : AlarmFilter) (n : Nat) (item : InstanceKey × AlarmEntry) :
    Commutes (World.within φ) (compressAlarm l filter n item) := by
  refine .ite (.bind (commutes_modify fun _ => rfl) fun _ => ?_) (commutes_pure _)
  refine .bind (.forM (fun time => ?_) _) fun _ => commutes_pure _
  exact (commutes_ofExcept _).bind fun keyXPath => (commutes_ofExcept _).bind fun path => commutes_onEdit _

theorem commutes_shrinkStatusChangesLists : Commutes (World.within φ) shrinkStatusChangesLists := by
  refine .get_bind (fun _ => rfl) fun w => .ite (commutes_pure _) (.foldlM (fun changed item => ?_) _ _)
  refine .bind (commutes_modify fun _ => rfl) fun _ => .bind (.forM (fun time => ?_) _) fun _ => commutes_pure _
  exact (commutes_ofExcept _).bind fun keyXPath => (commutes_ofExcept _).bind fun path => commutes_onEdit _

theorem commutes_reshelveAlarm (now : TimePoint) (shelvingRules : ShelvingRules) (change : Bool)
    (item : InstanceKey × AlarmEntry) :
    Commutes (World.within φ) (reshelveAlarm now shelvingRules change item) := by
  have hset : ∀ shelf, Commutes (World.within φ) (setShelf item.1 shelf) := fun shelf => commutes_modify fun _ => rfl
  unfold reshelveAlarm
  refine (commutes_ofExcept _).bind fun keyXPath => ?_
  split
  · refine (commutes_ofExcept _).bind fun path => (commutes_onEdit _).bind fun node => (hset _).bind fun _ => ?_
    refine (commutes_touchList _ _).bind fun _ => (commutes_touchList _ _).bind fun _ => (commutes_onEdit _).bind fun _ => ?_
    exact (commutes_onEdit _).bind fun _ => commutes_pure _
  · refine (commutes_ofExcept _).bind fun path => (commutes_onEdit _).bind fun node => (hset _).bind fun _ => ?_
    refine (commutes_touchList _ _).bind fun _ => (commutes_touchList _ _).bind fun _ => (commutes_onEdit _).bind fun _ => ?_
    exact (commutes_onEdit _).bind fun _ => commutes_pure _
  · refine .ite ((hset _).bind fun _ => (commutes_touchList _ _).bind fun _ => ?_) (commutes_pure _)
    exact (commutes_ofExcept _).bind fun path => (commutes_onEdit _).bind fun _ => commutes_pure _
  · exact commutes_pure _

theorem commutes_reshelve (env : Env) (shelving : ShelvingRules) :
    Commutes (World.within φ) (reshelve env shelving) := by
  refine (commutes_getData env).bind fun _ => .bind (commutes_modify fun _ => rfl) fun _ => ?_
  refine .get_bind (fun _ => rfl) fun w => .bind (.foldlM (commutes_reshelveAlarm env.now shelving) _ _) fun change => ?_
  exact (Commutes.onlyIf commutes_updateStatistics).bind fun _ => commutes_pure _

/-! ### Control changes -/

omit [Libyang] in
theorem scanChanges_within (changes : List ControlChange) (d : Daemon) (shrink dirty : Bool)
    (index : AssocMap AlarmType InventoryData) :
    scanChanges changes { d with inventoryDirty := dirty, inventory := index } shrink =
      { scanChanges changes d shrink with
        daemon := { (scanChanges changes d shrink).daemon with inventoryDirty := dirty, inventory := index } } := by
  induction changes generalizing d shrink with
  | nil => rfl
  | cons c changes ih =>
    cases c with
    | alarmShelving => rfl
    | notifyStatusChanges value => exact ih { d with notifyStatusChanges := value } shrink
    | notifySeverityLevel value => exact ih { d with notifySeverityThreshold := value.map (·.value) } shrink
    | maxAlarmStatusChanges value =>
      exact ih { d with maxAlarmStatusChanges := value } (shrink || limitLowered d.maxAlarmStatusChanges value)
    | other => exact ih d shrink

omit [Libyang] in
/-- The loop over the changes reads and leaves the same settings, whatever surrounds it. -/
theorem scanned_within (changes : List ControlChange) (w : World) :
    (w.within φ).scanned changes = (w.scanned changes).within φ ∧
      needsReshelve changes (w.within φ) = needsReshelve changes w ∧
      needsShrink changes (w.within φ) = needsShrink changes w := by
  have hscan : scanChanges changes (w.within φ).toDaemon false =
      { scanChanges changes w.toDaemon false with
        daemon := { (scanChanges changes w.toDaemon false).daemon with
          inventoryDirty := (φ w.surroundings).inventoryDirty, inventory := (φ w.surroundings).inventory } } :=
    scanChanges_within changes w.toDaemon false _ _
  have hsurroundings : (w.scanned changes).surroundings = w.surroundings := by
    rw [World.scanned_eq]
    rfl
  refine ⟨?_, by rw [needsReshelve, hscan]; rfl, by rw [needsShrink, hscan]; rfl⟩
  have hright : (w.scanned changes).within φ = { w.scanned changes with
      inventoryDirty := (φ w.surroundings).inventoryDirty
      inventory := (φ w.surroundings).inventory
      inventoryData := (φ w.surroundings).inventoryData
      operational := (φ w.surroundings).operational
      sent := (φ w.surroundings).sent } := by
    rw [World.within, hsurroundings]
  rw [hright]
  unfold World.scanned
  rw [hscan]
  rfl

/-- The callback for `control` after its loop over the changes. -/
def controlScanned (env : Env) (shelving : ShelvingRules) (reshelves shrinks : Bool) : DaemonM Reply := do
  let reshelved ← (if reshelves then reshelve env shelving else pure false)
  let shrunk ← (if shrinks then shrinkStatusChangesLists else pure false)
  onlyIf (reshelved || shrunk) (writeEdit env)
  return .ok

theorem exec_controlChanged_scanned (env : Env) (changes : List ControlChange) (shelving : ShelvingRules) (w : World) :
    exec (controlChanged env changes shelving) w =
      exec (controlScanned env shelving (needsReshelve changes w) (needsShrink changes w)) (w.scanned changes) := rfl

end

end IetfAlarms

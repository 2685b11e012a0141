import IetfAlarms.Surroundings

/-!
# The cached inventory

`m_inventory` is an index over the inventory that was read last, and nothing but the validation in
`submitAlarm` looks at it: every other part of every call runs in the same way whatever is cached
(`Commutes` with `World.withCache`).
-/

namespace IetfAlarms
open Program

/-! ### The index over the inventory -/

/-- `m_inventory` after `rebuildInventory`. -/
def indexOf (inventory : List InventoryEntry) : AssocMap AlarmType InventoryData :=
  inventory.foldl emplaceInventory .empty

def InventoryEntry.type (entry : InventoryEntry) : AlarmType := ⟨entry.alarmTypeId, entry.alarmTypeQualifier⟩

def InventoryEntry.data (entry : InventoryEntry) : InventoryData :=
  ⟨entry.resource, entry.severityLevel.map (·.value)⟩

theorem emplaceInventory_eq (index : AssocMap AlarmType InventoryData) (entry : InventoryEntry) :
    emplaceInventory index entry =
      if (index.lookup entry.type).isSome then index else index.set entry.type entry.data := rfl

theorem lookup_emplaceInventory (index : AssocMap AlarmType InventoryData) (entry : InventoryEntry) (type : AlarmType) :
    (emplaceInventory index entry).lookup type =
      (index.lookup type).or (if type = entry.type then some entry.data else none) := by
  rw [emplaceInventory_eq]
  by_cases hty : type = entry.type
  · subst hty
    rcases hfound : index.lookup entry.type with _ | data
    · simp
    · simpa using hfound
  · rw [if_neg hty, Option.or_none]
    split
    · rfl
    · rw [AssocMap.lookup_set, if_neg hty]

/-- The index finds the first entry of a type. -/
theorem lookup_indexOf (inventory : List InventoryEntry) (type : AlarmType) :
    (indexOf inventory).lookup type = (inventory.find? fun entry => type = entry.type).map (·.data) := by
  have hfold : ∀ index : AssocMap AlarmType InventoryData, (inventory.foldl emplaceInventory index).lookup type =
      (index.lookup type).or ((inventory.find? fun entry => type = entry.type).map (·.data)) := by
    induction inventory with
    | nil => exact fun index => (Option.or_none).symm
    | cons entry inventory ih =>
      intro index
      rw [List.foldl_cons, ih, lookup_emplaceInventory, Option.or_assoc, List.find?_cons]
      by_cases hty : type = entry.type
      · simp [hty]
      · simp [hty]
  exact hfold .empty

theorem indexOf_append (inventory : List InventoryEntry) (entry : InventoryEntry) :
    indexOf (inventory ++ [entry]) = emplaceInventory (indexOf inventory) entry := by
  rw [indexOf, List.foldl_append]
  rfl

/-! ### What does not look at the cache -/

/-- The state with something else cached, over another inventory. -/
def World.withCache (dirty : Bool) (index : AssocMap AlarmType InventoryData) (data : List InventoryEntry) :
    World → World :=
  World.within fun x => { x with inventoryDirty := dirty, inventory := index, inventoryData := data }

/-- A program that runs in the same way whatever is cached does not change what is. -/
theorem cache_kept {α : Type} {m : DaemonM α} {w w' : World} {r : Except Failure α}
    (h : ∀ dirty index data, Commutes (World.withCache dirty index data) m) (hex : exec m w = (r, w')) :
    w' = w'.withCache w.inventoryDirty w.inventory w.inventoryData := by
  have hself := h w.inventoryDirty w.inventory w.inventoryData w
  have hw : w.withCache w.inventoryDirty w.inventory w.inventoryData = w := rfl
  rw [hw, hex] at hself
  exact congrArg Prod.snd hself

section
variable {dirty : Bool} {index : AssocMap AlarmType InventoryData} {data : List InventoryEntry}

theorem commutes_writeEdit (env : Env) : Commutes (World.withCache dirty index data) (writeEdit env) := by
  intro w
  rw [exec_writeEdit, exec_writeEdit]
  split
  · rfl
  · rfl

theorem commutes_sendNotification (env : Env) (notification : Notification) :
    Commutes (World.withCache dirty index data) (sendNotification env notification) :=
  .ite (commutes_throw _) (commutes_modify fun _ => rfl)

theorem commutes_notifyStatusChange (env : Env) (alarmNodePath : Path) :
    Commutes (World.withCache dirty index data) (notifyStatusChange env alarmNodePath) := by
  refine .get_bind (fun _ => rfl) fun w => ?_
  rcases w.edit.find alarmNodePath with _ | n
  · exact commutes_throw _
  · exact (commutes_ofExcept _).bind fun notification => commutes_sendNotification env notification

variable [Libyang]

theorem commutes_updateAlarm (env : Env) (input : AlarmInput) (alarmKey : InstanceKey) (keyXPath : String) :
    Commutes (World.withCache dirty index data) (updateAlarm env input alarmKey keyXPath) := by
  refine .get_bind (fun _ => rfl) fun w => ?_
  refine (commutes_ofExcept _).bind fun shelvingRules => (commutes_ofExcept _).bind fun path => ?_
  refine (commutes_onEdit _).bind fun _ => (commutes_ofExcept _).bind fun updated => ?_
  refine .bind (commutes_modify fun _ => rfl) fun _ => .onlyIf ?_
  refine (commutes_onEdit _).bind fun _ => (commutes_onEdit _).bind fun _ => ?_
  refine commutes_updateStatistics.bind fun _ => (commutes_writeEdit env).bind fun _ => ?_
  exact .onlyIf (commutes_notifyStatusChange env path)

theorem commutes_purgeAlarms (env : Env) (l : Listing) (rpcInput : PurgeInput) :
    Commutes (World.withCache dirty index data) (purgeAlarms env l rpcInput) := by
  refine (commutes_ofExcept _).bind fun filter => .get_bind (fun _ => rfl) fun w => ?_
  refine .bind (.foldlM (commutes_purgeAlarm l filter) _ _) fun n => .bind (.onlyIf ?_) fun _ => commutes_pure _
  exact (commutes_touchList l env.now).bind fun _ => commutes_updateStatistics.bind fun _ => commutes_writeEdit env

theorem commutes_compressAlarms (env : Env) (l : Listing) (rpcInput : CompressInput) :
    Commutes (World.withCache dirty index data) (compressAlarms env l rpcInput) := by
  refine .get_bind (fun _ => rfl) fun w => .bind (.foldlM (commutes_compressAlarm l _) _ _) fun n => ?_
  exact .bind (.onlyIf (commutes_writeEdit env)) fun _ => commutes_pure _

theorem commutes_controlChanged (env : Env) (changes : List ControlChange) (shelving : ShelvingRules) :
    Commutes (World.withCache dirty index data) (controlChanged env changes shelving) := by
  intro w
  obtain ⟨hscanned, hreshelves, hshrinks⟩ := scanned_within changes w
  rw [exec_controlChanged_scanned, exec_controlChanged_scanned, World.withCache, hscanned, hreshelves, hshrinks]
  refine Commutes.bind (.ite (commutes_reshelve env shelving) (commutes_pure _)) (fun reshelved => ?_) _
  refine .bind (.ite commutes_shrinkStatusChangesLists (commutes_pure _)) fun shrunk => ?_
  exact .bind (.onlyIf (commutes_writeEdit env)) fun _ => commutes_pure _

/-- The call does not get as far as the inventory, and is not about it. -/
def Call.IgnoresCache : Call → Prop
  | createOrUpdateAlarm originatorName input =>
    ¬ Served originatorName ∨ ∃ message, (InstanceKey.fromNode input).xpathIndex = .error message
  | purgeAlarms _ _ => True
  | compressAlarms _ _ => True
  | controlChanged _ _ => True
  | inventoryChanged _ => False

theorem exec_submitAlarm_of_error {input : AlarmInput} {message : String}
    (h : (InstanceKey.fromNode input).xpathIndex = .error message) (env : Env) (w : World) :
    exec (submitAlarm env input) w = (.ok (.invalidArgument message), w) := by
  unfold submitAlarm
  simp only [h]
  rfl

theorem Call.commutes {call : Call} (h : call.IgnoresCache) (env : Env) :
    Commutes (World.withCache dirty index data) (call.run env) := by
  cases call with
  | createOrUpdateAlarm originatorName input =>
    rcases h with h | ⟨message, h⟩
    · show Commutes _ (IetfAlarms.createOrUpdateAlarm env originatorName input)
      rw [IetfAlarms.createOrUpdateAlarm, if_pos ((Bool.not_eq_false _).mp h)]
      exact commutes_pure _
    · refine .ite (commutes_pure _) fun w => ?_
      rw [exec_submitAlarm_of_error h, exec_submitAlarm_of_error h]
  | purgeAlarms l input => exact commutes_purgeAlarms env l input
  | compressAlarms l input => exact commutes_compressAlarms env l input
  | controlChanged changes shelving => exact commutes_controlChanged env changes shelving
  | inventoryChanged inventory => exact h.elim

end

end IetfAlarms

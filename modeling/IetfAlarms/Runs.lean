import IetfAlarms.Identities
import IetfAlarms.SubmitSpec

/-!
# What a step of a run does

The constructor leaves an empty, written tree (`Started.boots`). A call ends in one of the results of
the modules before (`Ends`); in memory it has one of the effects of `Effect`, whatever sysrepo does. The
invariant holds in every run, and the shelves are what the loaded rules say.
-/

namespace IetfAlarms
open Program Trace DataTree DataTree.Node

section
variable [Libyang] {b : Boot} {w w₁ w' : World} {ev : Event} {env : Env} {input : AlarmInput}

/-! ### The constructor -/

/-- The tree that the constructor starts from. -/
def Boot.created (b : Boot) : World := b.world.withEdit (Node.empty.newPath Listing.alarmList.path none)

omit [Libyang] in
theorem find_created_entry (b : Boot) (l : Listing) (s : Step) (q : Path) :
    find (l.path ++ s :: q) b.created.edit = none := by
  show find (l.path ++ s :: q) (Node.empty.modify Listing.alarmList.path (withValue none)) = none
  cases l with
  | alarmList =>
    rw [find_modify_append]
    rfl
  | shelvedAlarms =>
    have hne : (⟨Schema.alarmList, []⟩ : Step) ≠ ⟨.shelvedAlarms, []⟩ := by decide
    exact (find_modify_of_apart (apart_append_cons hne [⟨.alarms, []⟩] [] (s :: q)) _ _).trans rfl

/-- A daemon that has just started: no alarms, the statistics are written, the rules are loaded. -/
structure Boots (b : Boot) (w : World) : Prop where
  alarms : w.alarms = .empty
  edit : w.edit = b.created.recount.edit
  operational : w.operational = w.edit
  alarmListLastChanged : w.alarmListLastChanged = b.alarmListStart
  shelfListLastChanged : w.shelfListLastChanged = b.shelfListStart
  shelvingRules : w.shelvingRules = some b.shelving
  inventoryDirty : w.inventoryDirty = true
  inventoryData : w.inventoryData = b.inventory
  notifyStatusChanges : w.notifyStatusChanges = (b.created.recount.scanned b.changes).notifyStatusChanges
  notifySeverityThreshold : w.notifySeverityThreshold = (b.created.recount.scanned b.changes).notifySeverityThreshold
  limit : w.maxAlarmStatusChanges = (b.created.recount.scanned b.changes).maxAlarmStatusChanges
  sent : w.sent = [.alarmInventoryChanged]

omit [Libyang] in
/-- The changes before the one below `alarm-shelving` are seen, and it is. -/
theorem scanChanges_needsReshelve {changes : List ControlChange} (h : ControlChange.alarmShelving ∈ changes)
    (d : Daemon) (shrink : Bool) : (scanChanges changes d shrink).needsReshelve = true := by
  induction changes generalizing d shrink with
  | nil => cases h
  | cons c changes ih =>
    cases c with
    | alarmShelving => rfl
    | notifyStatusChanges value => exact ih ((List.mem_cons.1 h).resolve_left ControlChange.noConfusion) _ _
    | notifySeverityLevel value => exact ih ((List.mem_cons.1 h).resolve_left ControlChange.noConfusion) _ _
    | maxAlarmStatusChanges value => exact ih ((List.mem_cons.1 h).resolve_left ControlChange.noConfusion) _ _
    | other => exact ih ((List.mem_cons.1 h).resolve_left ControlChange.noConfusion) _ _

/-- Without alarms there is nothing to move and nothing to trim. -/
theorem exec_controlChanged_of_empty (env : Env) {changes : List ControlChange} (shelving : ShelvingRules)
    (hc : ControlChange.alarmShelving ∈ changes) (ha : w.alarms = .empty) :
    exec (controlChanged env changes shelving) w =
      if env.getDataThrows then (.error .sysrepo, w.scanned changes)
      else (.ok .ok, { w.scanned changes with shelvingRules := some shelving }) := by
  have hs : (scanChanges changes w.toDaemon false).needsReshelve = true := scanChanges_needsReshelve hc _ _
  have hempty : (w.scanned changes).alarms = .empty := (scanned_alarms changes w).trans ha
  have hreshelve : exec (reshelve env shelving) (w.scanned changes) =
      if env.getDataThrows then (.error .sysrepo, w.scanned changes)
      else (.ok false, { w.scanned changes with shelvingRules := some shelving }) := by
    unfold reshelve getData
    cases env.getDataThrows with
    | true => rfl
    | false =>
      change exec (do
        let change ← (w.scanned changes).alarms.entries.foldlM (reshelveAlarm env.now shelving) false
        onlyIf change updateStatistics
        pure change) { w.scanned changes with shelvingRules := some shelving } = _
      rw [hempty]
      rfl
  have hshrink : exec shrinkStatusChangesLists { w.scanned changes with shelvingRules := some shelving } =
      (.ok false, { w.scanned changes with shelvingRules := some shelving }) := by
    unfold shrinkStatusChangesLists
    rw [exec_get_bind]
    simp only [hempty]
    split
    · rfl
    · rfl
  have hstart : exec (controlChanged env changes shelving) w = exec (do
      let reshelved ← (if needsReshelve changes w then reshelve env shelving else pure false)
      let shrunk ← (if needsShrink changes w then shrinkStatusChangesLists else pure false)
      onlyIf (reshelved || shrunk) (writeEdit env)
      return Reply.ok) (w.scanned changes) := rfl
  rw [hstart, needsReshelve, hs, if_pos rfl, exec_bind, hreshelve]
  cases env.getDataThrows with
  | true => rfl
  | false =>
    simp only [Bool.false_eq_true, if_false]
    cases needsShrink changes w with
    | true =>
      rw [if_pos rfl, exec_bind_of_ok hshrink]
      rfl
    | false => rfl

theorem Started.boots (h : Started b w) : Boots b w := by
  obtain ⟨hc, hex⟩ := h
  have hstats : exec updateStatistics b.created = (.ok (), b.created.recount) :=
    World.exec_updateStatistics (w := b.created) fun x hx => absurd hx List.not_mem_nil
  have hcontrol := exec_controlChanged_of_empty b.env b.shelving hc
    (show b.created.recount.published.alarms = .empty from rfl)
  have hstart : exec b.construct b.world = exec (do
      updateStatistics
      writeEdit b.env
      let _ ← controlChanged b.env b.changes b.shelving
      let _ ← inventoryChanged b.env b.inventory) b.created := rfl
  rw [hstart, exec_bind_of_ok hstats, exec_bind, exec_writeEdit] at hex
  cases hw : b.env.writeThrows with
  | true =>
    rw [hw] at hex
    cases congrArg Prod.fst hex
  | false =>
    rw [hw] at hex
    simp only [Bool.false_eq_true, if_false] at hex
    rw [exec_bind, hcontrol] at hex
    cases hg : b.env.getDataThrows with
    | true =>
      rw [hg] at hex
      cases congrArg Prod.fst hex
    | false =>
      rw [hg] at hex
      simp only [Bool.false_eq_true, if_false] at hex
      unfold inventoryChanged sendNotification at hex
      cases hn : b.env.sendNotificationThrows with
      | true =>
        rw [hn] at hex
        cases congrArg Prod.fst hex
      | false =>
        rw [hn] at hex
        have hs := World.scanned_eq b.changes b.created.recount.published
        have hw' : { b.created.recount.published.scanned b.changes with
            shelvingRules := some b.shelving
            inventoryData := b.inventory
            inventoryDirty := true
            sent := .alarmInventoryChanged :: (b.created.recount.published.scanned b.changes).sent } = w :=
          congrArg Prod.snd hex
        rw [← hw']
        have ha := congrArg (fun w : World => w.alarms) hs
        have he := congrArg (fun w : World => w.edit) hs
        have ho := congrArg (fun w : World => w.operational) hs
        have halarmList := congrArg (fun w : World => w.alarmListLastChanged) hs
        have hshelfList := congrArg (fun w : World => w.shelfListLastChanged) hs
        have hsent := congrArg (fun w : World => w.sent) hs
        exact ⟨ha, he, ho.trans he.symm, halarmList, hshelfList, rfl, rfl, rfl, rfl, rfl, rfl,
          congrArg (List.cons _) hsent⟩

namespace Boots

theorem find_entry (h : Boots b w) (l : Listing) {s : Step} (hs : s.name = l.entry) (q : Path) :
    find (l.path ++ s :: q) w.edit = none := by
  rw [h.edit, World.find_recount hs]
  exact find_created_entry b l s q

theorem slot_eq (h : Boots b w) (k : InstanceKey) : w.slot k = ⟨none, fun _ => none⟩ := by
  have hn : ∀ l, w.edit.find (alarmPath l k) = none := fun l => h.find_entry l rfl []
  rw [World.slot, h.alarms, funext hn]
  rfl

theorem inv (h : Boots b w) : Inv w := by
  refine ⟨⟨?_, fun l s hs hfind => ?_⟩, ?_, fun k => ?_⟩
  · rw [h.edit]
    exact World.wf_recount (WF.empty.newPath _ _)
  · rw [h.find_entry l hs []] at hfind
    cases hfind
  · rw [World.rules, h.shelvingRules]
    rfl
  · rw [h.slot_eq k]
    exact .of_absent rfl fun _ => rfl

theorem statisticsRight (h : Boots b w) : World.StatisticsRight w := by
  have hr := World.statisticsRight_recount (w := b.created)
  have ha : b.created.recount.alarms = w.alarms := h.alarms.symm
  have he := h.edit
  refine ⟨fun s => ?_, fun s => ?_, fun s => ?_, ?_, ?_⟩
  · rw [he, ← ha]; exact hr.total s
  · rw [he, ← ha]; exact hr.notCleared s
  · rw [he, ← ha]; exact hr.cleared s
  · rw [he, ← ha]; exact hr.numberOfAlarms
  · rw [he, ← ha]; exact hr.numberOfShelvedAlarms

end Boots

/-! ### How a call ends -/

/-- The state that the callback for the inventory leaves before it notifies. -/
def World.withInventory (inventory : List InventoryEntry) (w : World) : World :=
  { w with inventoryData := inventory, inventoryDirty := true }

def inventoryResult (env : Env) (inventory : List InventoryEntry) (w : World) : Except Failure Reply × World :=
  if env.sendNotificationThrows then (.error .sysrepo, w.withInventory inventory)
  else (.ok .ok, (w.withInventory inventory).notified .alarmInventoryChanged)

omit [Libyang] in
theorem exec_inventoryChanged (inventory : List InventoryEntry) :
    exec (inventoryChanged env inventory) w = inventoryResult env inventory w := by
  unfold inventoryChanged sendNotification inventoryResult
  cases env.sendNotificationThrows <;> rfl

/-- How a call ends, for each call, from a state with the invariant. -/
inductive Ends (w : World) : Event → World → Prop
  | refused {o : String} {input : AlarmInput} {env : Env} {r : Except Failure Reply} {w' : World} :
      (Served o → ¬ Effective env input w) → r ≠ .ok .ok → w' = w ∨ w' = w.refreshed →
      Ends w ⟨.createOrUpdateAlarm o input, env, r⟩ w'
  | idle {o : String} {input : AlarmInput} {env : Env} : ¬ AsksChange input w →
      Ends w ⟨.createOrUpdateAlarm o input, env, .ok .ok⟩ w.refreshed
  | clash {o : String} {input : AlarmInput} {env : Env} : Served o → Effective env input w → ¬ Fresh env input w →
      Ends w ⟨.createOrUpdateAlarm o input, env, .error .nodeExists⟩ (w.submittedPartly env input)
  | changed {o : String} {input : AlarmInput} {env : Env} {r : Except Failure Reply} {w' : World} :
      Served o → Effective env input w → Fresh env input w → submittedResult env input w = (r, w') →
      Ends w ⟨.createOrUpdateAlarm o input, env, r⟩ w'
  | purge {l : Listing} {input : PurgeInput} {env : Env} {r : Except Failure Reply} {w' : World} :
      purgeResult env l input w = (r, w') → Ends w ⟨.purgeAlarms l input, env, r⟩ w'
  | compress {l : Listing} {input : CompressInput} {env : Env} {r : Except Failure Reply} {w' : World} :
      compressResult env l input w = (r, w') → Ends w ⟨.compressAlarms l input, env, r⟩ w'
  | control {changes : List ControlChange} {shelving : ShelvingRules} {env : Env} {r : Except Failure Reply}
      {w' : World} : controlResult env changes shelving w = (r, w') →
      Ends w ⟨.controlChanged changes shelving, env, r⟩ w'
  | inventory {inventory : List InventoryEntry} {env : Env} {r : Except Failure Reply} {w' : World} :
      inventoryResult env inventory w = (r, w') → Ends w ⟨.inventoryChanged inventory, env, r⟩ w'

/-- A defined call ends as its equation says. -/
theorem EndsIn.exec_eq {α : Type} {limit : Option UInt16} {w₀ : World} {m : DaemonM α} {r : Except Failure α × World}
    (h : EndsIn limit w w₀ m r) (hd : ∀ f, (exec m w).1 = .error f → f.isUndefined = false) : exec m w = r := by
  rcases h with h | ⟨w', h, -⟩
  · exact h
  · have := hd .emptyOptional (by rw [h])
    cases this

theorem SubmitResult.ends {o : String} {r : Except Failure Reply} (ho : Served o)
    (h : SubmitResult env input w (r, w')) (hd : ∀ f, r = .error f → f.isUndefined = false) : Ends w ⟨.createOrUpdateAlarm o input, env, r⟩ w' := by
  generalize hx : (r, w') = x at h
  cases h with
  | refused he hr _ hw =>
    cases hx
    exact .refused (fun _ => he) hr hw
  | idle hn =>
    cases hx
    exact .idle hn
  | clash he hf =>
    cases hx
    exact .clash ho he hf
  | undefined he hf hn =>
    cases hx
    have := hd _ rfl
    cases this
  | changed he hf => exact .changed ho he hf hx.symm

theorem Performs.ends (h : Inv w) (hp : Performs w ev w') : Ends w ev w' := by
  obtain ⟨call, env, r⟩ := ev
  obtain ⟨hex, hd⟩ := hp
  cases call with
  | createOrUpdateAlarm o input =>
    have hex' : exec (createOrUpdateAlarm env o input) w = (r, w') := hex
    by_cases ho : Served o
    · have hsubmit : SubmitResult env input w (exec (createOrUpdateAlarm env o input) w) :=
        exec_createOrUpdateAlarm h ho
      rw [hex'] at hsubmit
      exact hsubmit.ends ho hd
    · obtain ⟨reply, hr, hreply⟩ := exec_createOrUpdateAlarm_of_not_served ho env input w
      obtain ⟨rfl, rfl⟩ := Prod.mk.inj (hex'.symm.trans hreply)
      exact .refused (fun hs => absurd hs ho) (fun heq => hr (Except.ok.inj heq)) (.inl rfl)
  | purgeAlarms l input => exact .purge ((exec_purgeAlarms h l input).symm.trans hex)
  | compressAlarms l input =>
    have hex' : exec (compressAlarms env l input) w = (r, w') := hex
    have := (exec_compressAlarms env h l input).exec_eq (by rw [hex']; exact hd)
    exact .compress (this.symm.trans hex)
  | controlChanged changes shelving =>
    have hex' : exec (controlChanged env changes shelving) w = (r, w') := hex
    have := (exec_controlChanged env h changes shelving).exec_eq (by rw [hex']; exact hd)
    exact .control (this.symm.trans hex)
  | inventoryChanged inventory => exact .inventory ((exec_inventoryChanged inventory).symm.trans hex)

/-! ### What a call does in memory -/

/-- The alarms, the tree, the two time points, the rules and the settings are the same. -/
structure SameMemory (w w' : World) : Prop where
  alarms : w'.alarms = w.alarms
  edit : w'.edit = w.edit
  alarmListLastChanged : w'.alarmListLastChanged = w.alarmListLastChanged
  shelfListLastChanged : w'.shelfListLastChanged = w.shelfListLastChanged
  shelvingRules : w'.shelvingRules = w.shelvingRules
  notifyStatusChanges : w'.notifyStatusChanges = w.notifyStatusChanges
  notifySeverityThreshold : w'.notifySeverityThreshold = w.notifySeverityThreshold
  limit : w'.maxAlarmStatusChanges = w.maxAlarmStatusChanges

omit [Libyang] in
theorem SameMemory.refl (w : World) : SameMemory w w := ⟨rfl, rfl, rfl, rfl, rfl, rfl, rfl, rfl⟩

omit [Libyang] in
theorem SameMemory.slot (h : SameMemory w w') (k : InstanceKey) : w'.slot k = w.slot k :=
  World.slot_congr h.alarms h.edit k

omit [Libyang] in
theorem SameMemory.rules (h : SameMemory w w') : w'.rules = w.rules := by
  rw [World.rules, World.rules, h.shelvingRules]

theorem Inv.same (h : Inv w) (hs : SameMemory w w') : Inv w' := h.congr hs.alarms hs.edit hs.shelvingRules

/-- No call to sysrepo throws. -/
def Env.works (env : Env) : Bool :=
  !env.getDataThrows && !env.writeThrows && !env.sendNotificationThrows

/-- What a call makes of the state, apart from writing it and notifying. -/
inductive Effect (w : World) : Event → World → Prop
  | none {ev : Event} :
      (∀ o input, ev.call = .createOrUpdateAlarm o input → ev.outcome = .ok .ok → ¬ AsksChange input w) →
      (∀ changes shelving, ev.call ≠ .controlChanged changes shelving) → Effect w ev w
  | submitted {o : String} {input : AlarmInput} {env : Env} {r : Except Failure Reply} :
      Served o → Effective env input w → Fresh env input w → (env.works = true → r = .ok .ok) →
      Effect w ⟨.createOrUpdateAlarm o input, env, r⟩ (w.submitted env input)
  | submittedPartly {o : String} {input : AlarmInput} {env : Env} :
      Served o → Effective env input w → ¬ Fresh env input w →
      Effect w ⟨.createOrUpdateAlarm o input, env, .error .nodeExists⟩ (w.submittedPartly env input)
  | purged {l : Listing} {input : PurgeInput} {env : Env} {r : Except Failure Reply} (filter : AlarmFilter) :
      w.alarms.entries.countP (purges l filter) ≠ 0 → Effect w ⟨.purgeAlarms l input, env, r⟩ (w.purged l filter env.now)
  | compressed {l : Listing} {input : CompressInput} {env : Env} {r : Except Failure Reply} :
      Effect w ⟨.compressAlarms l input, env, r⟩ (w.compressed l (compressFilter input))
  | scanned {changes : List ControlChange} {shelving : ShelvingRules} {env : Env} :
      (needsReshelve changes w && env.getDataThrows) = true →
      Effect w ⟨.controlChanged changes shelving, env, .error .sysrepo⟩ (w.scanned changes)
  | controlled {changes : List ControlChange} {shelving : ShelvingRules} {env : Env} {r : Except Failure Reply} :
      (needsReshelve changes w && env.getDataThrows) = false →
      Effect w ⟨.controlChanged changes shelving, env, r⟩ (w.controlled env.now changes shelving)

omit [Libyang] in
/-- Writing changes only what has been written. -/
theorem written_cases {reply : Reply} {r : Except Failure Reply} (h : written env w reply = (r, w')) :
    (env.writeThrows = true ∧ r = .error .sysrepo ∧ w' = w) ∨
      (env.writeThrows = false ∧ r = .ok reply ∧ w' = w.published) := by
  unfold written at h
  cases hw : env.writeThrows with
  | true =>
    rw [hw] at h
    obtain ⟨rfl, rfl⟩ := Prod.mk.inj h
    exact .inl ⟨rfl, rfl, rfl⟩
  | false =>
    rw [hw] at h
    obtain ⟨rfl, rfl⟩ := Prod.mk.inj h
    exact .inr ⟨rfl, rfl, rfl⟩

omit [Libyang] in
theorem same_of_written {reply : Reply} {r : Except Failure Reply} (h : written env w reply = (r, w')) :
    SameMemory w w' := by
  rcases written_cases h with ⟨-, -, rfl⟩ | ⟨-, -, rfl⟩
  · exact .refl w'
  · exact ⟨rfl, rfl, rfl, rfl, rfl, rfl, rfl, rfl⟩

omit [Libyang] in
theorem ok_of_writtenAndNotified {α : Type} {a : α} {n : Option Notification} {r : Except Failure α}
    (h : writtenAndNotified env a w n = (r, w')) (hw : env.works = true) : r = .ok a := by
  simp only [Env.works, Bool.and_eq_true, Bool.not_eq_true'] at hw
  unfold writtenAndNotified at h
  rw [hw.1.2, hw.2] at h
  cases n <;> exact (congrArg Prod.fst h).symm

omit [Libyang] in
theorem same_of_writtenAndNotified {α : Type} {a : α} {n : Option Notification} {r : Except Failure α}
    (h : writtenAndNotified env a w n = (r, w')) : SameMemory w w' := by
  unfold writtenAndNotified at h
  split at h
  · cases h
    exact .refl w
  · split at h
    · cases h
      exact ⟨rfl, rfl, rfl, rfl, rfl, rfl, rfl, rfl⟩
    · split at h
      · cases h
        exact ⟨rfl, rfl, rfl, rfl, rfl, rfl, rfl, rfl⟩
      · cases h
        exact ⟨rfl, rfl, rfl, rfl, rfl, rfl, rfl, rfl⟩

theorem Ends.effect (h : Ends w ev w') : ∃ w₁, Effect w ev w₁ ∧ SameMemory w₁ w' := by
  cases h with
  | refused _ hr hw =>
    refine ⟨w, .none (fun _ _ _ ho => absurd ho hr) (fun _ _ hc => by cases hc), ?_⟩
    rcases hw with rfl | rfl
    · exact .refl _
    · exact ⟨rfl, rfl, rfl, rfl, rfl, rfl, rfl, rfl⟩
  | idle hn =>
    refine ⟨w, .none (fun _ _ hc _ => ?_) (fun _ _ hc => by cases hc), ⟨rfl, rfl, rfl, rfl, rfl, rfl, rfl, rfl⟩⟩
    cases hc
    exact hn
  | clash ho he hf => exact ⟨_, .submittedPartly ho he hf, .refl _⟩
  | changed ho he hf hr =>
    exact ⟨_, .submitted ho he hf (ok_of_writtenAndNotified hr), same_of_writtenAndNotified hr⟩
  | purge hr =>
    unfold purgeResult at hr
    split at hr
    · cases hr
      exact ⟨w, .none (fun _ _ hc => by cases hc) (fun _ _ hc => by cases hc), .refl _⟩
    · rename_i filter hfilter
      simp only at hr
      split at hr
      · cases hr
        exact ⟨w, .none (fun _ _ hc => by cases hc) (fun _ _ hc => by cases hc), .refl _⟩
      · rename_i hz
        exact ⟨_, .purged filter hz, same_of_written hr⟩
  | compress hr =>
    unfold compressResult at hr
    simp only at hr
    split at hr
    · cases hr
      exact ⟨w, .none (fun _ _ hc => by cases hc) (fun _ _ hc => by cases hc), .refl _⟩
    · exact ⟨_, .compressed, same_of_written hr⟩
  | control hr =>
    unfold controlResult at hr
    split at hr
    · rename_i hg
      cases hr
      exact ⟨_, .scanned hg, .refl _⟩
    · rename_i hg
      split at hr
      · exact ⟨_, .controlled (Bool.eq_false_iff.2 hg), same_of_written hr⟩
      · cases hr
        exact ⟨_, .controlled (Bool.eq_false_iff.2 hg), .refl _⟩
  | inventory hr =>
    refine ⟨w, .none (fun _ _ hc => by cases hc) (fun _ _ hc => by cases hc), ?_⟩
    unfold inventoryResult at hr
    split at hr
    · cases hr
      exact ⟨rfl, rfl, rfl, rfl, rfl, rfl, rfl, rfl⟩
    · cases hr
      exact ⟨rfl, rfl, rfl, rfl, rfl, rfl, rfl, rfl⟩

/-- The alarm of a submission that goes through, afterwards. -/
theorem lookup_submitted :
    (w.submitted env input).alarms.lookup (InstanceKey.fromNode input) = some (w.submission env input).1 :=
  AssocMap.lookup_set_self

theorem lookup_submittedPartly :
    (w.submittedPartly env input).alarms.lookup (InstanceKey.fromNode input) = some (w.submission env input).1 :=
  AssocMap.lookup_set_self

/-- An effective submission replaces its entry, however it ends. -/
theorem Ends.lookup_of_effective {o : String} {r : Except Failure Reply}
    (h : Ends w ⟨.createOrUpdateAlarm o input, env, r⟩ w') (ho : Served o)
    (he : Effective env input w) :
    w'.alarms.lookup (InstanceKey.fromNode input) = some (w.submission env input).1 := by
  cases h with
  | refused hn => exact absurd he (hn ho)
  | idle hn => exact absurd he.toAsksChange hn
  | clash => exact lookup_submittedPartly
  | changed _ _ _ hr =>
    rw [(same_of_writtenAndNotified hr).alarms]
    exact lookup_submitted

/-- Any other leaves all of them as they are. -/
theorem Ends.alarms_of_not_effective {o : String} {r : Except Failure Reply}
    (h : Ends w ⟨.createOrUpdateAlarm o input, env, r⟩ w')
    (hn : ¬ (Served o ∧ Effective env input w)) : w'.alarms = w.alarms := by
  cases h with
  | refused _ _ hw =>
    rcases hw with rfl | rfl
    · rfl
    · rfl
  | idle => rfl
  | clash ho he => exact absurd ⟨ho, he⟩ hn
  | changed ho he => exact absurd ⟨ho, he⟩ hn

theorem Ends.submitted_of_fresh {o : String} {r : Except Failure Reply}
    (h : Ends w ⟨.createOrUpdateAlarm o input, env, r⟩ w') (ho : Served o) (he : Effective env input w)
    (hf : Fresh env input w) : SameMemory (w.submitted env input) w' := by
  cases h with
  | refused hno => exact absurd he (hno ho)
  | idle hno => exact absurd he.toAsksChange hno
  | clash _ _ hno => exact absurd hf hno
  | changed _ _ _ hr => exact same_of_writtenAndNotified hr

theorem Inv.effect (h : Inv w) (he : Effect w ev w₁) : Inv w₁ := by
  cases he with
  | none => exact h
  | submitted _ he hf _ => exact h.submitted he hf
  | submittedPartly _ he hf => exact h.submittedPartly he
  | purged filter => exact h.purged _ filter _
  | compressed => exact h.compress _ _
  | scanned => exact h.scanned _
  | controlled => exact h.controlled _ _ _

/-- The invariant holds in every run, whatever the clock reads and whichever calls to sysrepo throw. -/
theorem Inv.of_run {tr : History} (h : DaemonRun b tr w) : Inv w := by
  refine h.invariant (I := fun _ w => Inv w) (fun w hs => hs.boots.inv) fun tr w ev w' _ hi hp => ?_
  obtain ⟨w₁, he, hs⟩ := (hp.ends hi).effect
  exact (hi.effect he).same hs

/-! ### Replaying -/

/-- The run of these calls, the latest first. -/
def replay (w : World) : List (Call × Env) → History × World
  | [] => ([], w)
  | (call, env) :: calls =>
    let (tr, w) := replay w calls
    let r := exec (call.run env) w
    (⟨w, ⟨call, env, r.1⟩, r.2⟩ :: tr, r.2)

def isDefined (outcome : Except Failure Reply) : Bool :=
  match outcome with
  | .ok _ => true
  | .error f => !f.isUndefined

/-- A daemon that starts and whose calls are defined has the run that replaying shows. -/
theorem daemonRun_replay (hc : ControlChange.alarmShelving ∈ b.changes)
    (hb : (exec b.construct b.world).1 = .ok ()) (calls : List (Call × Env))
    (hd : ((replay (exec b.construct b.world).2 calls).1.all fun t => isDefined t.label.outcome) = true) :
    DaemonRun b (replay (exec b.construct b.world).2 calls).1 (replay (exec b.construct b.world).2 calls).2 := by
  induction calls with
  | nil => exact .start ⟨hc, Prod.ext hb rfl⟩
  | cons call calls ih =>
    obtain ⟨hout, hd⟩ := Bool.and_eq_true_iff.1 hd
    refine .step (ih hd) ⟨rfl, fun f hf => ?_⟩
    have hf' : (exec (call.1.run call.2) (replay (exec b.construct b.world).2 calls).2).1 = .error f := hf
    have hout' : isDefined (exec (call.1.run call.2) (replay (exec b.construct b.world).2 calls).2).1 = true := hout
    rw [hf', isDefined, Bool.not_eq_true'] at hout'
    exact hout'

end

/-! ### The scenario of the tests -/

namespace AlarmsTest

scoped instance : Libyang := alarmsTest

/-- The alarm `alarm-1` of a resource. -/
def key (resource : String) : InstanceKey := ⟨⟨alarm1Name, "high"⟩, resource⟩

/-- A call at this time, with no failures. -/
def atTime (now : TimePoint) : Env := ⟨now, now, 0, false, false, false, false⟩

def alarm1Input (resource : String) (severity : SeverityWithClear) (alarmText : String) : AlarmInput :=
  ⟨resource, alarm1Name, "high", severity, alarmText⟩

def submit (resource : String) (severity : SeverityWithClear) (alarmText : String) : Call :=
  .createOrUpdateAlarm "sysrepo-ietf-alarms" (alarm1Input resource severity alarmText)

/-- The default configuration with these shelves, and an inventory with `alarm-1`. -/
def boot (shelving : ShelvingRules) : Boot where
  alarmListStart := 0
  shelfListStart := 0
  env := atTime 0
  changes := [.maxAlarmStatusChanges (some 32), .notifyStatusChanges .all, .alarmShelving]
  shelving := shelving
  inventory := [⟨alarm1Name, "high", [], []⟩]

/-- The run of these calls, the latest first, after the daemon has started. -/
def scenario (shelving : ShelvingRules) (calls : List (Call × Env)) : History × World :=
  replay (exec (boot shelving).construct (boot shelving).world).2 calls

/-- The constructor returns and every call is defined. -/
def runs (shelving : ShelvingRules) (calls : List (Call × Env)) : Bool :=
  decide ((exec (boot shelving).construct (boot shelving).world).1 = .ok ()) &&
    (scenario shelving calls).1.all fun t => isDefined t.label.outcome

theorem daemonRun_scenario {shelving : ShelvingRules} {calls : List (Call × Env)}
    (h : runs shelving calls = true) :
    DaemonRun (boot shelving) (scenario shelving calls).1 (scenario shelving calls).2 := by
  obtain ⟨hb, hd⟩ := Bool.and_eq_true_iff.1 h
  exact daemonRun_replay (by simp [boot]) (of_decide_eq_true hb) calls hd

/-- The last call of a scenario, and the run before it. -/
theorem performs_scenario {shelving : ShelvingRules} {call : Call} {env : Env} {calls : List (Call × Env)}
    (h : runs shelving ((call, env) :: calls) = true) :
    DaemonRun (boot shelving) (scenario shelving calls).1 (scenario shelving calls).2 ∧
      Performs (scenario shelving calls).2 ⟨call, env, (exec (call.run env) (scenario shelving calls).2).1⟩
        (scenario shelving ((call, env) :: calls)).2 :=
  (daemonRun_scenario h).of_suffix List.suffix_rfl

end AlarmsTest

end IetfAlarms

import IetfAlarms.CallSpec

/-!
# What a submission amounts to

A submission that is refused or finds nothing to change leaves the alarms and the tree alone. An
effective one replaces the entry and edits the alarm's node, `upsert`; it stops half way, `publishPartly`,
when the clock reads a time that the node's history has already.
-/

namespace IetfAlarms
open Program DataTree DataTree.Node
variable [Libyang] {w : World} {env : Env} {input : AlarmInput}

/-! ### The inventory -/

/-- The inventory is up to date. -/
def World.refreshed (w : World) : World := { w with
  inventory := if w.inventoryDirty then w.inventoryData.foldl emplaceInventory .empty else w.inventory
  inventoryDirty := false }

omit [Libyang] in
theorem exec_refreshInventory (env : Env) (w : World) :
    exec (refreshInventory env) w =
      if w.inventoryDirty && env.getDataThrows then (.error .sysrepo, w) else (.ok (), w.refreshed) := by
  unfold refreshInventory getData rebuildInventory World.refreshed
  rw [exec_get_bind]
  cases hd : w.inventoryDirty with
  | false =>
    obtain ⟨⟨a, b, c, d, e, f, g, h, i, j⟩, o, p, q⟩ := w
    simp only at hd
    subst hd
    rfl
  | true =>
    rw [onlyIf_pos rfl]
    cases env.getDataThrows <;> rfl

/-- The inventory has the alarm, so far as the daemon can tell. -/
def Announced (input : AlarmInput) (w : World) : Prop :=
  inventoryValidationError w.refreshed.inventory (InstanceKey.fromNode input) input.severity.value = .ok none

omit [Libyang] in
/-- A submitted severity always has a name to put into the message. -/
theorem inventoryValidationError_ok (inventory : AssocMap AlarmType InventoryData) (k : InstanceKey)
    (s : SeverityWithClear) : ∃ message, inventoryValidationError inventory k s.value = .ok message := by
  unfold inventoryValidationError
  cases inventory.lookup k.type with
  | none => exact ⟨_, rfl⟩
  | some data =>
    simp only
    split
    · exact ⟨_, rfl⟩
    · split
      · rw [severityText, severityName_value']
        exact ⟨_, rfl⟩
      · exact ⟨_, rfl⟩

/-! ### Effective submissions -/

/-- The submission asks for a change: it creates the alarm or alters its clearance, severity or text,
and does not clear an alarm that is absent or cleared. -/
structure AsksChange (input : AlarmInput) (w : World) : Prop where
  notCleared : alreadyCleared w.alarms (InstanceKey.fromNode input) input.isClearedNow = false
  changes : AlarmEntry.changes (w.alarms.lookup (InstanceKey.fromNode input)) input = true

instance (input : AlarmInput) (w : World) : Decidable (AsksChange input w) :=
  decidable_of_iff (_ ∧ _) ⟨fun h => ⟨h.1, h.2⟩, fun h => ⟨h.notCleared, h.changes⟩⟩

/-- The submission gets as far as changing its alarm. -/
structure Effective (env : Env) (input : AlarmInput) (w : World) : Prop extends AsksChange input w where
  quotable : (InstanceKey.fromNode input).Quotable
  fetched : (w.inventoryDirty && env.getDataThrows) = false
  announced : Announced input w

/-- The entry after an effective submission, and the times that drop out of its history. -/
def World.submission (env : Env) (input : AlarmInput) (w : World) : AlarmEntry × List TimePoint :=
  let k := InstanceKey.fromNode input
  (AlarmEntry.recorded (w.alarms.lookup k) env.now input (findMatchingShelf k w.rules)).shrinkStatusChanges
    w.maxAlarmStatusChanges

/-- The list that an effective submission edits. -/
def World.targetList (input : AlarmInput) (w : World) : Listing :=
  Listing.ofShelf (findMatchingShelf (InstanceKey.fromNode input) w.rules)

/-- The node that it edits there. -/
def World.target (input : AlarmInput) (w : World) : Node :=
  ((w.slot (InstanceKey.fromNode input)).node (w.targetList input)).getD Node.empty

/-- The node has no status change with this time yet. -/
def Fresh (env : Env) (input : AlarmInput) (w : World) : Prop :=
  (w.target input).child (changeStep env.now) = none

def upsertNode (e : AlarmEntry) (removed : List TimePoint) (n : Node) : Node :=
  dropChanges removed (pushChange e.publishedChange (publishLeaves e n))

def Slot.publishPartly (e : AlarmEntry) (s : Slot) : Slot :=
  (s.setEntry e).editNode (Listing.ofShelf e.shelf) (publishLeaves e)

def Slot.upsert (e : AlarmEntry) (removed : List TimePoint) (s : Slot) : Slot :=
  (s.setEntry e).editNode (Listing.ofShelf e.shelf) (upsertNode e removed)

def World.publishPartly (k : InstanceKey) (e : AlarmEntry) (w : World) : World :=
  (w.setEntry k e).editNode (Listing.ofShelf e.shelf) k (publishLeaves e)

def World.upsert (k : InstanceKey) (e : AlarmEntry) (removed : List TimePoint) (w : World) : World :=
  (w.setEntry k e).editNode (Listing.ofShelf e.shelf) k (upsertNode e removed)

/-- The state after an effective submission, not written yet. -/
def World.submitted (env : Env) (input : AlarmInput) (w : World) : World :=
  (w.refreshed.upsert (InstanceKey.fromNode input) (w.submission env input).1 (w.submission env input).2).recount

/-- The state after one that found its time taken. -/
def World.submittedPartly (env : Env) (input : AlarmInput) (w : World) : World :=
  w.refreshed.publishPartly (InstanceKey.fromNode input) (w.submission env input).1

/-- The notification of an alarm in its current state. -/
def AlarmEntry.notification (e : AlarmEntry) (k : InstanceKey) : Notification :=
  .alarm {
    resource := k.resource
    alarmTypeId := k.type.id.text
    time := yangTimeFormat e.lastChanged
    alarmText := e.text
    alarmTypeQualifier := if k.type.qualifier = "" then none else some k.type.qualifier
    perceivedSeverity := e.publishedChange.severity }

/-- An effective submission is to be notified. -/
def World.toNotify (env : Env) (input : AlarmInput) (w : World) : Bool :=
  AlarmEntry.notifies (w.alarms.lookup (InstanceKey.fromNode input)) input w.notifyStatusChanges
    (w.notifySeverityThreshold.getD env.unset)

def World.notified (notification : Notification) (w : World) : World :=
  { w with sent := notification :: w.sent }

/-- Write the tree, then notify. -/
def writtenAndNotified {α : Type} (env : Env) (a : α) (w : World) (notification : Option Notification) :
    Except Failure α × World :=
  if env.writeThrows then (.error .sysrepo, w)
  else match notification with
    | none => (.ok a, w.published)
    | some notification =>
      if env.sendNotificationThrows then (.error .sysrepo, w.published)
      else (.ok a, w.published.notified notification)

/-- What an effective submission is notified with, if it is. -/
def World.announcement (env : Env) (input : AlarmInput) (w : World) : Option Notification :=
  if w.toNotify env input then some ((w.submission env input).1.notification (InstanceKey.fromNode input)) else none

def submittedResult (env : Env) (input : AlarmInput) (w : World) : Except Failure Reply × World :=
  writtenAndNotified env Reply.ok (w.submitted env input) (w.announcement env input)

/-! ### The slot of a submission -/

theorem World.slot_upsert_self (k : InstanceKey) (e : AlarmEntry) (removed : List TimePoint) (w : World) :
    (w.upsert k e removed).slot k = (w.slot k).upsert e removed := by
  rw [upsert, slot_editNode_self, slot_setEntry_self, Slot.upsert]

theorem World.slot_upsert_of_ne {k k' : InstanceKey} (h : k' ≠ k) (e : AlarmEntry) (removed : List TimePoint)
    (w : World) : (w.upsert k e removed).slot k' = w.slot k' := by
  rw [upsert, slot_editNode_of_ne h, slot_setEntry_of_ne h]

theorem World.slot_publishPartly_self (k : InstanceKey) (e : AlarmEntry) (w : World) :
    (w.publishPartly k e).slot k = (w.slot k).publishPartly e := by
  rw [publishPartly, slot_editNode_self, slot_setEntry_self, Slot.publishPartly]

theorem World.slot_publishPartly_of_ne {k k' : InstanceKey} (h : k' ≠ k) (e : AlarmEntry) (w : World) :
    (w.publishPartly k e).slot k' = w.slot k' := by
  rw [publishPartly, slot_editNode_of_ne h, slot_setEntry_of_ne h]

theorem Mirrors.push {n : Node} {e : AlarmEntry} (c : PublishedChange) (h : Mirrors e n)
    (hc : ∃ cs, HasChanges (pushChange c n) cs) : Mirrors e (pushChange c n) :=
  h.congr (wf_pushChange h.wf c) (leaf_pushChange c n) hc rfl

theorem child_publishLeaves (e : AlarmEntry) (t : TimePoint) (n : Node) :
    (publishLeaves e n).child (changeStep t) = n.child (changeStep t) := by
  have hleaf : ∀ (a : Schema) (v : String) (n : Node), (n.setLeaf a v).child (changeStep t) = n.child (changeStep t) :=
    fun a v n => child_setLeaf_of_ne (leafStep_ne_changeStep a t).symm v n
  unfold publishLeaves listLeaf
  cases e.shelf with
  | none => simp only [hleaf]
  | some shelf => simp only [hleaf]

theorem Mirrors.upsert {n : Node} {e : AlarmEntry} {s : Severity} (hs : e.lastSeverity = s.value)
    (h : Publishable e.shelf n) (hfresh : n.child (changeStep e.lastChanged) = none) (removed : List TimePoint) :
    Mirrors e (upsertNode e removed n) := by
  obtain ⟨cs, hcs⟩ := h.changes
  have hp := Mirrors.publish hs h
  have htime : e.publishedChange.time ∉ cs.map (·.time) := fun hm => by
    have := (hcs.child_isSome_iff h.wf e.lastChanged).2 hm
    rw [hfresh] at this
    cases this
  have hpush := (hcs.publishLeaves e).pushChange hp.wf htime
  have hm := hp.push e.publishedChange ⟨_, hpush⟩
  exact hm.congr (wf_dropChanges hm.wf removed) (leaf_dropChanges removed _) ⟨_, hpush.dropChanges removed⟩ rfl

/-- The node a submission edits can take the alarm. -/
theorem SlotInv.publishable {rules : ShelvingRules} {k : InstanceKey} {s : Slot} (h : SlotInv rules k s) :
    Publishable (findMatchingShelf k rules)
      ((s.node (Listing.ofShelf (findMatchingShelf k rules))).getD Node.empty) := by
  cases he : s.entry with
  | none =>
    rw [h.absent he]
    exact Publishable.empty _
  | some e =>
    have hl := h.present e he
    obtain ⟨n, hn, hm⟩ := hl.mirrored
    rw [← hl.shelf, hn]
    exact hm.publishable

/-- An entry is stored and its node edited where the rules put it. -/
theorem SlotInv.edit {rules : ShelvingRules} {k : InstanceKey} {s : Slot} {e : AlarmEntry} {f : Node → Node}
    (h : SlotInv rules k s) (hk : k.Quotable) (hsev : ∃ s : Severity, e.lastSeverity = s.value)
    (hsh : e.shelf = findMatchingShelf k rules)
    (hf : Mirrors e (f ((s.node (Listing.ofShelf e.shelf)).getD Node.empty))) :
    SlotInv rules k ((s.setEntry e).editNode (Listing.ofShelf e.shelf) f) := by
  refine .of_listed (e := e) rfl ⟨hk, hsev, hsh, ⟨_, if_pos rfl, hf⟩, fun l hne => ?_⟩
  show (if l = Listing.ofShelf e.shelf then _ else s.node l) = none
  rw [if_neg hne]
  cases he : s.entry with
  | none => exact h.absent he l
  | some e' =>
    have hl := h.present e' he
    refine hl.alone l ?_
    rw [hl.shelf, ← hsh]
    exact hne

/-! ### The entry of a submission -/

theorem submission_eq (env : Env) (input : AlarmInput) (w : World) :
    w.submission env input =
      (let e := AlarmEntry.recorded (w.alarms.lookup (InstanceKey.fromNode input)) env.now input
        (findMatchingShelf (InstanceKey.fromNode input) w.rules)
      ({ e with statusChanges := e.statusChanges.drop (e.excess w.maxAlarmStatusChanges) },
        (e.statusChanges.take (e.excess w.maxAlarmStatusChanges)).map (·.time))) :=
  AlarmEntry.shrinkStatusChanges_eq _ _

omit [Libyang] in
/-- A clear that is not ignored finds the alarm raised. -/
theorem raised_of_clear (hc : alreadyCleared w.alarms (InstanceKey.fromNode input) input.isClearedNow = false)
    (hs : input.severity = .cleared) :
    ∃ e, w.alarms.lookup (InstanceKey.fromNode input) = some e ∧ e.isCleared = false := by
  rw [alreadyCleared, AlarmEntry.isClearedNow_eq_true hs, Bool.true_and] at hc
  cases he : w.alarms.lookup (InstanceKey.fromNode input) with
  | none =>
    rw [he] at hc
    cases hc
  | some e =>
    rw [he] at hc
    exact ⟨e, rfl, hc⟩

variable (env) in
theorem submission_shelf (h : Inv w) :
    (w.submission env input).1.shelf = findMatchingShelf (InstanceKey.fromNode input) w.rules := by
  rw [submission_eq]
  show (AlarmEntry.orFresh (w.alarms.lookup (InstanceKey.fromNode input)) env.now _).shelf = _
  cases he : w.alarms.lookup (InstanceKey.fromNode input) with
  | none => rfl
  | some e => exact ((h.slots _).present e he).shelf

variable (env) in
theorem submission_severity (h : Inv w)
    (hc : alreadyCleared w.alarms (InstanceKey.fromNode input) input.isClearedNow = false) :
    ∃ s : Severity, (w.submission env input).1.lastSeverity = s.value := by
  rw [submission_eq]
  show ∃ s : Severity, AlarmEntry.nextSeverity (AlarmEntry.orFresh _ _ _).lastSeverity input.severity = s.value
  cases hs : input.severity with
  | active s => exact ⟨s, rfl⟩
  | cleared =>
    obtain ⟨e, he, -⟩ := raised_of_clear hc hs
    rw [he]
    exact ((h.slots _).present e he).severity

theorem submission_lastChanged : (w.submission env input).1.lastChanged = env.now := by
  rw [submission_eq]
  rfl

variable (env) in
theorem target_eq (h : Inv w) :
    ((w.slot (InstanceKey.fromNode input)).node
      (Listing.ofShelf (w.submission env input).1.shelf)).getD Node.empty = w.target input := by
  rw [submission_shelf env h]
  rfl

variable (env) in
theorem target_publishable (h : Inv w) : Publishable (w.submission env input).1.shelf (w.target input) := by
  rw [submission_shelf env h]
  exact (h.slots _).publishable

/-! ### The notification -/

theorem createStatusChangeNotification_eq {e : AlarmEntry} {n : Node} {s : Severity} (hs : e.lastSeverity = s.value)
    (h : Mirrors e n) (k : InstanceKey) (l : Listing) :
    createStatusChangeNotification (k.step l.entry, n) = .ok (e.notification k) := by
  have hleaf : ∀ {a : Schema} {v : String}, a ∈ [Schema.lastChanged, .alarmText, .isCleared, .perceivedSeverity] →
      n.leaf a = some v → childValue (k.step l.entry, n) a = .ok v := fun ha hv => by
    refine childValue_leaf ?_ hv
    simp only [List.mem_cons, List.not_mem_nil, or_false] at ha
    rcases ha with rfl | rfl | rfl | rfl <;> rfl
  have hresource : childValue (k.step l.entry, n) .resource = .ok k.resource := rfl
  have htype : childValue (k.step l.entry, n) .alarmTypeId = .ok k.type.id.text := rfl
  have hqualifier : childValue (k.step l.entry, n) .alarmTypeQualifier = .ok k.type.qualifier := rfl
  have hname : severityName e.lastSeverity = some s.name := by rw [hs, severityName_value]
  have hsev := hleaf (by simp) (h.perceivedSeverity.trans hname)
  unfold createStatusChangeNotification AlarmEntry.notification AlarmEntry.publishedChange
  rw [hresource, htype, hqualifier, hleaf (by simp) h.lastChanged, hleaf (by simp) h.alarmText,
    hleaf (by simp) h.isCleared, hsev, hname]
  cases e.isCleared <;> rfl

/-! ### `updateAlarm` -/

/-- The end of `updateAlarm`, where the node is that of the entry. -/
theorem exec_writeAndNotify {e : AlarmEntry} {k : InstanceKey} {l : Listing} {n : Node} {s : Severity}
    (hs : e.lastSeverity = s.value) (hn : (w.slot k).node l = some n) (hm : Mirrors e n) (b : Bool) :
    exec (do
        writeEdit env
        onlyIf b (notifyStatusChange env (alarmPath l k))) w =
      writtenAndNotified env () w (if b then some (e.notification k) else none) := by
  unfold writtenAndNotified
  rw [exec_bind, exec_writeEdit]
  cases env.writeThrows with
  | true => rfl
  | false =>
    cases b with
    | false => rfl
    | true =>
      have hfind : w.published.edit.find (alarmPath l k) = some n := hn
      simp only [Bool.false_eq_true, if_false, onlyIf_pos, if_true]
      unfold notifyStatusChange
      rw [exec_get_bind, hfind]
      simp only
      rw [alarmPath_getLastD, createStatusChangeNotification_eq hs hm, exec_ofExcept_ok_bind, sendNotification]
      cases env.sendNotificationThrows <;> rfl

/-- What `updateAlarm` does with an entry that has changed. -/
def publishChange (env : Env) (alarmNodePath : Path) (entry : AlarmEntry) (res : WhatChanged) : DaemonM Unit := do
  onEdit (publishAlarm alarmNodePath entry)
  onEdit (updateStatusChangeList alarmNodePath entry res.removedStatusChanges)
  updateStatistics
  writeEdit env
  onlyIf res.shouldNotify (notifyStatusChange env alarmNodePath)

theorem exec_updateAlarm {x : String} (h : Inv w) (hk : (InstanceKey.fromNode input).Quotable)
    (hx : (InstanceKey.fromNode input).xpathIndex = .ok x) {e : AlarmEntry} {res : WhatChanged}
    (hupdate : ((w.alarms.lookup (InstanceKey.fromNode input)).getD .new).updateByRpc
      (w.alarms.lookup (InstanceKey.fromNode input)).isSome env.now input
      (findMatchingShelf (InstanceKey.fromNode input) w.rules) w.notifyStatusChanges w.notifySeverityThreshold
      w.maxAlarmStatusChanges env.unset = .ok (e, res)) :
    exec (updateAlarm env input (InstanceKey.fromNode input) x) w =
      exec (onlyIf res.changed
        (publishChange env (alarmPath (w.targetList input) (InstanceKey.fromNode input)) e res))
      ((w.editNode (w.targetList input) (InstanceKey.fromNode input) id).setEntry (InstanceKey.fromNode input) e) := by
  have hpath := alarmNodePath_of_xpathIndex hx (w.targetList input)
  rw [if_pos hk] at hpath
  have hload : loadedShelvingRules w = .ok w.rules := by rw [loadedShelvingRules, h.loaded]
  unfold updateAlarm shouldBeShelved
  rw [exec_get_bind, hload, exec_ofExcept_ok_bind]
  change exec (ofExcept ((w.targetList input).alarmNodePath x) >>= _) w = _
  rw [hpath, exec_ofExcept_ok_bind, exec_bind_of_ok (exec_onEdit_of_eq (exec_newPathUpdate _ _ _)), newPath_none]
  change exec (ofExcept (((w.alarms.lookup (InstanceKey.fromNode input)).getD .new).updateByRpc _ _ _ _ _ _ _ _) >>= _) _ = _
  rw [hupdate, exec_ofExcept_ok_bind]
  rfl

/-- A submission that changes nothing leaves no trace. -/
theorem exec_updateAlarm_of_not_changes {x : String} (h : Inv w) (hk : (InstanceKey.fromNode input).Quotable)
    (hx : (InstanceKey.fromNode input).xpathIndex = .ok x)
    (hc : alreadyCleared w.alarms (InstanceKey.fromNode input) input.isClearedNow = false)
    (hn : AlarmEntry.changes (w.alarms.lookup (InstanceKey.fromNode input)) input = false) :
    exec (updateAlarm env input (InstanceKey.fromNode input) x) w = (.ok (), w) := by
  cases he : w.alarms.lookup (InstanceKey.fromNode input) with
  | none =>
    rw [he] at hn
    cases hn
  | some e =>
    rw [he] at hn
    have hraised : input.severity = .cleared → e.isCleared = false := fun hs => by
      obtain ⟨e', he', hcl⟩ := raised_of_clear hc hs
      rw [he] at he'
      cases he'
      exact hcl
    obtain ⟨what, hupdate, hwhat⟩ := AlarmEntry.updateByRpc_of_not_changes env.now
      (findMatchingShelf (InstanceKey.fromNode input) w.rules) w.notifyStatusChanges w.notifySeverityThreshold
      w.maxAlarmStatusChanges env.unset hraised hn
    have hl := (h.slots _).present e he
    obtain ⟨n, hnode, -⟩ := hl.mirrored
    rw [hl.shelf] at hnode
    have hid : w.editNode (w.targetList input) (InstanceKey.fromNode input) id = w :=
      World.editNode_of_slot hnode rfl
    have hset : w.setEntry (InstanceKey.fromNode input) e = w := by
      rw [World.setEntry, AssocMap.set_of_lookup he]
    rw [exec_updateAlarm (e := e) h hk hx (by rw [he]; exact hupdate), hid, hset, hwhat]
    rfl

variable (env) in
theorem targetList_eq (h : Inv w) : w.targetList input = Listing.ofShelf (w.submission env input).1.shelf := by
  rw [submission_shelf env h]
  rfl

/-- The state in which the entry is stored and its node is there, as `publishChange` finds it. -/
theorem find_created {k : InstanceKey} {l : Listing} {e : AlarmEntry} :
    ((w.editNode l k id).setEntry k e).edit.modify (alarmPath l k) (publishLeaves e) =
      w.edit.modify (alarmPath l k) (publishLeaves e) :=
  modify_modify _ _ _ _

theorem exec_publishAlarm_created {k : InstanceKey} {e : AlarmEntry} {s : Severity} (hs : e.lastSeverity = s.value) :
    exec (onEdit (publishAlarm (alarmPath (Listing.ofShelf e.shelf) k) e))
        ((w.editNode (Listing.ofShelf e.shelf) k id).setEntry k e) = (.ok (), w.publishPartly k e) := by
  rw [exec_onEdit_of_eq (exec_publishAlarm hs _ _), find_created]
  rfl

theorem find_publishPartly (k : InstanceKey) (e : AlarmEntry) :
    find (alarmPath (Listing.ofShelf e.shelf) k) (w.publishPartly k e).edit =
      some (publishLeaves e (((w.slot k).node (Listing.ofShelf e.shelf)).getD Node.empty)) := by
  have hn : ((w.slot k).node (Listing.ofShelf e.shelf)).getD Node.empty =
      focus (alarmPath (Listing.ofShelf e.shelf) k) w.edit := (focus_eq_getD _ _).symm
  rw [hn]
  exact find_modify _ _ _

/-- A time that the node's history has already stops the publication half way. -/
theorem exec_publishChange_of_clash {k : InstanceKey} {e : AlarmEntry} {res : WhatChanged} {s : Severity}
    (hs : e.lastSeverity = s.value)
    (hc : (((w.slot k).node (Listing.ofShelf e.shelf)).getD Node.empty).child (changeStep e.lastChanged) ≠ none) :
    exec (publishChange env (alarmPath (Listing.ofShelf e.shelf) k) e res)
        ((w.editNode (Listing.ofShelf e.shelf) k id).setEntry k e) =
      (.error .nodeExists, w.publishPartly k e) := by
  rw [← child_publishLeaves e] at hc
  obtain ⟨c, hc⟩ := Option.ne_none_iff_exists'.1 hc
  have hclash : exec (updateStatusChangeList (alarmPath (Listing.ofShelf e.shelf) k) e res.removedStatusChanges)
      (w.publishPartly k e).edit = (.error .nodeExists, (w.publishPartly k e).edit) :=
    exec_updateStatusChangeList_of_some (find_publishPartly (w := w) k e) hc
  rw [publishChange, exec_bind_of_ok (exec_publishAlarm_created hs)]
  exact exec_bind_of_error (exec_onEdit_of_eq hclash) _

/-- Otherwise the publication goes through, so far as there is what it has to remove. -/
theorem exec_publishChange_of_fresh (env : Env) {k : InstanceKey} {e : AlarmEntry} (res : WhatChanged) {s : Severity}
    (hs : e.lastSeverity = s.value) (hw : Inv (w.upsert k e res.removedStatusChanges))
    (hc : (((w.slot k).node (Listing.ofShelf e.shelf)).getD Node.empty).child (changeStep e.lastChanged) = none) :
    exec (publishChange env (alarmPath (Listing.ofShelf e.shelf) k) e res)
        ((w.editNode (Listing.ofShelf e.shelf) k id).setEntry k e) =
      writtenAndNotified env () (w.upsert k e res.removedStatusChanges).recount
        (if res.shouldNotify then some (e.notification k) else none) ∨
    ∃ w', exec (publishChange env (alarmPath (Listing.ofShelf e.shelf) k) e res)
        ((w.editNode (Listing.ofShelf e.shelf) k id).setEntry k e) = (.error .emptyOptional, w') ∧
      ¬ Droppable (pushChange e.publishedChange (publishLeaves e
        (((w.slot k).node (Listing.ofShelf e.shelf)).getD Node.empty))) res.removedStatusChanges := by
  rw [← child_publishLeaves e] at hc
  have hslot : ((w.upsert k e res.removedStatusChanges).slot k).entry = some e := by
    rw [World.slot_upsert_self]
    rfl
  obtain ⟨n, hn, hm⟩ := ((hw.slots k).present e hslot).mirrored
  rw [← World.slot_recount] at hn
  have hrun : RunsTo (fun f => f = .emptyOptional ∧ ¬ Droppable (pushChange e.publishedChange (publishLeaves e
        (((w.slot k).node (Listing.ofShelf e.shelf)).getD Node.empty))) res.removedStatusChanges)
      (onEdit (updateStatusChangeList (alarmPath (Listing.ofShelf e.shelf) k) e res.removedStatusChanges))
      (w.publishPartly k e) () _ := onEdit_runsTo (updateStatusChangeList_runsTo hs (find_publishPartly k e) hc
    ((Classical.em _).symm.imp (fun hd => ⟨rfl, hd⟩) fun hd => hd))
  have hupsert : (w.publishPartly k e).withEdit ((w.publishPartly k e).edit.modify
      (alarmPath (Listing.ofShelf e.shelf) k)
      fun m => dropChanges res.removedStatusChanges (pushChange e.publishedChange m)) =
      w.upsert k e res.removedStatusChanges := by
    have := modify_modify (alarmPath (Listing.ofShelf e.shelf) k) (publishLeaves e)
      (fun m => dropChanges res.removedStatusChanges (pushChange e.publishedChange m)) w.edit
    exact congrArg (w.setEntry k e).withEdit this
  rw [hupsert] at hrun
  rw [publishChange, exec_bind_of_ok (exec_publishAlarm_created hs)]
  rcases hrun.exec_bind_cases with hex | ⟨f, w', hex, rfl, hd⟩
  · refine .inl (hex.trans ?_)
    rw [exec_bind_of_ok (exec_updateStatistics hw)]
    exact exec_writeAndNotify hs hn hm res.shouldNotify
  · exact .inr ⟨w', hex, hd⟩

/-! ### The invariant -/

theorem Inv.refreshed (h : Inv w) : Inv w.refreshed := h.congr rfl rfl rfl

/-- Storing an entry and editing its node where the rules put it keeps the invariant. -/
theorem Inv.edit {k : InstanceKey} {e : AlarmEntry} {f : Node → Node} (h : Inv w) (hk : k.Quotable)
    (hsev : ∃ s : Severity, e.lastSeverity = s.value) (hsh : e.shelf = findMatchingShelf k w.rules)
    (hwf : ∀ n, n.WF → (f n).WF)
    (hf : Mirrors e (f (((w.slot k).node (Listing.ofShelf e.shelf)).getD Node.empty))) :
    Inv ((w.setEntry k e).editNode (Listing.ofShelf e.shelf) k f) := by
  have htidy : Tidy (w.setEntry k e) := h.toTidy.congr rfl
  refine ⟨htidy.editNode _ k hwf, h.loaded, fun k' => ?_⟩
  show SlotInv w.rules k' _
  by_cases hkk : k' = k
  · subst hkk
    rw [World.slot_editNode_self, World.slot_setEntry_self]
    exact (h.slots k').edit hk hsev hsh hf
  · rw [World.slot_editNode_of_ne hkk, World.slot_setEntry_of_ne hkk]
    exact h.slots k'

theorem wf_upsertNode (e : AlarmEntry) (removed : List TimePoint) {n : Node} (h : n.WF) :
    (upsertNode e removed n).WF :=
  wf_dropChanges (wf_pushChange (wf_publishLeaves h e) _) removed

theorem Inv.upsert (h : Inv w) (he : Effective env input w) (hf : Fresh env input w) :
    Inv (w.upsert (InstanceKey.fromNode input) (w.submission env input).1 (w.submission env input).2) := by
  obtain ⟨s, hs⟩ := submission_severity env h he.notCleared
  have hm : Mirrors (w.submission env input).1
      (upsertNode (w.submission env input).1 (w.submission env input).2 (w.target input)) :=
    Mirrors.upsert hs (target_publishable env h) (by rw [submission_lastChanged]; exact hf) _
  rw [← target_eq env h] at hm
  exact h.edit he.quotable ⟨s, hs⟩ (submission_shelf env h) (fun _ hn => wf_upsertNode _ _ hn) hm

theorem Inv.submitted (h : Inv w) (he : Effective env input w) (hf : Fresh env input w) :
    Inv (w.submitted env input) :=
  Inv.recount (w := w.refreshed.upsert (InstanceKey.fromNode input) (w.submission env input).1
    (w.submission env input).2) ((h.upsert he hf).congr rfl rfl rfl)

theorem Inv.submittedPartly (h : Inv w) (he : Effective env input w) : Inv (w.submittedPartly env input) := by
  obtain ⟨s, hs⟩ := submission_severity env h he.notCleared
  have hm := Mirrors.publish hs (target_publishable env h)
  rw [← target_eq env h] at hm
  have := h.edit he.quotable ⟨s, hs⟩ (submission_shelf env h) (fun _ hn => wf_publishLeaves hn _) hm
  exact this.congr rfl rfl rfl

/-! ### `submitAlarm` -/

/-- How a submission can end. -/
inductive SubmitResult (env : Env) (input : AlarmInput) (w : World) : Except Failure Reply × World → Prop
  /-- It is turned away before the alarm is looked at. -/
  | refused {r : Except Failure Reply} {w' : World} : ¬ Effective env input w → r ≠ .ok .ok →
      (∀ f, r = .error f → f.isUndefined = false) → w' = w ∨ w' = w.refreshed → SubmitResult env input w (r, w')
  | idle : ¬ AsksChange input w → SubmitResult env input w (.ok .ok, w.refreshed)
  | clash : Effective env input w → ¬ Fresh env input w →
      SubmitResult env input w (.error .nodeExists, w.submittedPartly env input)
  | undefined {w' : World} : Effective env input w → Fresh env input w →
      ¬ Droppable (pushChange (w.submission env input).1.publishedChange
        (publishLeaves (w.submission env input).1 (w.target input))) (w.submission env input).2 →
      SubmitResult env input w (.error .emptyOptional, w')
  | changed : Effective env input w → Fresh env input w →
      SubmitResult env input w (submittedResult env input w)

theorem exec_updateAlarm_of_changes {x : String} (h : Inv w) (he : Effective env input w)
    (hx : (InstanceKey.fromNode input).xpathIndex = .ok x) :
    exec (updateAlarm env input (InstanceKey.fromNode input) x) w.refreshed =
      exec (publishChange env (alarmPath (Listing.ofShelf (w.submission env input).1.shelf)
          (InstanceKey.fromNode input)) (w.submission env input).1
          ⟨true, w.toNotify env input, (w.submission env input).2⟩)
        ((w.refreshed.editNode (Listing.ofShelf (w.submission env input).1.shelf) (InstanceKey.fromNode input)
          id).setEntry (InstanceKey.fromNode input) (w.submission env input).1) := by
  have hupdate := AlarmEntry.updateByRpc_of_changes env.now (findMatchingShelf (InstanceKey.fromNode input) w.rules)
    w.notifyStatusChanges w.notifySeverityThreshold w.maxAlarmStatusChanges env.unset
    (raised_of_clear he.notCleared) he.changes
  rw [exec_updateAlarm h.refreshed he.quotable hx hupdate, ← targetList_eq env h]
  rfl

/-- What an effective submission does once it has got to `updateAlarm`. -/
theorem updateAlarm_of_effective {x : String} (h : Inv w) (he : Effective env input w)
    (hx : (InstanceKey.fromNode input).xpathIndex = .ok x) :
    SubmitResult env input w
      (exec (do updateAlarm env input (InstanceKey.fromNode input) x; pure Reply.ok) w.refreshed) := by
  obtain ⟨s, hs⟩ := submission_severity env h he.notCleared
  have hex := exec_updateAlarm_of_changes h he hx
  have htarget : ((w.refreshed.slot (InstanceKey.fromNode input)).node
      (Listing.ofShelf (w.submission env input).1.shelf)).getD Node.empty = w.target input :=
    target_eq (w := w.refreshed) env h.refreshed
  by_cases hf : Fresh env input w
  · have hnone : (((w.refreshed.slot (InstanceKey.fromNode input)).node
        (Listing.ofShelf (w.submission env input).1.shelf)).getD Node.empty).child
        (changeStep (w.submission env input).1.lastChanged) = none := by
      rw [htarget, submission_lastChanged]
      exact hf
    have hinv : Inv (w.refreshed.upsert (InstanceKey.fromNode input) (w.submission env input).1
        (w.submission env input).2) := (h.upsert he hf).congr rfl rfl rfl
    rcases exec_publishChange_of_fresh env ⟨true, w.toNotify env input, (w.submission env input).2⟩ hs hinv hnone
      with hrun | ⟨w', hrun, hd⟩
    · have hresult : exec (do updateAlarm env input (InstanceKey.fromNode input) x; pure Reply.ok)
          w.refreshed = submittedResult env input w := by
        rw [exec_bind, hex, hrun]
        unfold submittedResult writtenAndNotified World.announcement
        cases env.writeThrows with
        | true => rfl
        | false =>
          cases w.toNotify env input with
          | false => rfl
          | true => cases env.sendNotificationThrows <;> rfl
      rw [hresult]
      exact .changed he hf
    · rw [htarget] at hd
      rw [exec_bind_of_error (hex.trans hrun)]
      exact .undefined he hf hd
  · have hsome : (((w.refreshed.slot (InstanceKey.fromNode input)).node
        (Listing.ofShelf (w.submission env input).1.shelf)).getD Node.empty).child
        (changeStep (w.submission env input).1.lastChanged) ≠ none := by
      rw [htarget, submission_lastChanged]
      exact hf
    rw [exec_bind_of_error (hex.trans (exec_publishChange_of_clash hs hsome))]
    exact .clash he hf

/-- libyang rejects the text of a key that cannot be quoted before anything is changed. -/
theorem exec_updateAlarm_of_not_quotable {x : String} (h : Inv w) (hk : ¬ (InstanceKey.fromNode input).Quotable)
    (hx : (InstanceKey.fromNode input).xpathIndex = .ok x) :
    exec (updateAlarm env input (InstanceKey.fromNode input) x) w = (.error .badPath, w) := by
  have hpath := alarmNodePath_of_xpathIndex hx (w.targetList input)
  rw [if_neg hk] at hpath
  have hload : loadedShelvingRules w = .ok w.rules := by rw [loadedShelvingRules, h.loaded]
  unfold updateAlarm shouldBeShelved
  rw [exec_get_bind, hload, exec_ofExcept_ok_bind]
  change exec (ofExcept ((w.targetList input).alarmNodePath x) >>= _) _ = _
  rw [hpath, exec_ofExcept_error_bind]

theorem SubmitResult.refused_reply {reply : Reply} {w' : World} (he : ¬ Effective env input w) (hr : reply ≠ .ok)
    (hw : w' = w ∨ w' = w.refreshed) : SubmitResult env input w (.ok reply, w') := by
  refine .refused he (fun heq => ?_) (fun f heq => ?_) hw
  · exact hr (Except.ok.inj heq)
  · cases heq

theorem SubmitResult.refused_error {f : Failure} {w' : World} (he : ¬ Effective env input w)
    (hf : f.isUndefined = false) (hw : w' = w ∨ w' = w.refreshed) : SubmitResult env input w (.error f, w') := by
  refine .refused he (fun heq => ?_) (fun f' heq => ?_) hw
  · cases heq
  · cases heq
    exact hf

theorem exec_submitAlarm (h : Inv w) : SubmitResult env input w (exec (submitAlarm env input) w) := by
  unfold submitAlarm
  cases hx : (InstanceKey.fromNode input).xpathIndex with
  | error message =>
    simp only [hx]
    refine .refused_reply (fun he => ?_) Reply.noConfusion (.inl rfl)
    obtain ⟨x, hx'⟩ := he.quotable.xpathIndex
    rw [hx] at hx'
    cases hx'
  | ok x =>
    simp only [hx]
    rw [exec_bind, exec_refreshInventory]
    cases hg : w.inventoryDirty && env.getDataThrows with
    | true =>
      refine .refused_error (fun he => ?_) rfl (.inl rfl)
      have hfetched := he.fetched
      rw [hg] at hfetched
      cases hfetched
    | false =>
      obtain ⟨message, hmessage⟩ := inventoryValidationError_ok w.refreshed.inventory
        (InstanceKey.fromNode input) input.severity
      simp only [Bool.false_eq_true, if_false]
      rw [exec_get_bind, hmessage, exec_ofExcept_ok_bind]
      cases hm : message with
      | some text =>
        refine .refused_reply (fun he => ?_) Reply.noConfusion (.inr rfl)
        have hannounced := he.announced
        rw [Announced, hmessage, hm] at hannounced
        cases hannounced
      | none =>
        have hannounced : Announced input w := hmessage.trans (congrArg _ hm)
        simp only
        cases hc : alreadyCleared w.refreshed.alarms (InstanceKey.fromNode input) input.isClearedNow with
        | true =>
          refine .idle fun he => ?_
          have hfalse : alreadyCleared w.refreshed.alarms (InstanceKey.fromNode input) input.isClearedNow = false :=
            he.notCleared
          rw [hc] at hfalse
          cases hfalse
        | false =>
          simp only [Bool.false_eq_true, if_false]
          by_cases hk : (InstanceKey.fromNode input).Quotable
          · cases hn : AlarmEntry.changes (w.alarms.lookup (InstanceKey.fromNode input)) input with
            | false =>
              rw [exec_bind_of_ok (exec_updateAlarm_of_not_changes h.refreshed hk hx hc hn)]
              refine .idle fun he => ?_
              have htrue := he.changes
              rw [hn] at htrue
              cases htrue
            | true => exact updateAlarm_of_effective h ⟨⟨hc, hn⟩, hk, hg, hannounced⟩ hx
          · rw [exec_bind_of_error (exec_updateAlarm_of_not_quotable h.refreshed hk hx)]
            exact .refused_error (fun he => hk he.quotable) rfl (.inr rfl)

/-- A submission up to where it looks at the alarms. -/
theorem exec_submitAlarm_eq {x : String} (hx : (InstanceKey.fromNode input).xpathIndex = .ok x) (w : World) :
    exec (submitAlarm env input) w =
      if w.inventoryDirty && env.getDataThrows then (.error .sysrepo, w)
      else match inventoryValidationError w.refreshed.inventory (InstanceKey.fromNode input) input.severity.value with
        | .error f => (.error f, w.refreshed)
        | .ok (some message) => (.ok (.operationFailed ⟨"application", "data-missing",
            message ++ " -- see RFC8632 (sec. 4.1)."⟩), w.refreshed)
        | .ok none =>
          if alreadyCleared w.alarms (InstanceKey.fromNode input) input.isClearedNow then (.ok .ok, w.refreshed)
          else exec (do updateAlarm env input (InstanceKey.fromNode input) x; pure Reply.ok) w.refreshed := by
  unfold submitAlarm
  simp only [hx]
  rw [exec_bind, exec_refreshInventory]
  cases hg : w.inventoryDirty && env.getDataThrows with
  | true => rfl
  | false =>
    simp only [Bool.false_eq_true, if_false]
    rw [exec_get_bind]
    cases inventoryValidationError w.refreshed.inventory (InstanceKey.fromNode input) input.severity.value with
    | error f => rfl
    | ok message =>
      rw [exec_ofExcept_ok_bind]
      cases message with
      | some message => rfl
      | none =>
        simp only
        show exec (if alreadyCleared w.alarms (InstanceKey.fromNode input) input.isClearedNow then _ else _) _ = _
        cases alreadyCleared w.alarms (InstanceKey.fromNode input) input.isClearedNow <;> rfl

/-- The RPC is answered: it does not come from one of the internal callers. -/
def Served (originatorName : String) : Prop :=
  (originatorName = "netopeer2" || originatorName = "rousette" || originatorName = "sysrepo-cli") = false

instance (originatorName : String) : Decidable (Served originatorName) := inferInstanceAs (Decidable (_ = false))

theorem exec_createOrUpdateAlarm (h : Inv w) {originatorName : String} (hs : Served originatorName) :
    SubmitResult env input w (exec (createOrUpdateAlarm env originatorName input) w) := by
  rw [createOrUpdateAlarm, if_neg (Bool.eq_false_iff.1 hs)]
  exact exec_submitAlarm h

theorem exec_createOrUpdateAlarm_of_not_served {originatorName : String} (hs : ¬ Served originatorName) (env : Env)
    (input : AlarmInput) (w : World) :
    ∃ reply, reply ≠ .ok ∧ exec (createOrUpdateAlarm env originatorName input) w = (.ok reply, w) := by
  rw [createOrUpdateAlarm, if_pos ((Bool.not_eq_false _).mp hs)]
  exact ⟨_, Reply.noConfusion, rfl⟩

end IetfAlarms

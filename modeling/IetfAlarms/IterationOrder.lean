import IetfAlarms.LastChanged

/-!
# The order of the alarms does not matter

`m_alarms` is an unordered map: its loops go over the alarms in an order that nothing promises and that may be
another one before every call. `Alike` states agree on everything but this order and the order of the entries
in the trees. A call answers alike states in the same way and leaves alike states behind, so whole runs cannot
be told apart by the orders that their loops had.
-/

namespace IetfAlarms
open Program Trace DataTree DataTree.Node

section
variable [Libyang] {b : Boot} {w w₁ w' w₁' : World} {env : Env} {input : AlarmInput} {k : InstanceKey}
variable {tr tr' : History} {ev ev' : Event} {l : Listing} {filter : AlarmFilter}

/-! ### Alike states -/

/-- The two lists have the same entries and the statistics are the same. -/
structure SameTree (n n' : Node) : Prop where
  node : ∀ l k, find (alarmPath l k) n' = find (alarmPath l k) n
  statistic : ∀ p ∈ statisticsPaths, World.statistic n' p = World.statistic n p

/-- What is left of a state without the alarms, the trees and the two time points. -/
def World.rest (w : World) : World := { w.frame with operational := .empty }

/-- The alarms are the same, in memory and in the tree, and so is all the rest but the statistics in the tree. -/
structure SameAlarms (w w' : World) : Prop where
  slot : ∀ k, w'.slot k = w.slot k
  operational : SameTree w.operational w'.operational
  listTime : ∀ l, w'.listTime l = w.listTime l
  rest : w'.rest = w.rest

/-- The states differ only in the order of the alarms and of the list entries. -/
structure Alike (w w' : World) : Prop extends SameAlarms w w' where
  statistic : ∀ p ∈ statisticsPaths, World.statistic w'.edit p = World.statistic w.edit p

omit [Libyang] in
theorem SameTree.symm {n n' : Node} (h : SameTree n n') : SameTree n' n :=
  ⟨fun l k => (h.node l k).symm, fun p hp => (h.statistic p hp).symm⟩

omit [Libyang] in
theorem SameTree.trans {n n' n'' : Node} (h : SameTree n n') (h' : SameTree n' n'') : SameTree n n'' :=
  ⟨fun l k => (h'.node l k).trans (h.node l k), fun p hp => (h'.statistic p hp).trans (h.statistic p hp)⟩

namespace Alike

omit [Libyang] in
theorem refl (w : World) : Alike w w :=
  ⟨⟨fun _ => rfl, ⟨fun _ _ => rfl, fun _ _ => rfl⟩, fun _ => rfl, rfl⟩, fun _ _ => rfl⟩

omit [Libyang] in
theorem symm (h : Alike w w') : Alike w' w :=
  ⟨⟨fun k => (h.slot k).symm, h.operational.symm, fun l => (h.listTime l).symm, h.rest.symm⟩,
    fun p hp => (h.statistic p hp).symm⟩

omit [Libyang] in
theorem trans (h : Alike w w') (h' : Alike w' w₁) : Alike w w₁ :=
  ⟨⟨fun k => (h'.slot k).trans (h.slot k), h.operational.trans h'.operational,
    fun l => (h'.listTime l).trans (h.listTime l), h'.rest.trans h.rest⟩,
    fun p hp => (h'.statistic p hp).trans (h.statistic p hp)⟩

end Alike

namespace SameAlarms

omit [Libyang] in
theorem lookup (h : SameAlarms w w') (k : InstanceKey) : w'.alarms.lookup k = w.alarms.lookup k :=
  congrArg Slot.entry (h.slot k)

omit [Libyang] in
theorem perm (h : SameAlarms w w') : w'.alarms.entries.Perm w.alarms.entries := AssocMap.perm_iff.2 h.lookup

omit [Libyang] in
theorem shelvingRules (h : SameAlarms w w') : w'.shelvingRules = w.shelvingRules := by
  have := congrArg (fun w : World => w.shelvingRules) h.rest
  exact this

omit [Libyang] in
theorem rules (h : SameAlarms w w') : w'.rules = w.rules := by rw [World.rules, World.rules, h.shelvingRules]

omit [Libyang] in
theorem settings (h : SameAlarms w w') : w'.notifyStatusChanges = w.notifyStatusChanges ∧
    w'.notifySeverityThreshold = w.notifySeverityThreshold ∧ w'.maxAlarmStatusChanges = w.maxAlarmStatusChanges := by
  have hmode := congrArg (fun w : World => w.notifyStatusChanges) h.rest
  have hthreshold := congrArg (fun w : World => w.notifySeverityThreshold) h.rest
  have hlimit := congrArg (fun w : World => w.maxAlarmStatusChanges) h.rest
  exact ⟨hmode, hthreshold, hlimit⟩

omit [Libyang] in
/-- What a loop leaves in place agrees after it as well. -/
theorem of_frame (h : SameAlarms w w') (hf : w₁.frame = w.frame) (hf' : w₁'.frame = w'.frame)
    (hslot : ∀ k, w₁'.slot k = w₁.slot k) (htime : ∀ l, w₁'.listTime l = w₁.listTime l) : SameAlarms w₁ w₁' := by
  have hoperational : w₁.operational = w.operational := by
    have := congrArg (fun w : World => w.operational) hf
    exact this
  have hoperational' : w₁'.operational = w'.operational := by
    have := congrArg (fun w : World => w.operational) hf'
    exact this
  refine ⟨hslot, ?_, htime, ?_⟩
  · rw [hoperational, hoperational']
    exact h.operational
  · have hrest := h.rest
    rw [World.rest, World.rest] at hrest ⊢
    rw [hf, hf']
    exact hrest

omit [Libyang] in
/-- So does what a fold over the alarms makes of the slots, one by one. -/
theorem slot_foldl {f : World → InstanceKey × AlarmEntry → World} {T : InstanceKey × AlarmEntry → Slot → Slot}
    (h : SameAlarms w w') (hself : ∀ w x, (f w x).slot x.1 = T x (w.slot x.1))
    (hne : ∀ w x k, k ≠ x.1 → (f w x).slot k = w.slot k) (k : InstanceKey) :
    (w'.alarms.entries.foldl f w').slot k = (w.alarms.entries.foldl f w).slot k := by
  rw [World.slot_foldl hself hne, World.slot_foldl hself hne, h.lookup, h.slot]

end SameAlarms

/-! ### Counting -/

omit [Libyang] in
theorem SameAlarms.times (h : SameAlarms w w') (l : Listing) : w'.times l = w.times l := by
  unfold World.times
  simp only [h.lookup, h.listTime]

omit [Libyang] in
theorem SameAlarms.tally (h : SameAlarms w w') (l : Listing) : w'.tally.listTime l = w.tally.listTime l := by
  have hgreatest := w'.isGreatest_tally l
  rw [h.times] at hgreatest
  exact hgreatest.unique (w.isGreatest_tally l)

/-- The loop of `updateStatistics` finds the same in any order. -/
theorem SameAlarms.tallyWrites (h : SameAlarms w w') :
    tallyWrites w'.summary w'.tally = tallyWrites w.summary w.tally := by
  have hsummary : w'.summary = w.summary := by
    funext s
    unfold World.summary countSeverity countCleared
    rw [h.perm.countP_eq, h.perm.countP_eq]
  have htotals : w'.tally.totalList = w.tally.totalList ∧ w'.tally.totalShelved = w.tally.totalShelved := by
    obtain ⟨hlist, hshelved⟩ := count_totals w.alarms.entries w.alarmListLastChanged w.shelfListLastChanged
    obtain ⟨hlist', hshelved'⟩ := count_totals w'.alarms.entries w'.alarmListLastChanged w'.shelfListLastChanged
    unfold countListed at hlist hshelved hlist' hshelved'
    rw [h.perm.countP_eq] at hlist' hshelved'
    exact ⟨hlist'.trans hlist.symm, hshelved'.trans hshelved.symm⟩
  have halarms : w'.tally.alarmListLastChanged = w.tally.alarmListLastChanged := h.tally .alarmList
  have hshelf : w'.tally.shelfListLastChanged = w.tally.shelfListLastChanged := h.tally .shelvedAlarms
  unfold IetfAlarms.tallyWrites totalWrites
  rw [hsummary, htotals.1, htotals.2, halarms, hshelf]

theorem SameAlarms.recount (h : SameAlarms w w') : Alike w.recount w'.recount := by
  have htime : ∀ (w : World) l, w.recount.listTime l = w.tally.listTime l := fun w l => by cases l <;> rfl
  refine ⟨h.of_frame (World.frame_recount w) (World.frame_recount w') (fun k => ?_) fun l => ?_, fun p hp => ?_⟩
  · rw [World.slot_recount, World.slot_recount]
    exact h.slot k
  · rw [htime, htime]
    exact h.tally l
  · rw [← tallyWrites_paths w.summary w.tally, List.mem_map] at hp
    obtain ⟨⟨p, v⟩, hw, rfl⟩ := hp
    rw [World.statistic_recount hw, World.statistic_recount (h.tallyWrites ▸ hw)]

/-! ### Writing and notifying -/

omit [Libyang] in
theorem Alike.edit (h : Alike w w') : SameTree w.edit w'.edit :=
  ⟨fun l k => congrArg (fun s : Slot => s.node l) (h.slot k), h.statistic⟩

omit [Libyang] in
theorem Alike.published (h : Alike w w') : Alike w.published w'.published :=
  ⟨⟨h.slot, h.edit, h.listTime, h.rest⟩, h.statistic⟩

omit [Libyang] in
theorem Alike.notified (h : Alike w w') (n : Notification) : Alike (w.notified n) (w'.notified n) := by
  refine ⟨⟨h.slot, h.operational, h.listTime, ?_⟩, h.statistic⟩
  have hrest := congrArg (fun w : World => { w with sent := n :: w.sent }) h.rest
  exact hrest

omit [Libyang] in
theorem Alike.written (h : Alike w w') (env : Env) (reply : Reply) :
    (written env w' reply).1 = (written env w reply).1 ∧ Alike (written env w reply).2 (written env w' reply).2 := by
  unfold IetfAlarms.written
  split
  · exact ⟨rfl, h⟩
  · exact ⟨rfl, h.published⟩

omit [Libyang] in
theorem Alike.writtenAndNotified {α : Type} (h : Alike w w') (env : Env) (a : α) (n : Option Notification) :
    (writtenAndNotified env a w' n).1 = (writtenAndNotified env a w n).1 ∧
      Alike (writtenAndNotified env a w n).2 (writtenAndNotified env a w' n).2 := by
  unfold IetfAlarms.writtenAndNotified
  split
  · exact ⟨rfl, h⟩
  · cases n with
    | none => exact ⟨rfl, h.published⟩
    | some n =>
      simp only
      split
      · exact ⟨rfl, h.published⟩
      · exact ⟨rfl, h.published.notified n⟩

/-! ### Purging and compressing -/

omit [Libyang] in
theorem listTime_foldl {f : World → InstanceKey × AlarmEntry → World}
    (hf : ∀ w x l, (f w x).listTime l = w.listTime l) (alarms : AlarmTable) (w : World)
    (l : Listing) : (alarms.foldl f w).listTime l = w.listTime l :=
  foldl_view (v := World.listTime l) fun x _ w => hf w x l

omit [Libyang] in
theorem SameAlarms.touch (h : SameAlarms w w') (l : Listing) (now : TimePoint) :
    SameAlarms (w.touch l now) (w'.touch l now) := by
  refine h.of_frame (World.frame_touch l now w) (World.frame_touch l now w') (fun k => ?_) fun l' => ?_
  · rw [World.slot_touch, World.slot_touch]
    exact h.slot k
  · have htouch : ∀ w : World, (w.touch l now).listTime l' = if l' = l then now else w.listTime l' := fun w => by
      cases l <;> cases l' <;> rfl
    rw [htouch, htouch, h.listTime]

theorem Alike.purged (h : Alike w w') (l : Listing) (filter : AlarmFilter) (now : TimePoint) :
    Alike (w.purged l filter now) (w'.purged l filter now) := by
  have htime : ∀ (w : World) x l', (w.purge l filter x).listTime l' = w.listTime l' := fun w x l' => by
    unfold World.purge
    split <;> cases l' <;> rfl
  have hframe : ∀ w : World, (w.alarms.entries.foldl (World.purge l filter) w).frame = w.frame :=
    fun w => World.frame_foldl (World.frame_purge l filter) _ w
  have hfold : SameAlarms (w.alarms.entries.foldl (World.purge l filter) w)
      (w'.alarms.entries.foldl (World.purge l filter) w') := by
    refine h.of_frame (hframe w) (hframe w')
      (h.slot_foldl (World.slot_purge_self l filter) (World.slot_purge_of_ne l filter)) fun l' => ?_
    rw [listTime_foldl htime, listTime_foldl htime, h.listTime]
  exact (hfold.touch l now).recount

theorem Alike.compressed (h : Alike w w') (l : Listing) (filter : AlarmFilter) :
    Alike (w.compressed l filter) (w'.compressed l filter) := by
  refine ⟨h.of_frame (w.compressed_frame l filter) (w'.compressed_frame l filter)
    (h.slot_foldl (World.slot_compress_self l filter) (World.slot_compress_of_ne l filter)) fun l' => ?_, fun p hp => ?_⟩
  · rw [(sameTimes_compressed l filter w').listTime, (sameTimes_compressed l filter w).listTime, h.listTime]
  · have hfind : ∀ w : World, (w.compressed l filter).edit.find p = w.edit.find p := fun w =>
      foldl_view (v := fun w : World => w.edit.find p) fun x _ w => World.find_compress hp l filter w x
    have hstatistic := h.statistic p hp
    unfold World.statistic at hstatistic ⊢
    rw [hfind, hfind, hstatistic]

/-! ### Control changes -/

theorem Alike.shrunk (h : Alike w w') : Alike w.shrunk w'.shrunk := by
  refine ⟨h.of_frame w.shrunk_frame w'.shrunk_frame (fun k => ?_) fun l' => ?_, fun p hp => ?_⟩
  · unfold World.shrunk
    rw [h.settings.2.2]
    split
    · exact h.slot k
    · exact h.slot_foldl (World.slot_trim_self _) (World.slot_trim_of_ne _) k
  · rw [(sameTimes_shrunk w').listTime, (sameTimes_shrunk w).listTime, h.listTime]
  · have hfind : ∀ w : World, w.shrunk.edit.find p = w.edit.find p := fun w => by
      unfold World.shrunk
      split
      · rfl
      · exact foldl_view (v := fun w : World => w.edit.find p) fun x _ w => World.find_trim hp _ w x
    have hstatistic := h.statistic p hp
    unfold World.statistic at hstatistic ⊢
    rw [hfind, hfind, hstatistic]

theorem Alike.reshelved (h : Alike w w') (now : TimePoint) (rules : ShelvingRules) :
    Alike (w.reshelved now rules) (w'.reshelved now rules) := by
  have hloaded : Alike { w with shelvingRules := some rules } { w' with shelvingRules := some rules } := by
    have hrest := congrArg (fun w : World => { w with shelvingRules := some rules }) h.rest
    exact ⟨⟨h.slot, h.operational, h.listTime, hrest⟩, h.statistic⟩
  have hany : w'.alarms.entries.any (reshelves rules) = w.alarms.entries.any (reshelves rules) := h.perm.any_eq
  cases hmoves : w.alarms.entries.any (reshelves rules) with
  | false =>
    rw [World.reshelved_eq_self hmoves, World.reshelved_eq_self (hany.trans hmoves)]
    exact hloaded
  | true =>
    unfold World.reshelved
    rw [hany, hmoves]
    refine SameAlarms.recount (hloaded.of_frame (World.frame_foldl (World.frame_reshelve now rules) _ _)
      (World.frame_foldl (World.frame_reshelve now rules) _ _)
      (hloaded.slot_foldl (World.slot_reshelve_self now rules) (World.slot_reshelve_of_ne now rules)) fun l => ?_)
    rw [listTime_foldl_reshelve, listTime_foldl_reshelve, h.perm.any_eq, hloaded.listTime]

omit [Libyang] in
/-- The loop over the changes does not look at the alarms. -/
theorem scanChanges_settings (changes : List ControlChange) {d d' : Daemon} (shrink : Bool)
    (hmode : d'.notifyStatusChanges = d.notifyStatusChanges)
    (hthreshold : d'.notifySeverityThreshold = d.notifySeverityThreshold)
    (hlimit : d'.maxAlarmStatusChanges = d.maxAlarmStatusChanges) :
    (scanChanges changes d' shrink).daemon = { d' with
        notifyStatusChanges := (scanChanges changes d shrink).daemon.notifyStatusChanges
        notifySeverityThreshold := (scanChanges changes d shrink).daemon.notifySeverityThreshold
        maxAlarmStatusChanges := (scanChanges changes d shrink).daemon.maxAlarmStatusChanges } ∧
      (scanChanges changes d' shrink).needsReshelve = (scanChanges changes d shrink).needsReshelve ∧
      (scanChanges changes d' shrink).needsStatusChangesShrink =
        (scanChanges changes d shrink).needsStatusChangesShrink := by
  induction changes generalizing d d' shrink with
  | nil =>
    refine ⟨?_, rfl, rfl⟩
    simp only [scanChanges, ← hmode, ← hthreshold, ← hlimit]
  | cons c changes ih =>
    cases c with
    | alarmShelving =>
      refine ⟨?_, rfl, rfl⟩
      simp only [scanChanges, ← hmode, ← hthreshold, ← hlimit]
    | notifyStatusChanges value => exact ih shrink rfl hthreshold hlimit
    | notifySeverityLevel value => exact ih shrink hmode rfl hlimit
    | maxAlarmStatusChanges value =>
      have hshrink : scanChanges (.maxAlarmStatusChanges value :: changes) d' shrink =
          scanChanges changes { d' with maxAlarmStatusChanges := value }
            (shrink || limitLowered d.maxAlarmStatusChanges value) := by
        rw [scanChanges, hlimit]
      rw [hshrink]
      exact ih _ hmode hthreshold rfl
    | other => exact ih shrink hmode hthreshold hlimit

omit [Libyang] in
theorem Alike.scanned (h : Alike w w') (changes : List ControlChange) :
    Alike (w.scanned changes) (w'.scanned changes) ∧ needsReshelve changes w' = needsReshelve changes w ∧
      needsShrink changes w' = needsShrink changes w := by
  obtain ⟨hmode, hthreshold, hlimit⟩ := h.settings
  obtain ⟨hdaemon, hreshelve, hshrink⟩ := scanChanges_settings changes false hmode hthreshold hlimit
  have hset : w'.scanned changes = { w' with
      notifyStatusChanges := (w.scanned changes).notifyStatusChanges
      notifySeverityThreshold := (w.scanned changes).notifySeverityThreshold
      maxAlarmStatusChanges := (w.scanned changes).maxAlarmStatusChanges } := by
    unfold World.scanned
    rw [hdaemon]
  refine ⟨?_, hreshelve, hshrink⟩
  rw [hset, World.scanned_eq changes w]
  have hrest := congrArg (fun v : World => { v with
    notifyStatusChanges := (w.scanned changes).notifyStatusChanges
    notifySeverityThreshold := (w.scanned changes).notifySeverityThreshold
    maxAlarmStatusChanges := (w.scanned changes).maxAlarmStatusChanges }) h.rest
  exact ⟨⟨h.slot, h.operational, h.listTime, hrest⟩, h.statistic⟩

theorem Alike.controlReshelved (h : Alike w w') (now : TimePoint) (changes : List ControlChange)
    (shelving : ShelvingRules) :
    Alike (w.controlReshelved now changes shelving) (w'.controlReshelved now changes shelving) := by
  obtain ⟨hscanned, hreshelve, -⟩ := h.scanned changes
  unfold World.controlReshelved
  rw [hreshelve]
  split
  · exact hscanned.reshelved now shelving
  · exact hscanned

theorem Alike.controlled (h : Alike w w') (now : TimePoint) (changes : List ControlChange) (shelving : ShelvingRules) :
    Alike (w.controlled now changes shelving) (w'.controlled now changes shelving) := by
  have hreshelved := h.controlReshelved now changes shelving
  unfold World.controlled
  rw [(h.scanned changes).2.2]
  split
  · exact hreshelved.shrunk
  · exact hreshelved

theorem Alike.controlChanges_eq (h : Alike w w') (now : TimePoint) (changes : List ControlChange)
    (shelving : ShelvingRules) : controlChanges now changes shelving w' = controlChanges now changes shelving w := by
  have hreshelved := h.controlReshelved now changes shelving
  unfold controlChanges World.overLimit
  rw [(h.scanned changes).2.1, (h.scanned changes).2.2, hreshelved.settings.2.2, h.perm.any_eq, hreshelved.perm.any_eq]

/-! ### Submissions -/

omit [Libyang] in
theorem Alike.inventory (h : Alike w w') : w'.inventoryDirty = w.inventoryDirty ∧ w'.inventory = w.inventory ∧
    w'.inventoryData = w.inventoryData := by
  have hdirty := congrArg (fun w : World => w.inventoryDirty) h.rest
  have hindex := congrArg (fun w : World => w.inventory) h.rest
  have hdata := congrArg (fun w : World => w.inventoryData) h.rest
  exact ⟨hdirty, hindex, hdata⟩

omit [Libyang] in
theorem Alike.refreshed (h : Alike w w') :
    Alike w.refreshed w'.refreshed ∧ w'.refreshed.inventory = w.refreshed.inventory := by
  obtain ⟨hdirty, hindex, hdata⟩ := h.inventory
  have hinventory : w'.refreshed.inventory = w.refreshed.inventory := by
    unfold World.refreshed
    rw [hdirty, hindex, hdata]
  refine ⟨⟨⟨h.slot, h.operational, h.listTime, ?_⟩, h.statistic⟩, hinventory⟩
  have hrest := congrArg (fun v : World => { v with inventory := w.refreshed.inventory, inventoryDirty := false }) h.rest
  refine Eq.trans ?_ hrest
  rw [← hinventory]
  rfl

theorem Alike.submission (h : Alike w w') (env : Env) (input : AlarmInput) :
    w'.submission env input = w.submission env input := by
  unfold World.submission
  simp only [h.lookup, h.rules, h.settings.2.2]

theorem Alike.submitted (h : Alike w w') (env : Env) (input : AlarmInput) :
    Alike (w.submitted env input) (w'.submitted env input) := by
  unfold World.submitted
  rw [h.submission]
  refine SameAlarms.recount (h.refreshed.1.of_frame rfl rfl (fun k => ?_) fun l => ?_)
  · by_cases hk : k = InstanceKey.fromNode input
    · subst hk
      rw [World.slot_upsert_self, World.slot_upsert_self, h.refreshed.1.slot]
    · rw [World.slot_upsert_of_ne hk, World.slot_upsert_of_ne hk, h.refreshed.1.slot]
  · exact (h.refreshed.1.listTime l).trans rfl

theorem Alike.submittedPartly (h : Alike w w') (env : Env) (input : AlarmInput) :
    Alike (w.submittedPartly env input) (w'.submittedPartly env input) := by
  refine ⟨h.refreshed.1.of_frame rfl rfl (fun k => ?_) fun l => ?_, fun p hp => ?_⟩
  · unfold World.submittedPartly
    rw [h.submission]
    by_cases hk : k = InstanceKey.fromNode input
    · subst hk
      rw [World.slot_publishPartly_self, World.slot_publishPartly_self, h.refreshed.1.slot]
    · rw [World.slot_publishPartly_of_ne hk, World.slot_publishPartly_of_ne hk, h.refreshed.1.slot]
  · exact h.listTime l
  · have hstatistic := h.statistic p hp
    unfold World.statistic at hstatistic ⊢
    rw [find_submittedPartly hp, find_submittedPartly hp, hstatistic]

/-- How an effective submission ends, if its behaviour is defined. -/
theorem SubmitResult.of_effective {r : Except Failure Reply} (h : SubmitResult env input w (r, w'))
    (he : Effective env input w) (hd : ∀ f, r = .error f → f.isUndefined = false) :
    (Fresh env input w ∧ (r, w') = submittedResult env input w) ∨
      (¬ Fresh env input w ∧ (r, w') = (.error .nodeExists, w.submittedPartly env input)) := by
  generalize hx : (r, w') = x at h
  cases h with
  | refused hn => exact absurd he hn
  | idle hn => exact absurd he.toAsksChange hn
  | clash _ hf => exact .inr ⟨hf, rfl⟩
  | undefined _ _ _ =>
    cases hx
    have := hd _ rfl
    cases this
  | changed _ hf => exact .inl ⟨hf, rfl⟩

omit [Libyang] in
theorem Alike.alreadyCleared_eq (h : Alike w w') (k : InstanceKey) (isClearedNow : Bool) :
    alreadyCleared w'.alarms k isClearedNow = alreadyCleared w.alarms k isClearedNow := by
  unfold alreadyCleared
  rw [h.lookup]

theorem Alike.fresh (h : Alike w w') : Fresh env input w' ↔ Fresh env input w := by
  unfold Fresh World.target World.targetList
  rw [h.slot, h.rules]

theorem Alike.effective {x : String} (h : Alike w w') (hi : Inv w) (hi' : Inv w') {r r' : Except Failure Reply}
    (he : Effective env input w) (he' : Effective env input w') (hx : (InstanceKey.fromNode input).xpathIndex = .ok x)
    (hr : exec (do updateAlarm env input (InstanceKey.fromNode input) x; pure Reply.ok) w.refreshed = (r, w₁))
    (hr' : exec (do updateAlarm env input (InstanceKey.fromNode input) x; pure Reply.ok) w'.refreshed = (r', w₁'))
    (hd : ∀ f, r = .error f → f.isUndefined = false) (hd' : ∀ f, r' = .error f → f.isUndefined = false) :
    r' = r ∧ Alike w₁ w₁' := by
  have hends := (hr ▸ updateAlarm_of_effective hi he hx).of_effective he hd
  have hends' := (hr' ▸ updateAlarm_of_effective hi' he' hx).of_effective he' hd'
  rw [h.fresh] at hends'
  rcases hends with ⟨hf, hends⟩ | ⟨hf, hends⟩
  · replace hends' := (hends'.resolve_right fun hn => hn.1 hf).2
    have hannouncement : w'.announcement env input = w.announcement env input := by
      unfold World.announcement World.toNotify
      rw [h.submission, h.lookup, h.settings.1, h.settings.2.1]
    unfold submittedResult at hends hends'
    rw [hannouncement] at hends'
    obtain ⟨houtcome, hstate⟩ := (h.submitted env input).writtenAndNotified env Reply.ok (w.announcement env input)
    rw [← hends, ← hends'] at houtcome hstate
    exact ⟨houtcome, hstate⟩
  · replace hends' := (hends'.resolve_left fun hn => hf hn.1).2
    obtain ⟨rfl, rfl⟩ := Prod.mk.inj hends
    obtain ⟨rfl, rfl⟩ := Prod.mk.inj hends'
    exact ⟨rfl, h.submittedPartly env input⟩

/-- Nor can they be told apart once the alarm is looked at. -/
theorem Alike.updateAlarm {x : String} (h : Alike w w') (hi : Inv w) (hi' : Inv w') {r r' : Except Failure Reply}
    (hx : (InstanceKey.fromNode input).xpathIndex = .ok x)
    (hc : alreadyCleared w.alarms (InstanceKey.fromNode input) input.isClearedNow = false)
    (hg : (w.inventoryDirty && env.getDataThrows) = false) (ha : Announced input w)
    (hr : exec (do updateAlarm env input (InstanceKey.fromNode input) x; pure Reply.ok) w.refreshed = (r, w₁))
    (hr' : exec (do updateAlarm env input (InstanceKey.fromNode input) x; pure Reply.ok) w'.refreshed = (r', w₁'))
    (hd : ∀ f, r = .error f → f.isUndefined = false) (hd' : ∀ f, r' = .error f → f.isUndefined = false) :
    r' = r ∧ Alike w₁ w₁' := by
  obtain ⟨hrefreshed, hinventory⟩ := h.refreshed
  have hc' : alreadyCleared w'.alarms (InstanceKey.fromNode input) input.isClearedNow = false := by
    rw [h.alreadyCleared_eq]
    exact hc
  by_cases hk : (InstanceKey.fromNode input).Quotable
  · have hchanges : AlarmEntry.changes (w'.alarms.lookup (InstanceKey.fromNode input)) input =
        AlarmEntry.changes (w.alarms.lookup (InstanceKey.fromNode input)) input := by rw [h.lookup]
    cases hn : AlarmEntry.changes (w.alarms.lookup (InstanceKey.fromNode input)) input with
    | false =>
      rw [exec_bind_of_ok (exec_updateAlarm_of_not_changes hi.refreshed hk hx hc hn)] at hr
      rw [exec_bind_of_ok (exec_updateAlarm_of_not_changes hi'.refreshed hk hx hc' (hchanges.trans hn))] at hr'
      cases hr
      cases hr'
      exact ⟨rfl, hrefreshed⟩
    | true =>
      have hg' : (w'.inventoryDirty && env.getDataThrows) = false := by
        rw [h.inventory.1]
        exact hg
      have ha' : Announced input w' := by
        rw [Announced, hinventory]
        exact ha
      exact h.effective hi hi' ⟨⟨hc, hn⟩, hk, hg, ha⟩ ⟨⟨hc', hchanges.trans hn⟩, hk, hg', ha'⟩ hx hr hr' hd hd'
  · rw [exec_bind_of_error (exec_updateAlarm_of_not_quotable hi.refreshed hk hx)] at hr
    rw [exec_bind_of_error (exec_updateAlarm_of_not_quotable hi'.refreshed hk hx)] at hr'
    cases hr
    cases hr'
    exact ⟨rfl, hrefreshed⟩

theorem Alike.submitAlarm (h : Alike w w') (hi : Inv w) (hi' : Inv w') {r r' : Except Failure Reply}
    (hr : exec (submitAlarm env input) w = (r, w₁)) (hr' : exec (submitAlarm env input) w' = (r', w₁'))
    (hd : ∀ f, r = .error f → f.isUndefined = false) (hd' : ∀ f, r' = .error f → f.isUndefined = false) :
    r' = r ∧ Alike w₁ w₁' := by
  cases hx : (InstanceKey.fromNode input).xpathIndex with
  | error message =>
    unfold IetfAlarms.submitAlarm at hr hr'
    simp only [hx] at hr hr'
    cases hr
    cases hr'
    exact ⟨rfl, h⟩
  | ok x =>
    obtain ⟨hrefreshed, hinventory⟩ := h.refreshed
    rw [exec_submitAlarm_eq hx] at hr hr'
    rw [h.inventory.1, hinventory, h.alreadyCleared_eq] at hr'
    split at hr
    · rename_i hg
      rw [if_pos hg] at hr'
      cases hr
      cases hr'
      exact ⟨rfl, h⟩
    · rename_i hg
      rw [if_neg hg] at hr'
      cases hmessage : inventoryValidationError w.refreshed.inventory (InstanceKey.fromNode input)
          input.severity.value with
      | error f =>
        rw [hmessage] at hr hr'
        cases hr
        cases hr'
        exact ⟨rfl, hrefreshed⟩
      | ok message =>
        rw [hmessage] at hr hr'
        cases message with
        | some message =>
          cases hr
          cases hr'
          exact ⟨rfl, hrefreshed⟩
        | none =>
          simp only at hr hr'
          cases hc : alreadyCleared w.alarms (InstanceKey.fromNode input) input.isClearedNow with
          | true =>
            rw [hc] at hr hr'
            cases hr
            cases hr'
            exact ⟨rfl, hrefreshed⟩
          | false =>
            rw [hc] at hr hr'
            exact h.updateAlarm hi hi' hx hc (Bool.eq_false_iff.2 hg) hmessage hr hr' hd hd'

/-! ### Calls -/

omit [Libyang] in
theorem Alike.compressCount_eq (h : Alike w w') (l : Listing) (filter : AlarmFilter) :
    compressCount l filter w' = compressCount l filter w := h.perm.countP_eq _

theorem Alike.purgeResult (h : Alike w w') (env : Env) (l : Listing) (input : PurgeInput) :
    (purgeResult env l input w').1 = (purgeResult env l input w).1 ∧
      Alike (purgeResult env l input w).2 (purgeResult env l input w').2 := by
  unfold IetfAlarms.purgeResult
  cases purgeFilter input env.filterNow with
  | error f => exact ⟨rfl, h⟩
  | ok filter =>
    simp only [h.perm.countP_eq]
    split
    · exact ⟨rfl, h⟩
    · exact (h.purged l filter env.now).written env _

theorem Alike.compressResult (h : Alike w w') (env : Env) (l : Listing) (input : CompressInput) :
    (compressResult env l input w').1 = (compressResult env l input w).1 ∧
      Alike (compressResult env l input w).2 (compressResult env l input w').2 := by
  unfold IetfAlarms.compressResult
  simp only [h.compressCount_eq]
  split
  · exact ⟨rfl, h⟩
  · exact (h.compressed l (compressFilter input)).written env _

theorem Alike.controlResult (h : Alike w w') (env : Env) (changes : List ControlChange) (shelving : ShelvingRules) :
    (controlResult env changes shelving w').1 = (controlResult env changes shelving w).1 ∧
      Alike (controlResult env changes shelving w).2 (controlResult env changes shelving w').2 := by
  obtain ⟨hscanned, hreshelve, -⟩ := h.scanned changes
  unfold IetfAlarms.controlResult
  rw [hreshelve, h.controlChanges_eq]
  split
  · exact ⟨rfl, hscanned⟩
  · split
    · exact (h.controlled env.now changes shelving).written env _
    · exact ⟨rfl, h.controlled env.now changes shelving⟩

omit [Libyang] in
theorem Alike.inventoryResult (h : Alike w w') (env : Env) (inventory : List InventoryEntry) :
    (inventoryResult env inventory w').1 = (inventoryResult env inventory w).1 ∧
      Alike (inventoryResult env inventory w).2 (inventoryResult env inventory w').2 := by
  have hrest := congrArg (fun w : World => w.withInventory inventory) h.rest
  have hchanged : Alike (w.withInventory inventory) (w'.withInventory inventory) :=
    ⟨⟨h.slot, h.operational, h.listTime, hrest⟩, h.statistic⟩
  unfold IetfAlarms.inventoryResult
  split
  · exact ⟨rfl, hchanged⟩
  · exact ⟨rfl, hchanged.notified _⟩

/-- A call cannot tell alike states apart. -/
theorem Alike.performs {call : Call} {r r' : Except Failure Reply} (h : Alike w w') (hi : Inv w) (hi' : Inv w')
    (hp : Performs w ⟨call, env, r⟩ w₁) (hp' : Performs w' ⟨call, env, r'⟩ w₁') : r' = r ∧ Alike w₁ w₁' := by
  -- for most calls what the call amounts to is written out
  have hresult : ∀ result : World → Except Failure Reply × World, result w = (r, w₁) → result w' = (r', w₁') →
      ((result w').1 = (result w).1 ∧ Alike (result w).2 (result w').2) → r' = r ∧ Alike w₁ w₁' := by
    intro result hr hr' hresult
    rw [hr, hr'] at hresult
    exact hresult
  have hends := hp.ends hi
  have hends' := hp'.ends hi'
  cases call with
  | createOrUpdateAlarm o input =>
    obtain ⟨hex, hd⟩ := hp
    obtain ⟨hex', hd'⟩ := hp'
    change exec (createOrUpdateAlarm env o input) w = (r, w₁) at hex
    change exec (createOrUpdateAlarm env o input) w' = (r', w₁') at hex'
    unfold createOrUpdateAlarm at hex hex'
    split at hex
    · rename_i ho
      rw [if_pos ho] at hex'
      cases hex
      cases hex'
      exact ⟨rfl, h⟩
    · rename_i ho
      rw [if_neg ho] at hex'
      exact h.submitAlarm hi hi' hex hex' hd hd'
  | purgeAlarms l input =>
    cases hends with
    | purge hr =>
      cases hends' with
      | purge hr' => exact hresult _ hr hr' (h.purgeResult env l input)
  | compressAlarms l input =>
    cases hends with
    | compress hr =>
      cases hends' with
      | compress hr' => exact hresult _ hr hr' (h.compressResult env l input)
  | controlChanged changes shelving =>
    cases hends with
    | control hr =>
      cases hends' with
      | control hr' => exact hresult _ hr hr' (h.controlResult env changes shelving)
  | inventoryChanged inventory =>
    cases hends with
    | inventory hr =>
      cases hends' with
      | inventory hr' => exact hresult _ hr hr' (h.inventoryResult env inventory)

/-! ### Runs -/

/-- The same state with its alarms in another order. -/
def World.Reorders (w w' : World) : Prop :=
  ∃ alarms : AssocMap InstanceKey AlarmEntry, alarms.entries.Perm w.alarms.entries ∧ w' = { w with alarms := alarms }

/-- A call that goes over the alarms in some order. -/
def PerformsInSomeOrder (w : World) (ev : Event) (w' : World) : Prop := ∃ w₀, w.Reorders w₀ ∧ Performs w₀ ev w'

/-- A run in which every call finds the alarms in an order of its own. -/
abbrev UnorderedRun (b : Boot) : History → World → Prop := Run (Started b) PerformsInSomeOrder

omit [Libyang] in
theorem World.Reorders.refl (w : World) : w.Reorders w := ⟨w.alarms, .refl _, rfl⟩

omit [Libyang] in
theorem World.Reorders.alike (h : w.Reorders w') : Alike w w' := by
  obtain ⟨alarms, hperm, rfl⟩ := h
  have hslot : ∀ k, World.slot { w with alarms := alarms } k = w.slot k := fun k => by
    unfold World.slot
    rw [← AssocMap.perm_iff.1 hperm k]
  exact ⟨⟨hslot, ⟨fun _ _ => rfl, fun _ _ => rfl⟩, fun l => by cases l <;> rfl, rfl⟩, fun _ _ => rfl⟩

theorem Inv.reorders (hi : Inv w) (h : w.Reorders w') : Inv w' := by
  have halike := h.alike
  obtain ⟨alarms, -, rfl⟩ := h
  exact ⟨hi.toTidy.congr rfl, hi.loaded, fun k => halike.slot k ▸ hi.slots k⟩

theorem DaemonRun.unordered (h : DaemonRun b tr w) : UnorderedRun b tr w := by
  induction h with
  | start hs => exact .start hs
  | step _ hp ih => exact .step ih ⟨_, .refl _, hp⟩

theorem Inv.of_unorderedRun (h : UnorderedRun b tr w) : Inv w := by
  refine h.invariant (I := fun _ w => Inv w) (fun w hs => hs.boots.inv) fun tr w ev w' _ hi hp => ?_
  obtain ⟨w₀, horder, hp⟩ := hp
  have hi₀ := hi.reorders horder
  obtain ⟨w₁, he, hs⟩ := (hp.ends hi₀).effect
  exact (hi₀.effect he).same hs

/-- What a run was asked, and what it answered. -/
def calls (tr : History) : List (Call × Env) := tr.map fun t => (t.label.call, t.label.env)

def outcomes (tr : History) : List (Except Failure Reply) := tr.map (·.label.outcome)

/-- Two runs with the same calls give the same answers and end in alike states, whatever the orders in which
their loops go over the alarms. -/
theorem alike_of_runs (h : UnorderedRun b tr w) (h' : UnorderedRun b tr' w') (hcalls : calls tr' = calls tr) :
    outcomes tr' = outcomes tr ∧ Alike w w' := by
  induction h generalizing tr' w' with
  | start hs =>
    cases h' with
    | start hs' =>
      obtain ⟨-, hex⟩ := hs
      obtain ⟨-, hex'⟩ := hs'
      rw [hex] at hex'
      cases hex'
      exact ⟨rfl, .refl _⟩
    | step => cases hcalls
  | step hr hp ih =>
    cases h' with
    | start => cases hcalls
    | step hr' hp' =>
      rename_i tr w w₁ ev tr' w' ev'
      obtain ⟨hlast, hrest⟩ := List.cons.inj hcalls
      obtain ⟨houtcomes, halike⟩ := ih hr' hrest
      obtain ⟨w₀, horder, hp⟩ := hp
      obtain ⟨w₀', horder', hp'⟩ := hp'
      obtain ⟨call, env, r⟩ := ev
      obtain ⟨call', env', r'⟩ := ev'
      obtain ⟨rfl, rfl⟩ := Prod.mk.inj hlast
      have hi := (Inv.of_unorderedRun hr).reorders horder
      have hi' := (Inv.of_unorderedRun hr').reorders horder'
      have halike₀ : Alike w₀ w₀' := (horder.alike.symm.trans halike).trans horder'.alike
      obtain ⟨houtcome, halike₁⟩ := halike₀.performs hi hi' hp hp'
      exact ⟨congrArg₂ List.cons houtcome houtcomes, halike₁⟩

end

namespace AlarmsTest

/-- Two alarms, which then go to a shelf. -/
def twoAlarmsCalls : List (Call × Env) :=
  [(submit "edfa" (.active .minor) "Getting warm.", atTime 2),
    (submit "wss" (.active .major) "Hey, I'm overheating.", atTime 1)]

def shelveAll : Call × Env := (.controlChanged [.alarmShelving] [⟨"shelf", [], []⟩], atTime 3)

/-- The same state, its alarms the other way round. -/
def reversed (w : World) : World :=
  { w with alarms := ⟨w.alarms.entries.reverse, by
      rw [List.map_reverse]
      exact List.nodup_reverse.2 w.alarms.nodup⟩ }

theorem calls_scenario (shelving : ShelvingRules) (cs : List (Call × Env)) : calls (scenario shelving cs).1 = cs := by
  unfold scenario
  induction cs with
  | nil => rfl
  | cons c cs ih => exact congrArg (List.cons c) ih

/-- The last call of a scenario goes over the alarms the other way round. -/
theorem unorderedRun_reversed {shelving : ShelvingRules} {cs : List (Call × Env)} {c : Call × Env}
    (h : DaemonRun (boot shelving) (scenario shelving cs).1 (scenario shelving cs).2)
    (hd : isDefined (exec (c.1.run c.2) (reversed (scenario shelving cs).2)).1 = true) :
    ∃ tr, UnorderedRun (boot shelving) tr (exec (c.1.run c.2) (reversed (scenario shelving cs).2)).2 ∧
      calls tr = c :: cs := by
  have hp : Performs (reversed (scenario shelving cs).2)
      ⟨c.1, c.2, (exec (c.1.run c.2) (reversed (scenario shelving cs).2)).1⟩
      (exec (c.1.run c.2) (reversed (scenario shelving cs).2)).2 := by
    refine ⟨rfl, fun f hf => ?_⟩
    have hf' : (exec (c.1.run c.2) (reversed (scenario shelving cs).2)).1 = .error f := hf
    rw [hf', isDefined, Bool.not_eq_true'] at hd
    exact hd
  exact ⟨_, h.unordered.step ⟨_, ⟨_, List.reverse_perm _, rfl⟩, hp⟩,
    congrArg (List.cons c) (calls_scenario shelving cs)⟩

theorem alike_of_runs_reversed :
    Alike (scenario [] (shelveAll :: twoAlarmsCalls)).2
      (exec (shelveAll.1.run shelveAll.2) (reversed (scenario [] twoAlarmsCalls).2)).2 := by
  have hruns : runs [] (shelveAll :: twoAlarmsCalls) = true := by decide +kernel
  obtain ⟨tr, hrun, hcalls⟩ :=
    @unorderedRun_reversed [] twoAlarmsCalls shelveAll (performs_scenario hruns).1 (by decide +kernel)
  exact (alike_of_runs (daemonRun_scenario hruns).unordered hrun (hcalls.trans (calls_scenario _ _).symm)).2

end AlarmsTest

end IetfAlarms

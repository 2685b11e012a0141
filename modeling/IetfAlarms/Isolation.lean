import IetfAlarms.Lib.Noninterference
import IetfAlarms.Compressing
import IetfAlarms.IterationOrder
import IetfAlarms.Subscriber
import IetfAlarms.Validation

/-!
# Other alarms make no difference

What the daemon has of an alarm, in memory and in the tree, and what it has sent about it, depends on the calls
that concern the alarm: its own submissions, and the operations on all alarms. The submissions of other alarms may
come in any number and at any place between them. What they do share is the reading of the inventory, so in the
runs here `getData` works.
-/

namespace IetfAlarms
open Program Trace

section
variable [Libyang] {b : Boot} {tr tr₁ tr₂ : History} {w w' w₁ w₂ w₁' w₂' : World} {ev : Event} {k : InstanceKey}
variable {env : Env} {o : String} {input : AlarmInput} {r r₁ r₂ : Except Failure Reply}

/-! ### What an alarm depends on -/

def World.settings (w : World) : Option ShelvingRules × NotifyStatusChanges × Option Int × Option UInt16 :=
  (w.shelvingRules, w.notifyStatusChanges, w.notifySeverityThreshold, w.maxAlarmStatusChanges)

/-- The settings and the inventory are the same, and so are the notifications about this alarm. -/
structure SameAround (k : InstanceKey) (w w' : World) : Prop where
  settings : w'.settings = w.settings
  inventory : w'.refreshed.inventory = w.refreshed.inventory
  notices : w'.sent.filterMap (noticeFor k) = w.sent.filterMap (noticeFor k)

/-- The states are the same as far as this alarm goes. -/
structure SameFor (k : InstanceKey) (w w' : World) : Prop extends SameAround k w w' where
  slot : w'.slot k = w.slot k

omit [Libyang] in
theorem SameAround.trans {w'' : World} (h : SameAround k w w') (h' : SameAround k w' w'') : SameAround k w w'' :=
  ⟨h'.settings.trans h.settings, h'.inventory.trans h.inventory, h'.notices.trans h.notices⟩

omit [Libyang] in
theorem SameAround.symm (h : SameAround k w w') : SameAround k w' w :=
  ⟨h.settings.symm, h.inventory.symm, h.notices.symm⟩

omit [Libyang] in
theorem sameFor_equivalence (k : InstanceKey) : Equivalence (SameFor k) :=
  ⟨fun _ => ⟨⟨rfl, rfl, rfl⟩, rfl⟩, fun h => ⟨h.toSameAround.symm, h.slot.symm⟩,
    fun h h' => ⟨h.toSameAround.trans h'.toSameAround, h'.slot.trans h.slot⟩⟩

namespace SameFor

omit [Libyang] in
theorem lookup (h : SameFor k w w') : w'.alarms.lookup k = w.alarms.lookup k := congrArg Slot.entry h.slot

omit [Libyang] in
theorem shelvingRules (h : SameFor k w w') : w'.shelvingRules = w.shelvingRules := congrArg (·.1) h.settings

omit [Libyang] in
theorem rules (h : SameFor k w w') : w'.rules = w.rules := congrArg (·.getD []) h.shelvingRules

omit [Libyang] in
theorem limit (h : SameFor k w w') : w'.maxAlarmStatusChanges = w.maxAlarmStatusChanges := congrArg (·.2.2.2) h.settings

end SameFor

/-! ### Calls that leave the surroundings alone -/

omit [Libyang] in
theorem sameAround_of_frame (h : w'.frame = w.frame) (k : InstanceKey) : SameAround k w w' := by
  have hsettings : w'.frame.settings = w.frame.settings := congrArg World.settings h
  have hinventory : w'.frame.refreshed.inventory = w.frame.refreshed.inventory := by rw [h]
  have hsent : w'.frame.sent = w.frame.sent := by rw [h]
  exact ⟨hsettings, hinventory, congrArg (List.filterMap (noticeFor k)) hsent⟩

omit [Libyang] in
theorem sameAround_of_written {w₀ : World} {reply : Reply} (hr : written env w₀ reply = (r, w'))
    (h : SameAround k w w₀) : SameAround k w w' := by
  rcases written_cases hr with ⟨-, -, rfl⟩ | ⟨-, -, rfl⟩
  · exact h
  · exact h.trans ⟨rfl, rfl, rfl⟩

theorem Ends.sameAround_of_purge {l : Listing} {input : PurgeInput} (h : Ends w ⟨.purgeAlarms l input, env, r⟩ w')
    (k : InstanceKey) : SameAround k w w' := by
  cases h with
  | purge hr =>
    unfold purgeResult at hr
    split at hr
    · cases hr
      exact ⟨rfl, rfl, rfl⟩
    · rename_i filter _
      simp only at hr
      split at hr
      · cases hr
        exact ⟨rfl, rfl, rfl⟩
      · exact sameAround_of_written hr (sameAround_of_frame (w.purged_frame l filter env.now) k)

theorem Ends.sameAround_of_compress {l : Listing} {input : CompressInput}
    (h : Ends w ⟨.compressAlarms l input, env, r⟩ w') (k : InstanceKey) : SameAround k w w' := by
  cases h with
  | compress hr =>
    unfold compressResult at hr
    simp only at hr
    split at hr
    · cases hr
      exact ⟨rfl, rfl, rfl⟩
    · exact sameAround_of_written hr (sameAround_of_frame (w.compressed_frame l (compressFilter input)) k)

/-- A submission notifies of its own alarm only. -/
theorem Ends.notices_of_other (h : Ends w ⟨.createOrUpdateAlarm o input, env, r⟩ w') (hk : InstanceKey.fromNode input ≠ k) :
    w'.sent.filterMap (noticeFor k) = w.sent.filterMap (noticeFor k) := by
  rcases h.sent with ⟨-, hsent⟩ | ⟨-, hsent⟩
  · rw [hsent]
    refine List.filterMap_cons_none (if_neg fun hfor => hk ?_)
    exact (AlarmEntry.notice_isFor _ (w.submission env input).1).unique hfor
  · rw [hsent]

theorem Ends.notices_of_own (h : Ends w ⟨.createOrUpdateAlarm o input, env, r⟩ w') (hk : InstanceKey.fromNode input = k) :
    (Delivers o env input w ∧
        w'.sent.filterMap (noticeFor k) = (w.submission env input).1.notice k :: w.sent.filterMap (noticeFor k)) ∨
      (¬ Delivers o env input w ∧ w'.sent.filterMap (noticeFor k) = w.sent.filterMap (noticeFor k)) := by
  subst hk
  rcases h.sent with ⟨hd, hsent⟩ | ⟨hd, hsent⟩
  · refine .inl ⟨hd, ?_⟩
    rw [hsent]
    exact List.filterMap_cons_some (if_pos (AlarmEntry.notice_isFor _ _))
  · exact .inr ⟨hd, by rw [hsent]⟩

/-! ### Submissions -/

omit [Libyang] in
theorem SameMemory.settings (h : SameMemory w w') : w'.settings = w.settings := by
  unfold World.settings
  rw [h.shelvingRules, h.notifyStatusChanges, h.notifySeverityThreshold, h.limit]

theorem Ends.settings_of_submission (h : Ends w ⟨.createOrUpdateAlarm o input, env, r⟩ w') :
    w'.settings = w.settings := by
  cases h with
  | refused _ _ hw =>
    rcases hw with rfl | rfl
    · rfl
    · rfl
  | idle => rfl
  | clash => rfl
  | changed _ _ _ hr => exact (same_of_writtenAndNotified hr).settings

theorem Ends.inventory_of_submission (h : Ends w ⟨.createOrUpdateAlarm o input, env, r⟩ w') :
    w'.refreshed.inventory = w.refreshed.inventory := by
  have hsame : ∀ {w₁ w₂ : World}, SameInventory w₁ w₂ → w₂.refreshed.inventory = w₁.refreshed.inventory := by
    intro w₁ w₂ hs
    unfold World.refreshed
    rw [hs.inventoryDirty, hs.inventoryData, hs.inventory]
  rcases h.sameInventory with hs | hs
  · exact hsame hs
  · exact (hsame hs).trans rfl

/-- What a submission does to the slot of its alarm. -/
theorem Ends.slot_of_submission (h : Ends w ⟨.createOrUpdateAlarm o input, env, r⟩ w') :
    (Served o ∧ Effective env input w ∧ Fresh env input w ∧ w'.slot (InstanceKey.fromNode input) =
        (w.slot (InstanceKey.fromNode input)).upsert (w.submission env input).1 (w.submission env input).2) ∨
      (Served o ∧ Effective env input w ∧ ¬ Fresh env input w ∧ w'.slot (InstanceKey.fromNode input) =
        (w.slot (InstanceKey.fromNode input)).publishPartly (w.submission env input).1) ∨
      (¬ (Served o ∧ Effective env input w) ∧
        w'.slot (InstanceKey.fromNode input) = w.slot (InstanceKey.fromNode input)) := by
  cases h with
  | refused hn _ hw =>
    refine .inr (.inr ⟨fun h => hn h.1 h.2, ?_⟩)
    rcases hw with rfl | rfl
    · rfl
    · rfl
  | idle hn => exact .inr (.inr ⟨fun h => hn h.2.toAsksChange, rfl⟩)
  | clash ho he hf =>
    refine .inr (.inl ⟨ho, he, hf, ?_⟩)
    rw [World.submittedPartly, World.slot_publishPartly_self]
    rfl
  | changed ho he hf hr =>
    refine .inl ⟨ho, he, hf, ?_⟩
    rw [(same_of_writtenAndNotified hr).slot, World.submitted, World.slot_recount, World.slot_upsert_self]
    rfl

theorem Ends.slot_of_other (h : Ends w ⟨.createOrUpdateAlarm o input, env, r⟩ w') (hk : InstanceKey.fromNode input ≠ k) :
    w'.slot k = w.slot k := by
  cases h with
  | refused _ _ hw =>
    rcases hw with rfl | rfl
    · rfl
    · rfl
  | idle => rfl
  | clash =>
    rw [World.submittedPartly, World.slot_publishPartly_of_ne hk.symm]
    rfl
  | changed _ _ _ hr => rw [(same_of_writtenAndNotified hr).slot, slot_submitted_of_ne hk.symm]

/-- A submission of another alarm. -/
theorem Ends.sameFor_of_other (h : Ends w ⟨.createOrUpdateAlarm o input, env, r⟩ w')
    (hk : InstanceKey.fromNode input ≠ k) : SameFor k w w' :=
  ⟨⟨h.settings_of_submission, h.inventory_of_submission, h.notices_of_other hk⟩, h.slot_of_other hk⟩

namespace SameFor

theorem submission (h : SameFor (InstanceKey.fromNode input) w₁ w₂) (env : Env) :
    w₂.submission env input = w₁.submission env input := by
  unfold World.submission
  simp only [h.lookup, h.rules, h.limit]

omit [Libyang] in
theorem asksChange (h : SameFor (InstanceKey.fromNode input) w₁ w₂) : AsksChange input w₂ ↔ AsksChange input w₁ := by
  have hcleared : alreadyCleared w₂.alarms (InstanceKey.fromNode input) input.isClearedNow =
      alreadyCleared w₁.alarms (InstanceKey.fromNode input) input.isClearedNow := by
    unfold alreadyCleared
    rw [h.lookup]
  constructor
  · exact fun ha => ⟨hcleared ▸ ha.notCleared, h.lookup ▸ ha.changes⟩
  · exact fun ha => ⟨hcleared.trans ha.notCleared, by rw [h.lookup]; exact ha.changes⟩

omit [Libyang] in
theorem effective (h : SameFor (InstanceKey.fromNode input) w₁ w₂) (hreads : env.getDataThrows = false) :
    Effective env input w₂ ↔ Effective env input w₁ := by
  have hannounced : Announced input w₂ ↔ Announced input w₁ := by rw [Announced, Announced, h.inventory]
  have hfetched : ∀ w : World, (w.inventoryDirty && env.getDataThrows) = false := fun w => by
    rw [hreads, Bool.and_false]
  constructor
  · exact fun he => ⟨h.asksChange.1 he.toAsksChange, he.quotable, hfetched w₁, hannounced.1 he.announced⟩
  · exact fun he => ⟨h.asksChange.2 he.toAsksChange, he.quotable, hfetched w₂, hannounced.2 he.announced⟩

theorem fresh (h : SameFor (InstanceKey.fromNode input) w₁ w₂) : Fresh env input w₂ ↔ Fresh env input w₁ := by
  unfold Fresh World.target World.targetList
  rw [h.slot, h.rules]

theorem delivers (h : SameFor (InstanceKey.fromNode input) w₁ w₂) (hreads : env.getDataThrows = false) :
    Delivers o env input w₂ ↔ Delivers o env input w₁ := by
  have hmode : w₂.notifyStatusChanges = w₁.notifyStatusChanges := congrArg (·.2.1) h.settings
  have hthreshold : w₂.notifySeverityThreshold = w₁.notifySeverityThreshold := congrArg (·.2.2.1) h.settings
  have hnotify : w₂.toNotify env input = w₁.toNotify env input := by
    unfold World.toNotify
    rw [h.lookup, hmode, hthreshold]
  constructor
  · intro hd
    exact ⟨(h.effective hreads).1 hd.toEffective, ⟨h.fresh.1 hd.fresh, hd.writes, hd.sends⟩, hd.served,
      hnotify ▸ hd.notifies⟩
  · intro hd
    exact ⟨(h.effective hreads).2 hd.toEffective, ⟨h.fresh.2 hd.fresh, hd.writes, hd.sends⟩, hd.served,
      hnotify.trans hd.notifies⟩

/-- The same submission of the alarm, from states that are the same for it. -/
theorem submit (h : SameFor k w₁ w₂) (hk : InstanceKey.fromNode input = k) (hreads : env.getDataThrows = false)
    (h₁ : Ends w₁ ⟨.createOrUpdateAlarm o input, env, r₁⟩ w₁') (h₂ : Ends w₂ ⟨.createOrUpdateAlarm o input, env, r₂⟩ w₂') :
    SameFor k w₁' w₂' := by
  subst hk
  have hsettings : w₂'.settings = w₁'.settings :=
    h₂.settings_of_submission.trans (h.settings.trans h₁.settings_of_submission.symm)
  have hinventory : w₂'.refreshed.inventory = w₁'.refreshed.inventory :=
    h₂.inventory_of_submission.trans (h.inventory.trans h₁.inventory_of_submission.symm)
  refine ⟨⟨hsettings, hinventory, ?_⟩, ?_⟩
  · rcases h₁.notices_of_own rfl with ⟨hd, hn⟩ | ⟨hd, hn⟩
    · rcases h₂.notices_of_own rfl with ⟨-, hn'⟩ | ⟨hd', -⟩
      · rw [hn, hn', h.submission, h.notices]
      · exact absurd ((h.delivers hreads).2 hd) hd'
    · rcases h₂.notices_of_own rfl with ⟨hd', -⟩ | ⟨-, hn'⟩
      · exact absurd ((h.delivers hreads).1 hd') hd
      · rw [hn, hn', h.notices]
  · have heffective : Effective env input w₂ ↔ Effective env input w₁ := h.effective hreads
    rcases h₁.slot_of_submission with ⟨ho, he, hf, hs⟩ | ⟨ho, he, hf, hs⟩ | ⟨hn, hs⟩
    · rcases h₂.slot_of_submission with ⟨-, -, -, hs'⟩ | ⟨-, -, hf', -⟩ | ⟨hn', -⟩
      · rw [hs, hs', h.submission, h.slot]
      · exact absurd (h.fresh.2 hf) hf'
      · exact absurd ⟨ho, heffective.2 he⟩ hn'
    · rcases h₂.slot_of_submission with ⟨-, -, hf', -⟩ | ⟨-, -, -, hs'⟩ | ⟨hn', -⟩
      · exact absurd (h.fresh.1 hf') hf
      · rw [hs, hs', h.submission, h.slot]
      · exact absurd ⟨ho, heffective.2 he⟩ hn'
    · rcases h₂.slot_of_submission with ⟨ho', he', -, -⟩ | ⟨ho', he', -, -⟩ | ⟨-, hs'⟩
      · exact absurd ⟨ho', heffective.1 he'⟩ hn
      · exact absurd ⟨ho', heffective.1 he'⟩ hn
      · rw [hs, hs', h.slot]

end SameFor

/-! ### Operations on all alarms -/

/-- One round of a loop over the alarms, if the alarm is there. -/
def Slot.round (T : InstanceKey × AlarmEntry → Slot → Slot) (k : InstanceKey) (s : Slot) : Slot :=
  s.entry.elim s fun e => T (k, e) s

omit [Libyang] in
theorem slot_foldl_round {f : World → InstanceKey × AlarmEntry → World} {T : InstanceKey × AlarmEntry → Slot → Slot}
    (hself : ∀ w x, (f w x).slot x.1 = T x (w.slot x.1)) (hne : ∀ w x k, k ≠ x.1 → (f w x).slot k = w.slot k)
    (w : World) (k : InstanceKey) : (w.alarms.entries.foldl f w).slot k = (w.slot k).round T k := by
  rw [World.slot_foldl hself hne]
  show _ = (w.alarms.lookup k).elim (w.slot k) fun e => T (k, e) (w.slot k)
  cases w.alarms.lookup k with
  | none => rfl
  | some e => rfl

theorem Ends.slot_of_purge {l : Listing} {input : PurgeInput} {filter : AlarmFilter} (hi : Inv w)
    (h : Ends w ⟨.purgeAlarms l input, env, r⟩ w') (hfilter : purgeFilter input env.filterNow = .ok filter)
    (k : InstanceKey) : w'.slot k = (w.slot k).round (Slot.purge l filter) k := by
  cases h with
  | purge hr =>
    rw [← slot_foldl_round (World.slot_purge_self l filter) (World.slot_purge_of_ne l filter),
      World.slot_foldl (World.slot_purge_self l filter) (World.slot_purge_of_ne l filter)]
    exact IetfAlarms.slot_of_purge hi hfilter ((exec_purgeAlarms hi l input).trans hr) k

theorem Ends.slot_of_invalid_purge {l : Listing} {input : PurgeInput} {f : Failure}
    (h : Ends w ⟨.purgeAlarms l input, env, r⟩ w') (hfilter : purgeFilter input env.filterNow = .error f)
    (k : InstanceKey) : w'.slot k = w.slot k := by
  cases h with
  | purge hr =>
    rw [purgeResult, hfilter] at hr
    cases hr
    rfl

theorem Ends.slot_of_compress {l : Listing} {input : CompressInput} (hi : Inv w)
    (h : Ends w ⟨.compressAlarms l input, env, r⟩ w') (k : InstanceKey) :
    w'.slot k = (w.slot k).round (Slot.compress l (compressFilter input)) k := by
  have hcompressed : (w.compressed l (compressFilter input)).slot k =
      (w.slot k).round (Slot.compress l (compressFilter input)) k :=
    slot_foldl_round (World.slot_compress_self l _) (World.slot_compress_of_ne l _) w k
  cases h with
  | compress hr =>
    unfold compressResult at hr
    simp only at hr
    split at hr
    · rename_i hz
      cases hr
      rw [← hcompressed, World.compressed_eq_self hi hz]
    · rw [(same_of_written hr).slot, hcompressed]

theorem slot_shrunk (w : World) (k : InstanceKey) :
    w.shrunk.slot k =
      if w.maxAlarmStatusChanges.isNone then w.slot k
      else (w.slot k).round (Slot.trim w.maxAlarmStatusChanges) k := by
  unfold World.shrunk
  split
  · rfl
  · exact slot_foldl_round (World.slot_trim_self _) (World.slot_trim_of_ne _) w k

theorem slot_reshelved_round (now : TimePoint) (rules : ShelvingRules) (w : World) (k : InstanceKey) :
    (w.reshelved now rules).slot k = (w.slot k).round (Slot.reshelve now rules) k := by
  have hfold := slot_foldl_round (World.slot_reshelve_self now rules) (World.slot_reshelve_of_ne now rules)
    { w with shelvingRules := some rules } k
  unfold World.reshelved
  split
  · rw [World.slot_recount]
    exact hfold
  · exact hfold

namespace SameFor

theorem purge {l : Listing} {input : PurgeInput} (h : SameFor k w₁ w₂) (hi₁ : Inv w₁) (hi₂ : Inv w₂)
    (h₁ : Ends w₁ ⟨.purgeAlarms l input, env, r₁⟩ w₁') (h₂ : Ends w₂ ⟨.purgeAlarms l input, env, r₂⟩ w₂') :
    SameFor k w₁' w₂' := by
  refine ⟨(h₁.sameAround_of_purge k).symm.trans (h.toSameAround.trans (h₂.sameAround_of_purge k)), ?_⟩
  cases hfilter : purgeFilter input env.filterNow with
  | error f => rw [h₁.slot_of_invalid_purge hfilter, h₂.slot_of_invalid_purge hfilter, h.slot]
  | ok filter => rw [h₁.slot_of_purge hi₁ hfilter, h₂.slot_of_purge hi₂ hfilter, h.slot]

theorem compress {l : Listing} {input : CompressInput} (h : SameFor k w₁ w₂) (hi₁ : Inv w₁) (hi₂ : Inv w₂)
    (h₁ : Ends w₁ ⟨.compressAlarms l input, env, r₁⟩ w₁') (h₂ : Ends w₂ ⟨.compressAlarms l input, env, r₂⟩ w₂') :
    SameFor k w₁' w₂' := by
  refine ⟨(h₁.sameAround_of_compress k).symm.trans (h.toSameAround.trans (h₂.sameAround_of_compress k)), ?_⟩
  rw [h₁.slot_of_compress hi₁, h₂.slot_of_compress hi₂, h.slot]

omit [Libyang] in
theorem scanned (h : SameFor k w₁ w₂) (changes : List ControlChange) :
    SameFor k (w₁.scanned changes) (w₂.scanned changes) ∧ needsReshelve changes w₂ = needsReshelve changes w₁ ∧
      needsShrink changes w₂ = needsShrink changes w₁ := by
  obtain ⟨hdaemon, hreshelve, hshrink⟩ := scanChanges_settings changes false
    (show w₂.toDaemon.notifyStatusChanges = w₁.toDaemon.notifyStatusChanges from congrArg (·.2.1) h.settings)
    (congrArg (·.2.2.1) h.settings) (congrArg (·.2.2.2) h.settings)
  have hset : w₂.scanned changes = { w₂ with
      notifyStatusChanges := (w₁.scanned changes).notifyStatusChanges
      notifySeverityThreshold := (w₁.scanned changes).notifySeverityThreshold
      maxAlarmStatusChanges := (w₁.scanned changes).maxAlarmStatusChanges } := by
    unfold World.scanned
    rw [hdaemon]
  refine ⟨?_, hreshelve, hshrink⟩
  rw [hset, World.scanned_eq changes w₁]
  exact ⟨⟨congrArg (fun rules => (rules, _, _, _)) h.shelvingRules, h.inventory, h.notices⟩, h.slot⟩

theorem reshelved (h : SameFor k w₁ w₂) (now : TimePoint) (rules : ShelvingRules) :
    SameFor k (w₁.reshelved now rules) (w₂.reshelved now rules) := by
  have haround : ∀ w : World, SameAround k { w with shelvingRules := some rules } (w.reshelved now rules) := fun w =>
    sameAround_of_frame (World.reshelved_frame now rules w) k
  have hloaded : SameAround k { w₁ with shelvingRules := some rules } { w₂ with shelvingRules := some rules } :=
    ⟨congrArg (fun x => (some rules, x.2)) h.settings, h.inventory, h.notices⟩
  refine ⟨(haround w₁).symm.trans (hloaded.trans (haround w₂)), ?_⟩
  rw [slot_reshelved_round, slot_reshelved_round, h.slot]

theorem controlled (h : SameFor k w₁ w₂) (now : TimePoint) (changes : List ControlChange) (shelving : ShelvingRules) :
    SameFor k (w₁.controlled now changes shelving) (w₂.controlled now changes shelving) := by
  obtain ⟨hscanned, hreshelve, hshrink⟩ := h.scanned changes
  have hreshelved : SameFor k (w₁.controlReshelved now changes shelving) (w₂.controlReshelved now changes shelving) := by
    unfold World.controlReshelved
    rw [hreshelve]
    split
    · exact hscanned.reshelved now shelving
    · exact hscanned
  unfold World.controlled
  rw [hshrink]
  split
  · refine ⟨?_, ?_⟩
    · have haround : ∀ w : World, SameAround k w w.shrunk := fun w => sameAround_of_frame w.shrunk_frame k
      exact (haround _).symm.trans (hreshelved.toSameAround.trans (haround _))
    · rw [slot_shrunk, slot_shrunk, hreshelved.slot, hreshelved.limit]
  · exact hreshelved

omit [Libyang] in
theorem of_written {w₀ : World} {reply : Reply} (hr : written env w₀ reply = (r, w')) : SameFor k w₀ w' :=
  ⟨sameAround_of_written hr ⟨rfl, rfl, rfl⟩, (same_of_written hr).slot k⟩

/-- What a control change leaves an alarm with does not depend on whether it is written. -/
theorem of_control {changes : List ControlChange} {shelving : ShelvingRules}
    (h : Ends w ⟨.controlChanged changes shelving, env, r⟩ w') :
    SameFor k (if needsReshelve changes w && env.getDataThrows then w.scanned changes
      else w.controlled env.now changes shelving) w' := by
  cases h with
  | control hr =>
    unfold controlResult at hr
    split at hr
    · rename_i hg
      rw [if_pos hg]
      cases hr
      exact (sameFor_equivalence k).refl _
    · rename_i hg
      rw [if_neg hg]
      split at hr
      · exact of_written hr
      · cases hr
        exact (sameFor_equivalence k).refl _

theorem control {changes : List ControlChange} {shelving : ShelvingRules} (h : SameFor k w₁ w₂)
    (h₁ : Ends w₁ ⟨.controlChanged changes shelving, env, r₁⟩ w₁')
    (h₂ : Ends w₂ ⟨.controlChanged changes shelving, env, r₂⟩ w₂') : SameFor k w₁' w₂' := by
  obtain ⟨hscanned, hreshelve, -⟩ := h.scanned changes
  have hmiddle : SameFor k
      (if needsReshelve changes w₁ && env.getDataThrows then w₁.scanned changes
        else w₁.controlled env.now changes shelving)
      (if needsReshelve changes w₂ && env.getDataThrows then w₂.scanned changes
        else w₂.controlled env.now changes shelving) := by
    rw [hreshelve]
    split
    · exact hscanned
    · exact h.controlled env.now changes shelving
  exact (sameFor_equivalence k).trans ((sameFor_equivalence k).symm (of_control h₁))
    ((sameFor_equivalence k).trans hmiddle (of_control h₂))

theorem announce {inventory : List InventoryEntry} (h : SameFor k w₁ w₂)
    (h₁ : Ends w₁ ⟨.inventoryChanged inventory, env, r₁⟩ w₁') (h₂ : Ends w₂ ⟨.inventoryChanged inventory, env, r₂⟩ w₂') :
    SameFor k w₁' w₂' := by
  have hafter : ∀ {w w' : World} {r : Except Failure Reply}, Ends w ⟨.inventoryChanged inventory, env, r⟩ w' →
      SameFor k (w.withInventory inventory) w' := by
    intro w w' r hends
    cases hends with
    | inventory hr =>
      unfold inventoryResult at hr
      split at hr
      · cases hr
        exact (sameFor_equivalence k).refl _
      · cases hr
        exact ⟨⟨rfl, rfl, rfl⟩, rfl⟩
  have hmiddle : SameFor k (w₁.withInventory inventory) (w₂.withInventory inventory) :=
    ⟨⟨h.settings, rfl, h.notices⟩, h.slot⟩
  exact (sameFor_equivalence k).trans ((sameFor_equivalence k).symm (hafter h₁))
    ((sameFor_equivalence k).trans hmiddle (hafter h₂))

end SameFor

/-! ### Runs -/

/-- The call and what it finds outside, if it concerns the alarm. -/
def concerning (k : InstanceKey) (ev : Event) : Option (Call × Env) :=
  match ev.call with
  | .createOrUpdateAlarm o input =>
    if InstanceKey.fromNode input = k then some (.createOrUpdateAlarm o input, ev.env) else none
  | call => some (call, ev.env)

/-- A call in which the inventory and the shelving rules can be read. -/
structure Reading (w : World) (ev : Event) (w' : World) : Prop extends Performs w ev w' where
  reads : ev.env.getDataThrows = false

omit [Libyang] in
theorem concerning_eq_some {call : Call} (h : concerning k ev = some (call, env)) :
    ∃ r, ev = ⟨call, env, r⟩ ∧ ∀ o input, call = .createOrUpdateAlarm o input → InstanceKey.fromNode input = k := by
  obtain ⟨call', env', r⟩ := ev
  unfold concerning at h
  cases call' with
  | createOrUpdateAlarm o input =>
    simp only [Option.ite_none_right_eq_some] at h
    obtain ⟨hk, heq⟩ := h
    cases heq
    refine ⟨r, rfl, ?_⟩
    rintro _ _ ⟨⟩
    exact hk
  | _ =>
    cases h
    exact ⟨r, rfl, fun _ _ => nofun⟩

omit [Libyang] in
theorem concerning_eq_none (h : concerning k ev = none) :
    ∃ o input, ev.call = .createOrUpdateAlarm o input ∧ InstanceKey.fromNode input ≠ k := by
  obtain ⟨call, env, r⟩ := ev
  unfold concerning at h
  cases call with
  | createOrUpdateAlarm o input => exact ⟨o, input, rfl, fun hk => by simp [hk] at h⟩
  | _ => cases h

theorem started_unique (h₁ : Started b w₁) (h₂ : Started b w₂) : w₁ = w₂ :=
  congrArg Prod.snd (h₁.2.symm.trans h₂.2)

theorem daemonRun_of_reading (h : Run (Started b) Reading tr w) : DaemonRun b tr w :=
  h.mono fun _ _ _ hs => hs.toPerforms

theorem unwinding (b : Boot) (k : InstanceKey) : Unwinding (Started b) Reading (concerning k) (SameFor k) where
  equivalence := sameFor_equivalence k
  start h₁ h₂ := started_unique h₁ h₂ ▸ (sameFor_equivalence k).refl _
  ignores := by
    intro tr w ev w' hrun hs hnone
    obtain ⟨call, env, r⟩ := ev
    obtain ⟨o, input, rfl, hk⟩ := concerning_eq_none hnone
    exact (hs.ends (Inv.of_run (daemonRun_of_reading hrun))).sameFor_of_other hk
  agrees := by
    intro tr₁ w₁ ev₁ w₁' tr₂ w₂ ev₂ w₂' request hrun₁ hs₁ hrun₂ hs₂ hr₁ hr₂ h
    obtain ⟨call, env⟩ := request
    obtain ⟨r₁, rfl, hk⟩ := concerning_eq_some hr₁
    obtain ⟨r₂, rfl, -⟩ := concerning_eq_some hr₂
    have hi₁ : Inv w₁ := Inv.of_run (daemonRun_of_reading hrun₁)
    have hi₂ : Inv w₂ := Inv.of_run (daemonRun_of_reading hrun₂)
    have he₁ := hs₁.ends hi₁
    have he₂ := hs₂.ends hi₂
    cases call with
    | createOrUpdateAlarm o input => exact h.submit (hk o input rfl) hs₁.reads he₁ he₂
    | purgeAlarms l input => exact h.purge hi₁ hi₂ he₁ he₂
    | compressAlarms l input => exact h.compress hi₁ hi₂ he₁ he₂
    | controlChanged changes shelving => exact h.control he₁ he₂
    | inventoryChanged inventory => exact h.announce he₁ he₂

/-- Two runs with the same calls that concern an alarm leave it in the same state, in memory and in the tree, and
have sent the same notifications about it, whatever else was submitted in either run, and at whatever place. -/
theorem sameFor_of_runs (h₁ : DaemonRun b tr₁ w₁) (h₂ : DaemonRun b tr₂ w₂)
    (hreads₁ : ∀ t ∈ tr₁, t.label.env.getDataThrows = false) (hreads₂ : ∀ t ∈ tr₂, t.label.env.getDataThrows = false)
    (hk : requests (concerning k) tr₁ = requests (concerning k) tr₂) : SameFor k w₁ w₂ :=
  (unwinding b k).same (h₁.restrict fun t ht hs => ⟨hs, hreads₁ t ht⟩) (h₂.restrict fun t ht hs => ⟨hs, hreads₂ t ht⟩) hk

end

namespace AlarmsTest

/-- An alarm on its own, and between the submissions of others. -/
def aloneCalls : List (Call × Env) :=
  [(submit "wss" .cleared "OK.", atTime 5), (submit "wss" (.active .major) "Hey, I'm overheating.", atTime 2)]

def crowdedCalls : List (Call × Env) :=
  [(submit "edfa" .cleared "OK.", atTime 6),
    (submit "wss" .cleared "OK.", atTime 5),
    (submit "psu" (.active .warning) "More juice pls.", atTime 4),
    (submit "edfa" (.active .minor) "Getting worse.", atTime 3),
    (submit "wss" (.active .major) "Hey, I'm overheating.", atTime 2),
    (submit "edfa" (.active .warning) "More juice pls.", atTime 1)]

theorem requests_replay (k : InstanceKey) (w : World) (calls : List (Call × Env)) :
    requests (concerning k) (replay w calls).1 = calls.filterMap fun c => concerning k ⟨c.1, c.2, .ok .ok⟩ := by
  induction calls with
  | nil => rfl
  | cons c calls ih =>
    rw [List.filterMap_cons, ← ih]
    rfl

theorem sameFor_of_runs_crowded : SameFor (key "wss") (scenario [] aloneCalls).2 (scenario [] crowdedCalls).2 := by
  have hreads : ∀ calls, (scenario [] calls).1.all (fun t => !t.label.env.getDataThrows) = true →
      ∀ t ∈ (scenario [] calls).1, t.label.env.getDataThrows = false := fun calls h t ht => by
    simpa using List.all_eq_true.1 h t ht
  have hsame : requests (concerning (key "wss")) (scenario [] aloneCalls).1 =
      requests (concerning (key "wss")) (scenario [] crowdedCalls).1 := by
    rw [scenario, scenario, requests_replay, requests_replay]
    simp [aloneCalls, crowdedCalls, concerning, submit, alarm1Input, InstanceKey.fromNode, key]
  exact sameFor_of_runs (daemonRun_scenario (by decide +kernel)) (daemonRun_scenario (by decide +kernel))
    (hreads _ (by decide +kernel)) (hreads _ (by decide +kernel)) hsame

end AlarmsTest

end IetfAlarms

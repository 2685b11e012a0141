import IetfAlarms.ListTimes
import IetfAlarms.Submissions

/-!
# What `time-created` shows

Two places write the leaf: a submission that changes the alarm writes when the alarm was created, and
un-shelving writes the current time. So after an alarm has come back from the shelf the leaf is the time of
that, until a submission changes the alarm; then it is when the alarm was raised first (`createdShown`).
-/

namespace IetfAlarms
open Program Trace DataTree DataTree.Node

section
variable [Libyang] {b : Boot} {w w₁ w' : World} {ev : Event} {env : Env} {input : AlarmInput} {k : InstanceKey}
variable {tr : History} {t : Transition World Event} {rules rules' : ShelvingRules} {e : AlarmEntry} {s : Slot}
variable {x : Option TimePoint}

/-- When the alarm was created: by the oldest submission that was accepted since it was last absent. -/
def bornAt (k : InstanceKey) (tr : History) : Option TimePoint := (acceptedSince k tr).getLast?.map (·.time)

/-- The call is a submission that changes this alarm. -/
def alters (k : InstanceKey) (t : Transition World Event) : Bool :=
  match t.label.call with
  | .createOrUpdateAlarm o input =>
    decide (InstanceKey.fromNode input = k ∧ Accepted o t.label.env input t.before ∧ AsksChange input t.before)
  | _ => false

/-- The call moves this alarm from the shelf to the alarm list. -/
def unshelves (k : InstanceKey) (t : Transition World Event) : Bool :=
  match t.label.call with
  | .controlChanged _ _ =>
    (t.before.alarms.lookup k).any (·.shelf.isSome) && (t.after.alarms.lookup k).any (·.shelf.isNone)
  | _ => false

/-- The time that `time-created` shows for an alarm in the alarm list. -/
def createdShown (k : InstanceKey) : History → Option TimePoint
  | [] => none
  | t :: tr =>
    if alters k t then bornAt k (t :: tr)
    else if unshelves k t then some t.label.env.now
    else createdShown k tr

/-! ### Slots -/

/-- If the alarm is in the alarm list, its node there shows this time. -/
def ShowsCreated (x : Option TimePoint) (s : Slot) : Prop :=
  ∀ e, s.entry = some e → e.shelf = none → ∃ n time, s.node .alarmList = some n ∧ x = some time ∧
    n.leaf .timeCreated = some (yangTimeFormat time)

namespace ShowsCreated

theorem of_absent (he : s.entry = none) : ShowsCreated x s := by
  intro e he'
  rw [he] at he'
  cases he'

theorem trim (he : s.entry = some e) (h : ShowsCreated x s) (limit : Option UInt16) :
    ShowsCreated x (s.trim limit (k, e)) := by
  have hshelf : (e.shrinkStatusChanges limit).1.shelf = e.shelf := by rw [AlarmEntry.shrinkStatusChanges_eq]
  intro e' he' hs
  cases he'
  rw [hshelf] at hs
  obtain ⟨n, time, hn, hx, hleaf⟩ := h e he hs
  refine ⟨dropChanges (e.shrinkStatusChanges limit).2 n, time, ?_, hx, (leaf_dropChanges _ _ _).trans hleaf⟩
  have hl : Listing.ofShelf e.shelf = .alarmList := by rw [hs]; rfl
  simp only [Slot.trim, Slot.editNode, Slot.setEntry, hl, if_pos, hn, Option.getD_some]

theorem purge (h : ShowsCreated x s) (l : Listing) (filter : AlarmFilter) : ShowsCreated x (s.purge l filter (k, e)) := by
  unfold Slot.purge
  split
  · exact of_absent rfl
  · exact h

theorem compress (he : s.entry = some e) (h : ShowsCreated x s) (l : Listing) (filter : AlarmFilter) :
    ShowsCreated x (s.compress l filter (k, e)) := by
  unfold Slot.compress
  split
  · exact h.trim he _
  · exact h

/-- A submission shows when the alarm was created, if it shows the leaf at all. -/
theorem submission {f : Node → Node}
    (hf : ∀ n, e.shelf = none → (f n).leaf .timeCreated = some (yangTimeFormat e.created)) :
    ShowsCreated (some e.created) ((s.setEntry e).editNode (Listing.ofShelf e.shelf) f) := by
  intro e' he' hs
  cases he'
  refine ⟨f ((s.node (Listing.ofShelf e.shelf)).getD Node.empty), e.created, ?_, rfl, hf _ hs⟩
  have hl : Listing.ofShelf e.shelf = .alarmList := by rw [hs]; rfl
  simp only [Slot.editNode, Slot.setEntry, hl, if_pos]

/-- Un-shelving shows its own time. -/
theorem unshelve (he : s.entry = some e) (hi : SlotInv rules k s) {old : String} (hold : e.shelf = some old)
    (now : TimePoint) :
    ShowsCreated (some now) (s.move .shelvedAlarms .alarmList { e with shelf := none } now) := by
  obtain ⟨n, hn, hm⟩ := (hi.present e he).mirrored
  obtain ⟨severity, hseverity⟩ := (hi.present e he).severity
  obtain ⟨cs, hcs⟩ := hm.changes
  have hl : Listing.ofShelf e.shelf = .shelvedAlarms := by rw [hold]; rfl
  rw [hl] at hn
  intro e' he' _
  refine ⟨copyProps n (listLeaf none now ((s.node .alarmList).getD Node.empty)), now, ?_, rfl, ?_⟩
  · simp only [Slot.move, Slot.unlinkNode, Slot.editNode, Slot.setEntry, hn, Option.getD_some]
    rfl
  · rw [leaf_copyProps hcs _ _ (hm.copyable hseverity).leaves, if_neg (by decide), leaf_listLeaf]
    rfl

/-- A round of reshelving leaves the leaf of an alarm that stays in the alarm list alone. -/
theorem reshelve (he : s.entry = some e) (hi : SlotInv rules k s) (h : ShowsCreated x s) (now : TimePoint) :
    ShowsCreated (if e.shelf.isSome then some now else x) (s.reshelve now rules' (k, e)) := by
  cases hnew : findMatchingShelf k rules' with
  | some name =>
    intro e' he' hs
    rw [entry_reshelve he, hnew] at he'
    cases he'
    cases hs
  | none =>
    unfold Slot.reshelve
    cases hold : e.shelf with
    | none =>
      rw [hnew]
      exact h
    | some old =>
      rw [hnew]
      exact unshelve he hi hold now

/-- So does a control change that does not move it. -/
theorem stay (he : s.entry = some e) (h : ShowsCreated x s) (now : TimePoint) :
    ShowsCreated (if e.shelf.isSome then some now else x) s := by
  intro e' he' hs
  have hsame : e = e' := Option.some.inj (he.symm.trans he')
  subst hsame
  rw [hs]
  exact h e he' hs

end ShowsCreated

/-! ### Calls -/

/-- The submission that a call was makes its alarm show when it was created. -/
theorem showsCreated_submitted :
    ShowsCreated (some (w.submission env input).1.created)
      ((w.submitted env input).slot (InstanceKey.fromNode input)) := by
  rw [World.submitted, World.slot_recount, World.slot_upsert_self]
  refine ShowsCreated.submission fun n hs => ?_
  rw [upsertNode, leaf_dropChanges, leaf_pushChange, publishLeaves, leaf_listLeaf, hs]
  rfl

theorem showsCreated_submittedPartly :
    ShowsCreated (some (w.submission env input).1.created)
      ((w.submittedPartly env input).slot (InstanceKey.fromNode input)) := by
  rw [World.submittedPartly, World.slot_publishPartly_self]
  refine ShowsCreated.submission fun n hs => ?_
  rw [publishLeaves, leaf_listLeaf, hs]
  rfl

/-- A control change shows its own time for what it takes from the shelf. -/
theorem showsCreated_controlled (hi : Inv w) (he : w.alarms.lookup k = some e) (h : ShowsCreated x (w.slot k))
    (now : TimePoint) (changes : List ControlChange) (shelving : ShelvingRules) :
    ShowsCreated (if e.shelf.isSome then some now else x) ((w.controlled now changes shelving).slot k) := by
  have hscanned : (w.scanned changes).slot k = w.slot k := by
    rw [World.scanned_eq]
    rfl
  have hmoved : ShowsCreated (if e.shelf.isSome then some now else x) ((w.slot k).reshelve now shelving (k, e)) :=
    h.reshelve he (hi.slots k) now
  have hstay := h.stay (s := w.slot k) he now
  generalize (if e.shelf.isSome then some now else x) = y at hmoved hstay ⊢
  have hreshelved : ShowsCreated y ((w.controlReshelved now changes shelving).slot k) := by
    unfold World.controlReshelved
    split
    · rw [slot_reshelved, scanned_alarms, he]
      simp only
      rw [hscanned]
      exact hmoved
    · rw [hscanned]
      exact hstay
  unfold World.controlled
  split
  · unfold World.shrunk
    split
    · exact hreshelved
    · rw [World.slot_foldl (World.slot_trim_self _) (World.slot_trim_of_ne _)]
      cases he' : (w.controlReshelved now changes shelving).alarms.lookup k with
      | none => exact hreshelved
      | some e' => exact hreshelved.trim (s := (w.controlReshelved now changes shelving).slot k) he' _
  · exact hreshelved

/-! ### Runs -/

/-- An alarm that has just been changed was created by the first of the submissions accepted for it. -/
theorem bornAt_of_run (h : DaemonRun b tr w) (he : w.alarms.lookup k = some e) : bornAt k tr = some e.created := by
  have hfolds := folds_of_run h k (by rw [he]; rfl)
  rw [he] at hfolds
  exact Fields.created_of_fold hfolds.first hfolds.fold

omit [Libyang] in
theorem alters_of_effective {o : String} {r : Except Failure Reply} (ho : Served o) (he : Effective env input w) :
    alters (InstanceKey.fromNode input) ⟨w, ⟨.createOrUpdateAlarm o input, env, r⟩, w'⟩ = true :=
  decide_eq_true ⟨rfl, he.accepted ho, he.toAsksChange⟩

/-- An alarm that is in the alarm list afterwards was brought back if it was on a shelf before. -/
theorem showsCreated_of_control {changes : List ControlChange} {shelving : ShelvingRules} {r : Except Failure Reply}
    (he : w.alarms.lookup k = some e) (hentry : w'.alarms.lookup k = s.entry)
    (h : ShowsCreated (if e.shelf.isSome then some env.now else x) s) :
    ShowsCreated (if unshelves k ⟨w, ⟨.controlChanged changes shelving, env, r⟩, w'⟩ then some env.now else x) s := by
  intro e' he' hs
  have hmoves : unshelves k ⟨w, ⟨.controlChanged changes shelving, env, r⟩, w'⟩ = e.shelf.isSome := by
    simp [unshelves, he, hentry, he', hs]
  rw [hmoves]
  exact h e' he' hs

/-- A call that does not change the alarm by a submission leaves the leaf alone, unless it brings it back. -/
theorem Effect.showsCreated (hi : Inv w) (he : Effect w ev w₁) (hs : SameMemory w₁ w')
    (ha : alters k ⟨w, ev, w'⟩ = false) (h : ShowsCreated (createdShown k tr) (w.slot k)) :
    ShowsCreated (createdShown k (⟨w, ev, w'⟩ :: tr)) (w₁.slot k) := by
  have hentry : w'.alarms.lookup k = (w₁.slot k).entry := congrArg (AssocMap.lookup k) hs.alarms
  rw [createdShown, if_neg (Bool.eq_false_iff.1 ha)]
  cases he with
  | none _ hcontrol =>
    have hno : unshelves k ⟨w, ev, w'⟩ = false := by
      unfold unshelves
      split
      · rename_i hcall
        exact absurd hcall (hcontrol _ _)
      · rfl
    rw [hno]
    exact h
  | submitted ho heffective _ _ =>
    rw [slot_submitted_of_ne fun hk => ?_]
    · exact h
    · subst hk
      exact absurd (alters_of_effective ho heffective) (Bool.eq_false_iff.1 ha)
  | submittedPartly ho heffective _ =>
    rw [World.submittedPartly, World.slot_publishPartly_of_ne fun hk => ?_]
    · exact h
    · subst hk
      exact absurd (alters_of_effective ho heffective) (Bool.eq_false_iff.1 ha)
  | purged filter =>
    rw [slot_purged]
    cases he : w.alarms.lookup k with
    | none => exact h
    | some e => exact h.purge _ filter
  | compressed =>
    rw [World.compressed, World.slot_foldl (World.slot_compress_self _ _) (World.slot_compress_of_ne _ _)]
    cases he : w.alarms.lookup k with
    | none => exact h
    | some e => exact h.compress (s := w.slot k) he _ _
  | scanned =>
    have hslot : ∀ changes, (w.scanned changes).slot k = w.slot k := fun changes => by
      rw [World.scanned_eq]
      rfl
    rw [hslot] at hentry ⊢
    cases he : w.alarms.lookup k with
    | none => exact .of_absent he
    | some e => exact showsCreated_of_control he hentry (h.stay (s := w.slot k) he _)
  | controlled =>
    intro e' he' hs'
    obtain ⟨e, he, -⟩ := (kept_fields _ w).controlled _ hi (fun k e he => ⟨e, he, rfl⟩) k e' he'
    exact showsCreated_of_control he hentry (showsCreated_controlled hi he h _ _ _) e' he' hs'

/-- A submission that changes the alarm makes it show when it was created. -/
theorem Ends.showsCreated {o : String} {r : Except Failure Reply} (he : Ends w ⟨.createOrUpdateAlarm o input, env, r⟩ w')
    (ho : Served o) (heffective : Effective env input w) :
    ShowsCreated (some (w.submission env input).1.created) (w'.slot (InstanceKey.fromNode input)) := by
  cases he with
  | refused hno => exact absurd heffective (hno ho)
  | idle hno => exact absurd heffective.toAsksChange hno
  | clash => exact showsCreated_submittedPartly
  | changed _ _ _ hr =>
    rw [(same_of_writtenAndNotified hr).slot]
    exact showsCreated_submitted

theorem showsCreated_of_run (h : DaemonRun b tr w) (k : InstanceKey) :
    ShowsCreated (createdShown k tr) (w.slot k) := by
  refine h.invariant (I := fun tr w => ShowsCreated (createdShown k tr) (w.slot k)) (fun w hs => ?_)
    fun tr w ev w' hr hi hp => ?_
  · rw [hs.boots.slot_eq k]
    exact .of_absent rfl
  · have hends := hp.ends (Inv.of_run hr)
    cases ha : alters k ⟨w, ev, w'⟩ with
    | false =>
      obtain ⟨w₁, heff, hs⟩ := hends.effect
      rw [hs.slot]
      exact heff.showsCreated (Inv.of_run hr) hs ha hi
    | true =>
      obtain ⟨call, env, r⟩ := ev
      rw [createdShown, if_pos ha]
      cases call with
      | createOrUpdateAlarm o input =>
        obtain ⟨rfl, haccepted, hasks⟩ := of_decide_eq_true ha
        have heffective := haccepted.effective hasks
        rw [bornAt_of_run (hr.step hp) (hends.lookup_of_effective haccepted.served heffective)]
        exact hends.showsCreated haccepted.served heffective
      | purgeAlarms l input => cases ha
      | compressAlarms l input => cases ha
      | controlChanged changes shelving => cases ha
      | inventoryChanged inventory => cases ha

/-- In the alarm list `time-created` is when the alarm was created or, if it has come back from the shelf since
it last changed, when it came back; on the shelf there is no such leaf. -/
theorem timeCreated_of_run (h : DaemonRun b tr w) (he : w.alarms.lookup k = some e) :
    ∃ n, w.edit.find (alarmPath (Listing.ofShelf e.shelf) k) = some n ∧
      if e.shelf.isSome then n.leaf .timeCreated = none
      else ∃ time, createdShown k tr = some time ∧ n.leaf .timeCreated = some (yangTimeFormat time) := by
  obtain ⟨n, hn, hm⟩ := (((Inv.of_run h).slots k).present e he).mirrored
  refine ⟨n, hn, ?_⟩
  cases hs : e.shelf with
  | some shelf =>
    have hleaf := hm.timeCreated
    rw [hs] at hleaf
    exact Option.not_isSome_iff_eq_none.1 (by rw [hleaf]; exact Bool.false_ne_true)
  | none =>
    obtain ⟨n', time, hn', hx, hleaf⟩ := showsCreated_of_run h k e he hs
    have hl : Listing.ofShelf e.shelf = .alarmList := by rw [hs]; rfl
    rw [hl, hn'] at hn
    cases hn
    exact ⟨time, hx, hleaf⟩

end

namespace AlarmsTest

/-- An alarm is raised, shelved and brought back from the shelf. -/
def broughtBackCalls : List (Call × Env) :=
  [(.controlChanged [.alarmShelving] [], atTime 3),
    (.controlChanged [.alarmShelving] [⟨"shelf", ["wss"], []⟩], atTime 2),
    (submit "wss" (.active .major) "Hey, I'm overheating.", atTime 1)]

def broughtBackEntry : AlarmEntry where
  created := 1
  lastRaised := 1
  lastChanged := 1
  text := "Hey, I'm overheating."
  shelf := none
  lastSeverity := 5
  isCleared := false
  statusChanges := [⟨1, 5, "Hey, I'm overheating."⟩]

theorem timeCreated_of_run_broughtBack :
    ∃ n, (scenario [] broughtBackCalls).2.edit.find (alarmPath .alarmList (key "wss")) = some n ∧
      ∃ time, createdShown (key "wss") (scenario [] broughtBackCalls).1 = some time ∧
        n.leaf .timeCreated = some (yangTimeFormat time) := by
  have hrun : DaemonRun (boot []) (scenario [] broughtBackCalls).1 (scenario [] broughtBackCalls).2 :=
    daemonRun_scenario (by decide +kernel)
  have he : (scenario [] broughtBackCalls).2.alarms.lookup (key "wss") = some broughtBackEntry := by decide +kernel
  obtain ⟨n, hn, hcreated⟩ := timeCreated_of_run hrun he
  rw [if_neg (by decide)] at hcreated
  exact ⟨n, hn, hcreated⟩

/-- It was created at 1, and shows when it came back. -/
example : createdShown (key "wss") (scenario [] broughtBackCalls).1 = some 3 := by decide +kernel

end AlarmsTest
end IetfAlarms

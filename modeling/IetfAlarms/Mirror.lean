import IetfAlarms.History

/-!
# The datastore mirrors the alarms

What it means for a tree to show a table of alarms, each in the one list where it belongs and nothing
besides. In a run with an increasing clock and a working sysrepo both trees do, after every call, and no
call dereferences what is not there.
-/

namespace IetfAlarms
open Program Trace DataTree DataTree.Node

section
variable [Libyang] {b : Boot} {w w' : World} {env : Env} {input : AlarmInput} {k : InstanceKey} {tr : History}

/-! ### Showing an alarm -/

/-- The node shows the entry: its leaves, and its status changes by their times. -/
structure Shows (e : AlarmEntry) (n : Node) : Prop where
  isCleared : n.leaf .isCleared = some (boolText e.isCleared)
  lastRaised : n.leaf .lastRaised = some (yangTimeFormat e.lastRaised)
  lastChanged : n.leaf .lastChanged = some (yangTimeFormat e.lastChanged)
  perceivedSeverity : ∃ name, severityName e.lastSeverity = some name ∧ n.leaf .perceivedSeverity = some name
  alarmText : n.leaf .alarmText = some e.text
  shelfName : n.leaf .shelfName = e.shelf
  statusChanges : ∀ s, s ∈ (n.instances .statusChange).map Prod.fst ↔ ∃ c ∈ e.statusChanges, s = changeStep c.time

/-- The tree shows these alarms, each once and in the list that belongs to its shelf, and no others. -/
structure ShowsAll (alarms : AssocMap InstanceKey AlarmEntry) (tree : Node) : Prop where
  distinct : tree.WF
  shown : ∀ k e, alarms.lookup k = some e →
    ∃ n, tree.find (alarmPath (Listing.ofShelf e.shelf) k) = some n ∧ Shows e n
  only : ∀ (l : Listing) (s : Step), s.name = l.entry → (tree.find (l.path ++ [s])).isSome →
    ∃ k e, alarms.lookup k = some e ∧ s = k.step l.entry ∧ l = Listing.ofShelf e.shelf

theorem Records.steps {hs : List PublishedChange} {e : AlarmEntry} {n : Node} (h : Records hs e n) (s : Step) :
    s ∈ (n.instances .statusChange).map Prod.fst ↔ ∃ c ∈ e.statusChanges, s = changeStep c.time := by
  have htimes : (hs.reverse.map fun c => changeStep c.time) = ((e.statusChanges.map (·.time)).map changeStep).reverse := by
    rw [h.times, List.map_map, List.map_reverse]
    rfl
  rw [h.published.steps, htimes, List.mem_reverse, List.map_map, List.mem_map]
  exact exists_congr fun c => and_congr_right fun _ => eq_comm

theorem Mirrors.shows {hs : List PublishedChange} {e : AlarmEntry} {n : Node} {s : Severity}
    (hm : Mirrors e n) (hs' : e.lastSeverity = s.value) (hr : Records hs e n) : Shows e n := by
  have hname : severityName e.lastSeverity = some s.name := by rw [hs', severityName_value]
  exact ⟨hm.isCleared, hm.lastRaised, hm.lastChanged, ⟨s.name, hname, hm.perceivedSeverity.trans hname⟩,
    hm.alarmText, hm.shelfName, hr.steps⟩

theorem showsAll (hi : Inv w) (h : ∀ k, ∃ changes, SlotRecords changes (w.slot k)) : ShowsAll w.alarms w.edit := by
  refine ⟨hi.wf, fun k e he => ?_, fun l s hs hf => ?_⟩
  · have hl := (hi.slots k).present e he
    obtain ⟨n, hn, hm⟩ := hl.mirrored
    obtain ⟨sev, hsev⟩ := hl.severity
    obtain ⟨changes, hrec⟩ := h k
    obtain ⟨n', hs, hn', -, hr⟩ := hrec e he
    rw [hn] at hn'
    cases hn'
    exact ⟨n, hn, hm.shows hsev hr⟩
  · obtain ⟨k, rfl⟩ := hi.keyed l s hs hf
    obtain ⟨n, hn⟩ := Option.isSome_iff_exists.1 hf
    obtain ⟨e, he, hl⟩ := (hi.slots k).entry_of_node hn
    exact ⟨k, e, he, rfl, hl⟩

/-! ### No undefined call -/

theorem trimmable_of_records (limit : Option UInt16) (hi : Inv w) (h : ∀ k, ∃ changes, SlotRecords changes (w.slot k)) :
    Trimmable limit w := by
  intro x hx
  obtain ⟨changes, hrec⟩ := h x.1
  have he := AssocMap.mem_entries_iff.1 hx
  exact hrec.trimOk he (hi.slots x.1) limit

omit [Libyang] in
theorem purgeFilter_error {input : PurgeInput} {now : TimePoint} {f : Failure}
    (h : purgeFilter input now = .error f) : f = .invalidFilter := by
  unfold purgeFilter at h
  simp only at h
  split at h
  · cases h
  · cases h
    rfl

theorem EndsIn.defined {α : Type} {limit : Option UInt16} {w₀ : World} {m : DaemonM α} {r : Except Failure α × World}
    (h : EndsIn limit w w₀ m r) (ht : Trimmable limit w₀) : exec m w = r := by
  rcases h with h | ⟨_, _, hn⟩
  · exact h
  · exact absurd ht hn

omit [Libyang] in
theorem written_defined {reply : Reply} {f : Failure} (h : (written env w reply).1 = .error f) :
    f.isUndefined = false := by
  unfold written at h
  split at h
  · cases h
    rfl
  · cases h

omit [Libyang] in
theorem writtenAndNotified_defined {α : Type} {a : α} {n : Option Notification} {f : Failure}
    (h : (writtenAndNotified env a w n).1 = .error f) : f.isUndefined = false := by
  unfold writtenAndNotified at h
  split at h
  · cases h
    rfl
  · split at h
    · cases h
    · split at h
      · cases h
        rfl
      · cases h

/-- From a state whose histories are in the tree, a call that reads a new time is defined: it finds every
node that it dereferences. -/
theorem defined_of_records {changes : InstanceKey → List PublishedChange} (hi : Inv w)
    (h : ∀ k, SlotRecords (changes k) (w.slot k)) (call : Call) (env : Env) {f : Failure}
    (hf : (exec (call.run env) w).1 = .error f) : f.isUndefined = false := by
  cases call with
  | createOrUpdateAlarm o input =>
    have hf' : (exec (createOrUpdateAlarm env o input) w).1 = .error f := hf
    by_cases hs : Served o
    swap
    · obtain ⟨reply, -, hex⟩ := exec_createOrUpdateAlarm_of_not_served hs env input w
      rw [hex] at hf'
      cases hf'
    have hsubmit : SubmitResult env input w (exec (createOrUpdateAlarm env o input) w) := exec_createOrUpdateAlarm hi hs
    generalize exec (createOrUpdateAlarm env o input) w = x at hsubmit hf'
    cases hsubmit with
    | refused _ _ hd _ => exact hd f hf'
    | idle => cases hf'
    | clash =>
      cases hf'
      rfl
    | undefined he hfresh hn => exact absurd (droppable_submission hi he.toAsksChange hfresh (h _)) hn
    | changed => exact writtenAndNotified_defined hf'
  | purgeAlarms l input =>
    have hf' : (exec (purgeAlarms env l input) w).1 = .error f := hf
    rw [exec_purgeAlarms hi] at hf'
    unfold purgeResult at hf'
    split at hf'
    · rename_i g hg
      cases hf'
      rw [purgeFilter_error hg]
      rfl
    · simp only at hf'
      split at hf'
      · cases hf'
      · exact written_defined hf'
  | compressAlarms l input =>
    have hf' : (exec (compressAlarms env l input) w).1 = .error f := hf
    rw [(exec_compressAlarms env hi l input).defined (trimmable_of_records _ hi fun k => ⟨_, h k⟩)] at hf'
    unfold compressResult at hf'
    simp only at hf'
    split at hf'
    · cases hf'
    · exact written_defined hf'
  | controlChanged changes' shelving =>
    have hkept := kept_slotRecords none changes
    have htrim := trimmable_of_records (w.scanned changes').maxAlarmStatusChanges
      (hi.controlReshelved env.now changes' shelving)
      fun k => ⟨_, hkept.controlReshelved hi h env.now changes' shelving k⟩
    have hf' : (exec (controlChanged env changes' shelving) w).1 = .error f := hf
    rw [(exec_controlChanged env hi changes' shelving).defined htrim] at hf'
    unfold controlResult at hf'
    split at hf'
    · cases hf'
      rfl
    · split at hf'
      · exact written_defined hf'
      · cases hf'
  | inventoryChanged inventory =>
    have hf' : (exec (inventoryChanged env inventory) w).1 = .error f := hf
    rw [exec_inventoryChanged] at hf'
    unfold inventoryResult at hf'
    split at hf'
    · cases hf'
      rfl
    · cases hf'

/-- After every call of such a run the datastore has the tree, the tree shows the alarms, and whatever is
called next dereferences only what is there. -/
theorem showsAll_of_run (h : DaemonRun b tr w) (hclock : StrictClock tr) (hworks : Works tr) :
    w.operational = w.edit ∧ ShowsAll w.alarms w.edit ∧
      ∀ (call : Call) (env : Env) (f : Failure), (exec (call.run env) w).1 = .error f → f.isUndefined = false := by
  have hi := Inv.of_run h
  have hc := Clean.of_run h hclock hworks
  exact ⟨hc.published, showsAll hi fun k => ⟨_, hc.records k⟩,
    fun call env f hf => defined_of_records hi hc.records call env hf⟩

end

namespace AlarmsTest

theorem showsAll_of_run_mixed :
    (scenario [] mixedCalls).2.operational = (scenario [] mixedCalls).2.edit ∧
      ShowsAll (scenario [] mixedCalls).2.alarms (scenario [] mixedCalls).2.edit := by
  obtain ⟨hrun, hclock, hworks⟩ := mixedCalls_run
  have hall := showsAll_of_run hrun hclock hworks
  exact ⟨hall.1, hall.2.1⟩

end AlarmsTest
end IetfAlarms

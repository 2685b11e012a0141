import IetfAlarms.Recorded

/-!
# Runs with an increasing clock and a working sysrepo

What a call writes (`Ends.writes`), the sequence of changes an alarm went through (`changesSince`), and the
invariant `Clean` of the runs in which no call to sysrepo throws and the clock never reads the same time
twice: the datastore has the tree, and every alarm's history is the end of its sequence of changes.
-/

namespace IetfAlarms
open Program Trace DataTree DataTree.Node

section
variable [Libyang] {b : Boot} {w w₁ w' : World} {ev : Event} {env : Env} {input : AlarmInput} {k : InstanceKey}
variable {tr : History} {t : Transition World Event}

/-! ### What is written -/

/-- Nothing that is published has changed. -/
structure Untouched (w w' : World) : Prop where
  alarms : w'.alarms = w.alarms
  edit : w'.edit = w.edit
  operational : w'.operational = w.operational

/-- A control change that changes nothing published only loads settings and rules. -/
theorem untouched_controlled (h : Inv w) {now : TimePoint} {changes : List ControlChange} {shelving : ShelvingRules}
    (hc : controlChanges now changes shelving w = false) : Untouched w (w.controlled now changes shelving) := by
  rw [controlChanges, Bool.or_eq_false_iff] at hc
  have hscanned : Untouched w (w.scanned changes) := by
    rw [World.scanned_eq]
    exact ⟨rfl, rfl, rfl⟩
  have hreshelved : Untouched w (w.controlReshelved now changes shelving) := by
    unfold World.controlReshelved
    split
    · rename_i hn
      rw [hn, Bool.true_and, ← scanned_alarms changes] at hc
      rw [World.reshelved_eq_self hc.1]
      exact ⟨hscanned.alarms, hscanned.edit, hscanned.operational⟩
    · exact hscanned
  unfold World.controlled
  split
  · rename_i hn
    rw [hn, Bool.true_and] at hc
    rw [World.shrunk_eq_self (h.controlReshelved now changes shelving) hc.2]
    exact hreshelved
  · exact hreshelved

/-- The call is an effective submission that finds its time taken. -/
def Clashes (w : World) (ev : Event) : Prop :=
  ∃ o input, ev.call = .createOrUpdateAlarm o input ∧ ev.outcome = .error .nodeExists ∧ Served o ∧
    Effective ev.env input w ∧ ¬ Fresh ev.env input w

/-- A call writes the tree, or changes nothing published, or fails half way. -/
theorem Ends.writes (h : Inv w) (he : Ends w ev w') :
    w'.operational = w'.edit ∨ Untouched w w' ∨
      w'.operational = w.operational ∧
        (ev.outcome = .error .sysrepo ∧ ev.env.writeThrows = true ∨ Clashes w ev) := by
  have hwritten : ∀ {env : Env} {w₁ w' : World} {reply : Reply} {r : Except Failure Reply},
      written env w₁ reply = (r, w') → w₁.operational = w.operational →
      w'.operational = w'.edit ∨ w'.operational = w.operational ∧ (r = .error .sysrepo ∧ env.writeThrows = true) := by
    intro env w₁ w' reply r hr ho
    rcases written_cases hr with ⟨hw, rfl, rfl⟩ | ⟨-, -, rfl⟩
    · exact .inr ⟨ho, rfl, hw⟩
    · exact .inl rfl
  cases he with
  | refused _ _ hw =>
    rcases hw with rfl | rfl
    · exact .inr (.inl ⟨rfl, rfl, rfl⟩)
    · exact .inr (.inl ⟨rfl, rfl, rfl⟩)
  | idle => exact .inr (.inl ⟨rfl, rfl, rfl⟩)
  | clash ho he hf => exact .inr (.inr ⟨rfl, .inr ⟨_, _, rfl, rfl, ho, he, hf⟩⟩)
  | changed _ _ _ hr =>
    unfold submittedResult writtenAndNotified at hr
    split at hr
    · rename_i hw
      cases hr
      exact .inr (.inr ⟨rfl, .inl ⟨rfl, hw⟩⟩)
    · split at hr
      · cases hr
        exact .inl rfl
      · split at hr
        · cases hr
          exact .inl rfl
        · cases hr
          exact .inl rfl
  | purge hr =>
    rename_i l input env r
    unfold purgeResult at hr
    split at hr
    · cases hr
      exact .inr (.inl ⟨rfl, rfl, rfl⟩)
    · rename_i filter _
      simp only at hr
      split at hr
      · cases hr
        exact .inr (.inl ⟨rfl, rfl, rfl⟩)
      · have ho := congrArg (fun w : World => w.operational) (w.purged_frame l filter env.now)
        rcases hwritten hr ho with hw | ⟨ho', hw⟩
        · exact .inl hw
        · exact .inr (.inr ⟨ho', .inl hw⟩)
  | compress hr =>
    rename_i l input env r
    unfold compressResult at hr
    simp only at hr
    split at hr
    · cases hr
      exact .inr (.inl ⟨rfl, rfl, rfl⟩)
    · have ho := congrArg (fun w : World => w.operational) (w.compressed_frame l (compressFilter input))
      rcases hwritten hr ho with hw | ⟨ho', hw⟩
      · exact .inl hw
      · exact .inr (.inr ⟨ho', .inl hw⟩)
  | control hr =>
    rename_i changes shelving env r
    unfold controlResult at hr
    split at hr
    · cases hr
      rw [World.scanned_eq]
      exact .inr (.inl ⟨rfl, rfl, rfl⟩)
    · split at hr
      · have ho : (w.controlled env.now changes shelving).operational = w.operational := by
          have hframe := congrArg (fun w : World => w.operational) (World.controlled_frame env.now changes shelving w)
          exact hframe
        rcases hwritten hr ho with hw | ⟨ho', hw⟩
        · exact .inl hw
        · exact .inr (.inr ⟨ho', .inl hw⟩)
      · rename_i hc
        cases hr
        exact .inr (.inl (untouched_controlled h (Bool.eq_false_iff.2 hc)))
  | inventory hr =>
    unfold inventoryResult at hr
    split at hr
    · cases hr
      exact .inr (.inl ⟨rfl, rfl, rfl⟩)
    · cases hr
      exact .inr (.inl ⟨rfl, rfl, rfl⟩)

/-! ### The changes of an alarm -/

/-- The change of this alarm that a call made: an accepted submission that creates it or alters its
clearance, severity or text. -/
def changeOf (k : InstanceKey) (t : Transition World Event) : Option PublishedChange :=
  match t.label.call with
  | .createOrUpdateAlarm _ input =>
    if InstanceKey.fromNode input = k ∧ t.label.outcome = .ok .ok ∧ AsksChange input t.before then
      some (input.change t.label.env.now)
    else none
  | _ => none

/-- The changes of an alarm since it was last created, oldest first. -/
def changesSince (k : InstanceKey) : History → List PublishedChange
  | [] => []
  | t :: tr =>
    match changeOf k t with
    | some c => extend (t.before.alarms.lookup k) (changesSince k tr) c
    | none => changesSince k tr

/-- The clock reads a later time in every call. -/
def StrictClock (tr : History) : Prop := (tr.map (·.label.env.now)).Pairwise (· > ·)

/-- No call to sysrepo throws. -/
def Works (tr : History) : Prop := ∀ t ∈ tr, t.label.env.works = true

omit [Libyang] in
theorem changeOf_time {c : PublishedChange} (h : changeOf k t = some c) : c.time = t.label.env.now := by
  unfold changeOf at h
  split at h
  · split at h
    · rw [← Option.some.inj h]
      rfl
    · cases h
  · cases h

omit [Libyang] in
theorem time_of_mem_changesSince {c : PublishedChange} (h : c ∈ changesSince k tr) :
    c.time ∈ tr.map (·.label.env.now) := by
  induction tr with
  | nil => cases h
  | cons t tr ih =>
    rw [List.map_cons]
    rw [changesSince] at h
    split at h
    · rename_i d hd
      rcases List.mem_append.1 h with h | h
      · split at h
        · cases h
        · exact List.mem_cons_of_mem _ (ih h)
      · rw [List.mem_singleton.1 h, changeOf_time hd]
        exact List.mem_cons_self
    · exact List.mem_cons_of_mem _ (ih h)

/-- With an increasing clock the time of a call is not in any history yet. -/
theorem fresh_of_strictClock (hi : Inv w) (hclock : StrictClock (t :: tr))
    (h : SlotRecords (changesSince (InstanceKey.fromNode input) tr) (w.slot (InstanceKey.fromNode input))) :
    Fresh t.label.env input w := by
  obtain ⟨hs, hc, hp, -⟩ := records_target t.label.env hi h
  rw [Fresh, ← Option.not_isSome_iff_eq_none]
  intro hsome
  have hm := (hp.child_isSome_iff (target_publishable t.label.env hi).wf _).1 hsome
  rw [List.map_reverse, List.mem_reverse] at hm
  obtain ⟨c, hc', htime⟩ := List.mem_map.1 hm
  have hmem : c ∈ changesSince (InstanceKey.fromNode input) tr := by
    have := hc.subset hc'
    split at this
    · cases this
    · exact this
  have hlt : t.label.env.now > c.time := (List.pairwise_cons.1 hclock).1 _ (time_of_mem_changesSince hmem)
  rw [htime] at hlt
  exact Int.lt_irrefl _ hlt

/-! ### The invariant -/

structure Clean (tr : History) (w : World) : Prop where
  published : w.operational = w.edit
  records : ∀ k, SlotRecords (changesSince k tr) (w.slot k)

omit [Libyang] in
theorem changesSince_of_none (h : changeOf k t = none) : changesSince k (t :: tr) = changesSince k tr := by
  rw [changesSince, h]

omit [Libyang] in
theorem changeOf_of_not_submission (h : ∀ o input, t.label.call ≠ .createOrUpdateAlarm o input) :
    changeOf k t = none := by
  unfold changeOf
  split
  · rename_i heq
    exact absurd heq (h _ _)
  · rfl

/-- The histories after a call. -/
theorem Effect.records (hi : Inv w) (he : Effect w ev w₁) (hclock : StrictClock (⟨w, ev, w'⟩ :: tr))
    (hworks : ev.env.works = true) (h : ∀ k, SlotRecords (changesSince k tr) (w.slot k)) (k : InstanceKey) :
    SlotRecords (changesSince k (⟨w, ev, w'⟩ :: tr)) (w₁.slot k) := by
  have hkept := fun limit => kept_slotRecords limit fun k => changesSince k tr
  cases he with
  | none hn _ =>
    have hnone : changeOf k ⟨w, ev, w'⟩ = Option.none := by
      unfold changeOf
      split
      · rename_i o input hcall
        exact if_neg fun hc => hn o input hcall hc.2.1 hc.2.2
      · rfl
    rw [changesSince_of_none hnone]
    exact h k
  | submitted ho he hf hr =>
    rename_i o input env r
    by_cases hk : InstanceKey.fromNode input = k
    · subst hk
      have hsome : changeOf (InstanceKey.fromNode input)
          ⟨w, ⟨.createOrUpdateAlarm o input, env, r⟩, w'⟩ = some (input.change env.now) :=
        if_pos ⟨rfl, hr hworks, he.toAsksChange⟩
      rw [changesSince, hsome]
      exact slotRecords_submitted hi he.toAsksChange hf (h _)
    · have hnone : changeOf k ⟨w, ⟨.createOrUpdateAlarm o input, env, r⟩, w'⟩ = Option.none :=
        if_neg fun hc => hk hc.1
      rw [changesSince_of_none hnone, slot_submitted_of_ne (Ne.symm hk)]
      exact h k
  | submittedPartly _ he hf => exact absurd (fresh_of_strictClock hi hclock (h _)) hf
  | purged filter =>
    rw [changesSince_of_none (changeOf_of_not_submission fun _ _ hc => by cases hc)]
    exact (hkept Option.none).purged hi h _ filter _ k
  | compressed =>
    rw [changesSince_of_none (changeOf_of_not_submission fun _ _ hc => by cases hc)]
    exact (hkept Option.none).compressed hi h _ _ k
  | scanned =>
    rw [changesSince_of_none (changeOf_of_not_submission fun _ _ hc => by cases hc)]
    exact Kept.scanned h _ k
  | controlled =>
    rw [changesSince_of_none (changeOf_of_not_submission fun _ _ hc => by cases hc)]
    exact (hkept _).controlled _ hi h k

theorem Ends.published (hi : Inv w) (he : Ends w ev w') (hf : ¬ ReusesTime ⟨w, ev, w'⟩)
    (hworks : ev.env.works = true) (h : w.operational = w.edit) : w'.operational = w'.edit := by
  rcases he.writes hi with hw | hw | ⟨-, ⟨-, hw⟩ | ⟨o, input, hcall, -, hclash⟩⟩
  · exact hw
  · rw [hw.operational, hw.edit]
    exact h
  · simp only [Env.works, hw, Bool.not_true, Bool.and_false, Bool.false_and] at hworks
    cases hworks
  · exact absurd ⟨o, input, hcall, hclash⟩ hf

/-- With a working sysrepo the datastore has the tree after every call, as long as no time is used twice. -/
theorem published_of_run (h : DaemonRun b tr w) (hr : ∀ t ∈ tr, ¬ ReusesTime t) (hworks : Works tr) :
    w.operational = w.edit := by
  refine h.invariant (I := fun tr w => (∀ t ∈ tr, ¬ ReusesTime t) → Works tr → w.operational = w.edit)
    (fun w hs _ _ => hs.boots.operational) (fun tr w ev w' hrun hi hp hr hworks => ?_) hr hworks
  have hpublished := hi (fun t ht => hr t (List.mem_cons_of_mem _ ht)) fun t ht => hworks t (List.mem_cons_of_mem _ ht)
  have hinv := Inv.of_run hrun
  exact (hp.ends hinv).published hinv (hr _ List.mem_cons_self) (hworks _ List.mem_cons_self) hpublished

theorem Clean.of_run (h : DaemonRun b tr w) (hclock : StrictClock tr) (hworks : Works tr) : Clean tr w := by
  refine h.invariant (I := fun tr w => StrictClock tr → Works tr → Clean tr w) (fun w hs _ _ => ?_)
    (fun tr w ev w' hr hi hp hclock hworks => ?_) hclock hworks
  · have hb := hs.boots
    refine ⟨hb.operational, fun k => .of_absent ?_⟩
    rw [hb.slot_eq k]
  · have hinv := Inv.of_run hr
    have hclean := hi (List.pairwise_cons.1 hclock).2 fun t ht => hworks t (List.mem_cons_of_mem _ ht)
    have hw : ev.env.works = true := hworks _ List.mem_cons_self
    have hends := hp.ends hinv
    obtain ⟨w₁, he, hs⟩ := hends.effect
    have hfresh : ¬ ReusesTime ⟨w, ev, w'⟩ := by
      rintro ⟨o, input, -, -, -, hf⟩
      exact hf (fresh_of_strictClock hinv hclock (hclean.records _))
    refine ⟨hends.published hinv hfresh hw hclean.published, fun k => ?_⟩
    rw [hs.slot]
    exact he.records hinv hclock hw hclean.records k

/-- With an increasing clock and a working sysrepo no time is used twice. -/
theorem not_reusesTime_of_clean (h : DaemonRun b tr w) (hclock : StrictClock tr) (hworks : Works tr)
    (ht : t ∈ tr) : ¬ ReusesTime t := by
  rintro ⟨o, input, -, -, -, hf⟩
  obtain ⟨tr', hs⟩ := Run.suffix_of_mem ht
  obtain ⟨hrun, -⟩ := h.of_suffix hs
  have hclock' : StrictClock (t :: tr') := hclock.sublist (hs.sublist.map _)
  have hclean := Clean.of_run hrun (List.pairwise_cons.1 hclock').2 fun u hu =>
    hworks u (hs.subset (List.mem_cons_of_mem _ hu))
  exact hf (fresh_of_strictClock (Inv.of_run hrun) hclock' (hclean.records _))

end

namespace AlarmsTest

/-- An alarm is raised, shelved, updated and compressed. -/
def mixedCalls : List (Call × Env) :=
  [(.compressAlarms .shelvedAlarms ⟨none, none, none⟩, atTime 4),
    (submit "wss" (.active .major) "Getting worse.", atTime 3),
    (.controlChanged [.alarmShelving] [⟨"shelf", ["wss"], []⟩], atTime 2),
    (submit "wss" (.active .warning) "Hey, I'm overheating.", atTime 1)]

theorem strictClock_scenario {shelving : ShelvingRules} {calls : List (Call × Env)}
    (h : ((scenario shelving calls).1.map (·.label.env.now)).Pairwise (· > ·)) :
    StrictClock (scenario shelving calls).1 := h

theorem works_scenario {shelving : ShelvingRules} {calls : List (Call × Env)}
    (h : ((scenario shelving calls).1.all fun t => t.label.env.works) = true) :
    Works (scenario shelving calls).1 :=
  fun t ht => List.all_eq_true.1 h t ht

theorem mixedCalls_run : DaemonRun (boot []) (scenario [] mixedCalls).1 (scenario [] mixedCalls).2 ∧
    StrictClock (scenario [] mixedCalls).1 ∧ Works (scenario [] mixedCalls).1 :=
  ⟨daemonRun_scenario (by decide +kernel), strictClock_scenario (by decide +kernel),
    works_scenario (by decide +kernel)⟩

end AlarmsTest
end IetfAlarms

import IetfAlarms.StatusChanges

/-!
# The history in memory and the published one

`updateByRpc` and `updateStatusChangeList` record the same change, the one with the severity that the alarm
keeps, the other with `cleared` where the alarm is cleared. So the two histories agree on all times and
texts, and on all severities but those of clears.
-/

namespace IetfAlarms
open Program Trace DataTree DataTree.Node

section
variable [Libyang] {b : Boot} {w w₁ w' : World} {ev : Event} {env : Env} {input : AlarmInput} {k : InstanceKey}
variable {e : AlarmEntry} {n : Node} {tr : History} {hs : List PublishedChange} {t : Transition World Event}

/-! ### One alarm -/

/-- A change in memory, as a reader of the tree would see it. -/
def StatusChange.shown (v : StatusChange) : Option String × Option String × Option String :=
  (some (yangTimeFormat v.time), severityName v.perceivedSeverity, some v.text)

/-- From the newest to the oldest, both have the same times, severities and texts. -/
def HistoriesAgree (e : AlarmEntry) (n : Node) : Prop :=
  (n.instances .statusChange).map readChange = e.statusChanges.reverse.map StatusChange.shown

/-- In this state the history of every alarm agrees with the published one. -/
def Agrees (w : World) : Prop :=
  ∀ k e, w.alarms.lookup k = some e →
    ∃ n, w.operational.find (alarmPath (Listing.ofShelf e.shelf) k) = some n ∧ HistoriesAgree e n

omit [Libyang] in
theorem Severity.name_ne_cleared (s : Severity) : s.name ≠ "cleared" := by
  cases s <;> simp [Severity.name]

theorem shown_eq_iff {v : StatusChange} {c : PublishedChange} (h : Describes v c) :
    readChange c.child = v.shown ↔ c.severity ≠ "cleared" := by
  obtain ⟨htime, htext, s, hs, hsev⟩ := h
  rw [readChange_child, StatusChange.shown, htime, htext, hs, severityName_value]
  rcases hsev with hsev | hsev
  · rw [hsev]
    exact iff_of_true rfl s.name_ne_cleared
  · rw [hsev]
    simp [s.name_ne_cleared.symm]

/-- The histories agree unless a clear is among them. -/
theorem historiesAgree_iff (h : Records hs e n) : HistoriesAgree e n ↔ ∀ c ∈ hs, c.severity ≠ "cleared" := by
  have hall : ∀ {vs : List StatusChange} {hs : List PublishedChange}, List.Forall₂ Describes vs hs →
      (hs.map (fun c => readChange c.child) = vs.map StatusChange.shown ↔ ∀ c ∈ hs, c.severity ≠ "cleared") := by
    intro vs hs h
    induction h with
    | nil => simp
    | cons hd _ ih =>
      rw [List.map_cons, List.map_cons, List.cons.injEq, List.forall_mem_cons, ih, shown_eq_iff hd]
  have hpublished : (n.instances .statusChange).map readChange = (hs.map fun c => readChange c.child).reverse := by
    rw [h.published, List.map_map, List.map_reverse]
    rfl
  rw [HistoriesAgree, hpublished, List.map_reverse, List.reverse_inj]
  exact hall h.changes

/-! ### Runs -/

/-- The call clears an alarm, and the change stays in its history. -/
def RecordsClear (t : Transition World Event) : Prop :=
  ∃ o input, t.label.call = .createOrUpdateAlarm o input ∧ Served o ∧ Effective t.label.env input t.before ∧
    input.severity = .cleared ∧ t.before.maxAlarmStatusChanges ≠ some 0

/-- No clear is among the changes. -/
def NoClears (changes : List PublishedChange) : Prop := ∀ c ∈ changes, c.severity ≠ "cleared"

/-- With a limit of zero a submission leaves no history. -/
theorem statusChanges_of_limit_zero (hl : w.maxAlarmStatusChanges = some 0) :
    (w.submission env input).1.statusChanges = [] := by
  rw [submission_eq]
  show List.drop (AlarmEntry.excess _ w.maxAlarmStatusChanges) _ = []
  rw [hl]
  exact List.drop_eq_nil_of_le (Nat.le_refl _)

theorem recordedIn_submitted (hi : Inv w) (hc : ∀ k, RecordedIn NoClears (w.slot k)) (he : Effective env input w)
    (hf : Fresh env input w) (hclear : input.severity = .cleared → w.maxAlarmStatusChanges = some 0) :
    RecordedIn NoClears ((w.submitted env input).slot (InstanceKey.fromNode input)) := by
  obtain ⟨changes, hno, hrec⟩ := hc (InstanceKey.fromNode input)
  have hsubmitted := slotRecords_submitted hi he.toAsksChange hf hrec
  cases hsev : input.severity with
  | active s =>
    refine ⟨_, fun c hm => ?_, hsubmitted⟩
    rcases List.mem_append.1 hm with hm | hm
    · split at hm
      · cases hm
      · exact hno c hm
    · rw [List.mem_singleton.1 hm]
      show input.severity.name ≠ "cleared"
      rw [hsev]
      exact s.name_ne_cleared
  | cleared =>
    refine ⟨[], fun c hm => absurd hm List.not_mem_nil, fun e he' => ?_⟩
    obtain ⟨n, hs, hn, -, hr⟩ := hsubmitted e he'
    have hentry : (w.submitted env input).alarms.lookup (InstanceKey.fromNode input) =
        some (w.submission env input).1 := AssocMap.lookup_set_self
    have hempty : e.statusChanges = [] := by
      rw [← Option.some.inj (hentry.symm.trans he')]
      exact statusChanges_of_limit_zero (hclear hsev)
    have hs_nil : hs = [] := by
      have hchanges := hr.changes
      rw [hempty] at hchanges
      cases hchanges
      rfl
    exact ⟨n, hs, hn, hs_nil ▸ List.suffix_rfl, hr⟩

theorem noClears_of_run (h : DaemonRun b tr w) (hr : ∀ t ∈ tr, ¬ ReusesTime t) (hc : ∀ t ∈ tr, ¬ RecordsClear t)
    (k : InstanceKey) : RecordedIn NoClears (w.slot k) := by
  refine h.invariant (I := fun tr w => (∀ t ∈ tr, ¬ ReusesTime t) → (∀ t ∈ tr, ¬ RecordsClear t) →
    ∀ k, RecordedIn NoClears (w.slot k)) (fun w hs _ _ k => ?_) (fun tr w ev w' hrun hi hp hr hc k => ?_) hr hc k
  · refine ⟨[], fun c hm => absurd hm List.not_mem_nil, .of_absent ?_⟩
    rw [hs.boots.slot_eq k]
  · have hinv := Inv.of_run hrun
    obtain ⟨w₁, he, hs⟩ := (hp.ends hinv).effect
    have hrec := hi (fun t ht => hr t (List.mem_cons_of_mem _ ht)) fun t ht => hc t (List.mem_cons_of_mem _ ht)
    rw [hs.slot]
    refine he.recordedIn hinv (hr _ List.mem_cons_self) hrec (fun o input env r hev ho he hf => ?_) k
    refine recordedIn_submitted hinv hrec he hf fun hsev => ?_
    by_contra hlimit
    refine hc _ List.mem_cons_self ⟨o, input, congrArg Event.call hev, ho, ?_, hsev, hlimit⟩
    rw [hev]
    exact he

/-- Agreement, alarm by alarm. -/
theorem agrees_iff (hp : w.operational = w.edit) (hrec : ∀ k, Recorded (w.slot k)) :
    Agrees w ↔ ∀ k, RecordedIn NoClears (w.slot k) := by
  constructor
  · intro h k
    obtain ⟨changes, -, hc⟩ := hrec k
    cases he : w.alarms.lookup k with
    | none => exact ⟨[], fun c hm => absurd hm List.not_mem_nil, .of_absent he⟩
    | some e =>
      obtain ⟨n, hs, hn, -, hr⟩ := hc e he
      obtain ⟨n', hn', hagree⟩ := h k e he
      rw [hp] at hn'
      obtain rfl := Option.some.inj ((show w.edit.find _ = some n from hn).symm.trans hn')
      refine ⟨hs, (historiesAgree_iff hr).1 hagree, fun e' he' => ?_⟩
      obtain rfl := Option.some.inj ((show (w.slot k).entry = some e from he).symm.trans he')
      exact ⟨n, hs, hn, List.suffix_rfl, hr⟩
  · intro h k e he
    obtain ⟨changes, hno, hc⟩ := h k
    obtain ⟨n, hs, hn, hsuffix, hr⟩ := hc e he
    refine ⟨n, ?_, (historiesAgree_iff hr).2 fun c hm => hno c (hsuffix.subset hm)⟩
    rw [hp]
    exact hn

/-- A clear that stays in the history is published as one. -/
theorem not_noClears_of_clear (hsev : input.severity = .cleared)
    (hl : w.maxAlarmStatusChanges ≠ some 0) :
    ¬ RecordedIn NoClears ((w.submitted env input).slot (InstanceKey.fromNode input)) := by
  rintro ⟨changes, hno, hc⟩
  have hentry : ((w.submitted env input).slot (InstanceKey.fromNode input)).entry = some (w.submission env input).1 :=
    AssocMap.lookup_set_self
  obtain ⟨n, hs, -, hsuffix, hr⟩ := hc _ hentry
  have hne : (w.submission env input).1.statusChanges ≠ [] :=
    statusChanges_shrink_ne_nil hl (List.append_ne_nil_of_right_ne_nil _ (List.cons_ne_nil _ _))
  have hs_ne : hs ≠ [] := by
    rintro rfl
    exact hne (List.forall₂_nil_right_iff.1 hr.changes)
  have hlast := hr.latest _ (List.getLast?_eq_some_getLast hs_ne)
  refine hno _ (hsuffix.subset (List.getLast_mem hs_ne)) ?_
  rw [hlast, publishedChange_submission]
  exact congrArg SeverityWithClear.name hsev

/-- The run that ends with one of its calls. -/
theorem run_through (h : DaemonRun b tr w) (ht : t ∈ tr) :
    ∃ tr', t :: tr' <:+ tr ∧ DaemonRun b tr' t.before ∧ DaemonRun b (t :: tr') t.after := by
  obtain ⟨tr', hs⟩ := Run.suffix_of_mem ht
  obtain ⟨hrun, hstep⟩ := h.of_suffix hs
  exact ⟨tr', hs, hrun, .step hrun hstep⟩

/-- The histories agree after every call of a run if and only if no call of it puts a clear into one. -/
theorem agrees_iff_of_run (h : DaemonRun b tr w) (hclock : StrictClock tr) (hworks : Works tr) :
    (∀ t ∈ tr, Agrees t.after) ↔ ∀ t ∈ tr, ¬ RecordsClear t := by
  have hfresh : ∀ t ∈ tr, ¬ ReusesTime t := fun t ht => not_reusesTime_of_clean h hclock hworks ht
  have hagrees : ∀ {t tr'}, t :: tr' <:+ tr → DaemonRun b (t :: tr') t.after →
      (Agrees t.after ↔ ∀ k, RecordedIn NoClears (t.after.slot k)) := fun hs hrun =>
    agrees_iff (published_of_run hrun (fun u hu => hfresh u (hs.subset hu)) fun u hu => hworks u (hs.subset hu))
      (recorded_of_run hrun fun u hu => hfresh u (hs.subset hu))
  constructor
  · rintro hall t ht ⟨o, input, hcall, ho, he, hsev, hl⟩
    obtain ⟨tr', hs, hbefore, hrun⟩ := run_through h ht
    have hno := (hagrees hs hrun).1 (hall t ht) (InstanceKey.fromNode input)
    have hperforms := (h.of_suffix hs).2
    obtain ⟨w₀, ⟨call, env, r⟩, w₁⟩ := t
    obtain rfl : call = _ := hcall
    have hf : Fresh env input w₀ := by
      by_contra hf
      exact hfresh _ ht ⟨o, input, rfl, ho, he, hf⟩
    have hsame := (hperforms.ends (Inv.of_run hbefore)).submitted_of_fresh ho he hf
    rw [hsame.slot] at hno
    exact not_noClears_of_clear hsev hl hno
  · intro hall t ht
    obtain ⟨tr', hs, -, hrun⟩ := run_through h ht
    exact (hagrees hs hrun).2 (noClears_of_run hrun (fun u hu => hfresh u (hs.subset hu))
      fun u hu => hall u (hs.subset hu))

/-- What agreement says of an alarm in `alarm-list`. -/
theorem Agrees.shown (h : Agrees w) (he : ((w.alarms.lookup k).any fun e => e.shelf.isNone) = true) :
    ((w.operational.find (alarmPath .alarmList k)).map fun n => (n.instances .statusChange).map readChange) =
      (w.alarms.lookup k).map fun e => e.statusChanges.reverse.map StatusChange.shown := by
  obtain ⟨e, hl, hshelf⟩ := Option.any_eq_true .. |>.1 he
  have hshelf : e.shelf = none := Option.isNone_iff_eq_none.1 hshelf
  obtain ⟨n, hn, hagree⟩ := h k e hl
  rw [hshelf] at hn
  have hn' : w.operational.find (alarmPath .alarmList k) = some n := hn
  rw [hn', hl]
  exact congrArg some hagree

end

namespace AlarmsTest

theorem agrees_mixed : (∀ t ∈ (scenario [] mixedCalls).1, Agrees t.after) ↔
    ∀ t ∈ (scenario [] mixedCalls).1, ¬ RecordsClear t := by
  obtain ⟨hrun, hclock, hworks⟩ := mixedCalls_run
  exact agrees_iff_of_run hrun hclock hworks

/-- An alarm is raised and cleared. -/
def raisedAndClearedCalls : List (Call × Env) :=
  [(submit "wss" .cleared "Functioning within normal parameters.", atTime 2),
    (submit "wss" (.active .major) "Hey, I'm overheating.", atTime 1)]

theorem raisedAndClearedCalls_run :
    DaemonRun (boot []) (scenario [] raisedAndClearedCalls).1 (scenario [] raisedAndClearedCalls).2 :=
  daemonRun_scenario (by decide +kernel)

/-- The entry has recorded the clear as major. -/
theorem not_agrees_cleared : ¬ ∀ (b : Boot) (tr : History) (w : World), DaemonRun b tr w → StrictClock tr →
    Works tr → Agrees w := by
  intro hall
  have hagrees := hall _ _ _ raisedAndClearedCalls_run (strictClock_scenario (by decide +kernel))
    (works_scenario (by decide +kernel))
  have hshown := hagrees.shown (k := key "wss") (by decide +kernel)
  revert hshown
  decide +kernel

end AlarmsTest
end IetfAlarms

import IetfAlarms.Notifications
import IetfAlarms.Submissions

/-!
# What a subscriber knows

A subscriber sees nothing of the alarms but their notifications. What the latest one tells of an alarm depends
on the mode (`Informs`): with `all-state-changes` it is the alarm's current state; with `raise-and-clear` it
says whether the alarm is active; with `severity-level` it says whether the alarm is at the threshold or above
and, if so, what its state is. In every mode a cleared alarm is known in full.
-/

namespace IetfAlarms
open Program Trace

section
variable [Libyang] {b : Boot} {w w' : World} {ev : Event} {env : Env} {input : AlarmInput} {k : InstanceKey}
variable {tr : History} {o : String} {r : Except Failure Reply} {e e' : AlarmEntry}
variable {mode : NotifyStatusChanges} {threshold : Int} {found : Option AlarmEntry} {known : Option AlarmNotification}

/-! ### Notices -/

/-- What a notification of the alarm in its current state says. -/
def AlarmEntry.notice (k : InstanceKey) (e : AlarmEntry) : AlarmNotification where
  resource := k.resource
  alarmTypeId := k.type.id.text
  time := yangTimeFormat e.lastChanged
  alarmText := e.text
  alarmTypeQualifier := if k.type.qualifier = "" then none else some k.type.qualifier
  perceivedSeverity := e.publishedChange.severity

theorem AlarmEntry.notice_isFor (k : InstanceKey) (e : AlarmEntry) : (e.notice k).IsFor k := ⟨rfl, rfl, rfl⟩

theorem AlarmEntry.notice_congr (h : e'.fields = e.fields) : e'.notice k = e.notice k := by
  unfold AlarmEntry.fields at h
  simp only [Fields.mk.injEq] at h
  obtain ⟨-, -, hlast, hsev, hcleared, htext⟩ := h
  unfold AlarmEntry.notice AlarmEntry.publishedChange
  rw [hlast, hsev, hcleared, htext]

instance (content : AlarmNotification) (k : InstanceKey) : Decidable (content.IsFor k) :=
  decidable_of_iff (_ ∧ _ ∧ _) ⟨fun h => ⟨h.1, h.2.1, h.2.2⟩,
    fun h => ⟨h.resource, h.alarmTypeId, h.alarmTypeQualifier⟩⟩

def noticeFor (k : InstanceKey) : Notification → Option AlarmNotification
  | .alarm content => if content.IsFor k then some content else none
  | .alarmInventoryChanged => none

/-- The latest notification of an alarm since it was last absent. -/
def heard (k : InstanceKey) : History → Option AlarmNotification
  | [] => none
  | t :: tr => ((sentBy t).findSome? (noticeFor k)).or
    (if (t.before.alarms.lookup k).isNone then none else heard k tr)

/-! ### What is known in each mode -/

/-- The alarm is active and not below this severity. -/
def AlarmEntry.Reaches (threshold : Int) (e : AlarmEntry) : Prop := e.isCleared = false ∧ threshold ≤ e.lastSeverity

def AlarmNotification.Reaches (threshold : Int) (content : AlarmNotification) : Prop :=
  ∃ s : Severity, content.perceivedSeverity = s.name ∧ threshold ≤ s.value

/-- What is known of an alarm in this mode. -/
def Tells (mode : NotifyStatusChanges) (threshold : Int) (k : InstanceKey) (e : AlarmEntry)
    (known : Option AlarmNotification) : Prop :=
  match mode with
  | .all => known = some (e.notice k)
  | .raiseAndClear => ∃ content, known = some content ∧ (content.perceivedSeverity = "cleared" ↔ e.isCleared = true)
  | .bySeverity => (e.Reaches threshold → known = some (e.notice k)) ∧
      ∀ content, known = some content → content.Reaches threshold → e.Reaches threshold

structure Informs (mode : NotifyStatusChanges) (threshold : Int) (k : InstanceKey) (e : AlarmEntry)
    (known : Option AlarmNotification) : Prop where
  cleared : e.isCleared = true → known = some (e.notice k)
  tells : Tells mode threshold k e known

omit [Libyang] in
theorem Severity.cleared_ne_name (s : Severity) : "cleared" ≠ s.name := by cases s <;> decide

theorem AlarmEntry.notice_cleared (hsev : ∃ s : Severity, e.lastSeverity = s.value) :
    (e.notice k).perceivedSeverity = "cleared" ↔ e.isCleared = true := by
  obtain ⟨s, hs⟩ := hsev
  unfold AlarmEntry.notice AlarmEntry.publishedChange
  rw [hs, severityName_value]
  cases e.isCleared with
  | true => exact iff_of_true rfl rfl
  | false => exact iff_of_false s.cleared_ne_name.symm Bool.false_ne_true

theorem AlarmEntry.notice_reaches (hsev : ∃ s : Severity, e.lastSeverity = s.value)
    (h : (e.notice k).Reaches threshold) : e.Reaches threshold := by
  obtain ⟨s', hname, hle⟩ := h
  have hactive : e.isCleared = false := by
    by_contra hc
    rw [(AlarmEntry.notice_cleared hsev).2 ((Bool.not_eq_false _).mp hc)] at hname
    exact s'.cleared_ne_name hname
  obtain ⟨s, hs⟩ := hsev
  have hsame : (severityName e.lastSeverity).getD "" = s'.name := by
    unfold AlarmEntry.notice AlarmEntry.publishedChange at hname
    rw [hactive] at hname
    exact hname
  rw [hs, severityName_value, Option.getD_some] at hsame
  rw [Severity.name_injective hsame] at hs
  exact ⟨hactive, hs ▸ hle⟩

namespace Informs

/-- An alarm that has just been notified is known in full. -/
theorem of_notice (hsev : ∃ s : Severity, e.lastSeverity = s.value) :
    Informs mode threshold k e (some (e.notice k)) := by
  refine ⟨fun _ => rfl, ?_⟩
  cases mode with
  | all => rfl
  | raiseAndClear => exact ⟨_, rfl, AlarmEntry.notice_cleared hsev⟩
  | bySeverity =>
    refine ⟨fun _ => rfl, fun content hcontent hreaches => ?_⟩
    cases hcontent
    exact AlarmEntry.notice_reaches hsev hreaches

/-- Only the fields that submissions determine matter. -/
theorem congr (hf : e'.fields = e.fields) (h : Informs mode threshold k e known) :
    Informs mode threshold k e' known := by
  have hnotice : e'.notice k = e.notice k := AlarmEntry.notice_congr hf
  unfold AlarmEntry.fields at hf
  simp only [Fields.mk.injEq] at hf
  obtain ⟨-, -, -, hsev, hcleared, -⟩ := hf
  obtain ⟨hknown, htells⟩ := h
  refine ⟨fun hc => ?_, ?_⟩
  · rw [hnotice]
    exact hknown (hcleared ▸ hc)
  · unfold Tells AlarmEntry.Reaches at htells ⊢
    rw [hnotice, hcleared, hsev]
    exact htells

/-- A change that is not notified is one that the mode leaves out. -/
theorem unnotified (hn : AlarmEntry.notifies found input mode threshold = false)
    (hcleared : e.isCleared = input.isClearedNow)
    (hsev : ∀ s, input.severity = .active s → e.lastSeverity = s.value) (habsent : found = none → known = none)
    (h : ∀ e₀, found = some e₀ → Informs mode threshold k e₀ known) : Informs mode threshold k e known := by
  unfold AlarmEntry.notifies at hn
  rw [Bool.or_eq_false_iff] at hn
  obtain ⟨hactive, hn⟩ := hn
  rw [hactive] at hcleared
  refine ⟨fun hc => absurd (hc.symm.trans hcleared) Bool.noConfusion, ?_⟩
  cases mode with
  | all => cases hn
  | raiseAndClear =>
    cases found with
    | none => cases hn
    | some e₀ =>
      obtain ⟨content, hcontent, hiff⟩ := (h e₀ rfl).tells
      have hactive₀ : e₀.isCleared = false := hn
      rw [hactive₀] at hiff
      rw [← hcleared] at hiff
      exact ⟨content, hcontent, hiff⟩
  | bySeverity =>
    simp only [Bool.or_eq_false_iff, decide_eq_false_iff_not] at hn
    obtain ⟨hbelow, hbelow₀⟩ := hn
    have hnot : ¬ e.Reaches threshold := by
      rintro ⟨-, hle⟩
      cases hs : input.severity with
      | cleared =>
        rw [AlarmEntry.isClearedNow_eq_true hs] at hactive
        cases hactive
      | active s =>
        rw [hsev s hs] at hle
        rw [hs] at hbelow
        exact hbelow hle
    refine ⟨fun hreaches => absurd hreaches hnot, fun content hcontent hreaches => ?_⟩
    cases found with
    | none =>
      rw [habsent rfl] at hcontent
      cases hcontent
    | some e₀ => exact absurd ((h e₀ rfl).tells.2 content hcontent hreaches).2 hbelow₀

end Informs

/-! ### Calls -/

/-- The settings that the submissions of a run found. -/
def SettledOn (mode : NotifyStatusChanges) (threshold : Int) (tr : History) : Prop :=
  ∀ t ∈ tr, ∀ o input, t.label.call = .createOrUpdateAlarm o input → t.before.notifyStatusChanges = mode ∧
    (mode = .bySeverity → t.before.notifySeverityThreshold = some threshold)

/-- Every submission that changes its alarm gets to its end. -/
def Undisturbed (tr : History) : Prop :=
  ∀ t ∈ tr, ∀ o input, t.label.call = .createOrUpdateAlarm o input → Effective t.label.env input t.before →
    Deliverable t.label.env input t.before

/-- The call is a submission that changes this alarm. -/
def Changes (k : InstanceKey) (w : World) (ev : Event) : Prop :=
  ∃ o input, ev.call = .createOrUpdateAlarm o input ∧ InstanceKey.fromNode input = k ∧ Served o ∧
    Effective ev.env input w

/-- Other calls send nothing about the alarm. -/
theorem Ends.noNotice (h : Ends w ev w') (hn : ¬ Changes k w ev) :
    (sentBy ⟨w, ev, w'⟩).findSome? (noticeFor k) = none := by
  by_cases hcall : ∃ o input, ev.call = .createOrUpdateAlarm o input
  · obtain ⟨call, env, r⟩ := ev
    obtain ⟨o, input, rfl⟩ := hcall
    rcases h.sent with ⟨hd, hsent⟩ | ⟨hd, hsent⟩
    · have hby : sentBy ⟨w, ⟨.createOrUpdateAlarm o input, env, r⟩, w'⟩ = [w.notification env input] :=
        sentBy_of_eq hsent
      have hfor : ¬ ((w.submission env input).1.notice (InstanceKey.fromNode input)).IsFor k := fun hfor =>
        hn ⟨o, input, rfl, (AlarmEntry.notice_isFor _ _).unique hfor, hd.served, hd.toEffective⟩
      rw [hby, List.findSome?_singleton]
      exact if_neg hfor
    · have hby : sentBy ⟨w, ⟨.createOrUpdateAlarm o input, env, r⟩, w'⟩ = [] := sentBy_of_eq hsent
      rw [hby]
      rfl
  · rcases h.sent_of_other fun o input hc => hcall ⟨o, input, hc⟩ with hsent | hsent
    · have hby : sentBy ⟨w, ev, w'⟩ = [] := sentBy_of_eq hsent
      rw [hby]
      rfl
    · have hby : sentBy ⟨w, ev, w'⟩ = [.alarmInventoryChanged] := sentBy_of_eq hsent
      rw [hby]
      rfl

/-- And they leave alone what it tells. -/
theorem Ends.keepsFields_of_not_changes (hi : Inv w) (h : Ends w ev w') (hn : ¬ Changes k w ev) :
    KeepsFields w k (w'.slot k) := by
  cases ha : acceptedOf k ⟨w, ev, w'⟩ with
  | none => exact h.keepsFields hi ha
  | some s =>
    obtain ⟨o, input, hcall, hk, haccepted, -⟩ := acceptedOf_eq_some ha
    obtain ⟨call, env, r⟩ := ev
    cases hcall
    have hsame := h.alarms_of_not_effective fun he => hn ⟨o, input, rfl, hk, he.1, he.2⟩
    intro e he
    refine ⟨e, ?_, rfl⟩
    rw [← hsame]
    exact he

omit [Libyang] in
/-- The threshold matters in one mode only. -/
theorem toNotify_of_settings (hmode : w.notifyStatusChanges = mode)
    (hthreshold : mode = .bySeverity → w.notifySeverityThreshold = some threshold) :
    w.toNotify env input = AlarmEntry.notifies (w.alarms.lookup (InstanceKey.fromNode input)) input mode threshold := by
  unfold World.toNotify
  rw [hmode]
  cases mode with
  | all => rfl
  | raiseAndClear => rfl
  | bySeverity => rw [hthreshold rfl, Option.getD_some]

theorem submission_clearance (env : Env) (input : AlarmInput) (w : World) :
    (w.submission env input).1.isCleared = input.isClearedNow ∧
      ∀ s, input.severity = .active s → (w.submission env input).1.lastSeverity = s.value := by
  rw [submission_eq]
  refine ⟨rfl, fun s hs => ?_⟩
  show AlarmEntry.nextSeverity _ input.severity = s.value
  rw [hs]
  rfl

/-- What is known of an alarm after a submission that changes it. -/
theorem Ends.informs (hi : Inv w) (h : Ends w ⟨.createOrUpdateAlarm o input, env, r⟩ w')
    (hk : InstanceKey.fromNode input = k) (ho : Served o) (he : Effective env input w) (hd : Deliverable env input w)
    (hmode : w.notifyStatusChanges = mode)
    (hthreshold : mode = .bySeverity → w.notifySeverityThreshold = some threshold)
    (hbefore : ∀ e, w.alarms.lookup k = some e → Informs mode threshold k e (heard k tr)) :
    Informs mode threshold k (w.submission env input).1
      (heard k (⟨w, ⟨.createOrUpdateAlarm o input, env, r⟩, w'⟩ :: tr)) := by
  subst hk
  rw [heard]
  cases hn : w.toNotify env input with
  | true =>
    have hdelivers : Delivers o env input w := ⟨he, hd, ho, hn⟩
    have hby : sentBy ⟨w, ⟨.createOrUpdateAlarm o input, env, r⟩, w'⟩ = [w.notification env input] :=
      sentBy_of_eq (h.sent.resolve_right fun hs => hs.1 hdelivers).2
    have hnotice : noticeFor (InstanceKey.fromNode input) (w.notification env input) =
        some ((w.submission env input).1.notice (InstanceKey.fromNode input)) :=
      if_pos (AlarmEntry.notice_isFor _ _)
    rw [hby, List.findSome?_singleton, hnotice, Option.some_or]
    exact .of_notice (submission_severity env hi he.notCleared)
  | false =>
    have hby : sentBy ⟨w, ⟨.createOrUpdateAlarm o input, env, r⟩, w'⟩ = [] := by
      refine sentBy_of_eq (h.sent.resolve_left fun hs => ?_).2
      exact Bool.false_ne_true (hn.symm.trans hs.1.notifies)
    obtain ⟨hcleared, hsev⟩ := submission_clearance env input w
    rw [toNotify_of_settings hmode hthreshold] at hn
    rw [hby, List.findSome?_nil, Option.none_or]
    refine .unnotified hn hcleared hsev (fun hnone => ?_) fun e₀ he₀ => ?_
    · rw [hnone]
      rfl
    · rw [he₀]
      exact hbefore e₀ he₀

/-! ### Runs -/

/-- In a mode that does not change, and if every change gets to its end, the latest notification of an alarm
tells of it what the mode is to tell. -/
theorem informs_of_run (h : DaemonRun b tr w) (hs : SettledOn mode threshold tr) (hu : Undisturbed tr)
    (he : w.alarms.lookup k = some e) : Informs mode threshold k e (heard k tr) := by
  refine h.invariant (I := fun tr w => SettledOn mode threshold tr → Undisturbed tr →
    ∀ e, w.alarms.lookup k = some e → Informs mode threshold k e (heard k tr)) (fun w hstart _ _ e he => ?_)
    (fun tr w ev w' hr ih hp hs hu e' he' => ?_) hs hu e he
  · rw [hstart.boots.alarms] at he
    cases he
  · have hi := Inv.of_run hr
    have hends := hp.ends hi
    have hbefore := ih (fun t ht => hs t (List.mem_cons_of_mem _ ht)) fun t ht => hu t (List.mem_cons_of_mem _ ht)
    by_cases hc : Changes k w ev
    · obtain ⟨o, input, hcall, hk, ho, heffective⟩ := hc
      obtain ⟨call, env, r⟩ := ev
      cases hcall
      obtain ⟨hmode, hthreshold⟩ := hs _ List.mem_cons_self o input rfl
      have hentry := hends.lookup_of_effective ho heffective
      rw [hk, he'] at hentry
      cases hentry
      exact hends.informs hi hk ho heffective (hu _ List.mem_cons_self o input rfl heffective) hmode hthreshold hbefore
    · obtain ⟨e, he, hfields⟩ := hends.keepsFields_of_not_changes hi hc e' he'
      rw [heard, hends.noNotice hc, Option.none_or]
      simp only [he]
      exact (hbefore e he).congr hfields

end

namespace AlarmsTest

/-- With the threshold `major`, an alarm is raised as major and drops to a warning, which is still notified; then
only its text changes. -/
def loweredCalls : List (Call × Env) :=
  [(submit "wss" (.active .warning) "Cooling down.", atTime 4),
    (submit "wss" (.active .warning) "Getting better.", atTime 3),
    (submit "wss" (.active .major) "Hey, I'm overheating.", atTime 2),
    (.controlChanged [.notifyStatusChanges .bySeverity, .notifySeverityLevel (some .major)] [], atTime 1)]

def settled (mode : NotifyStatusChanges) (threshold : Int) (t : Transition World Event) : Bool :=
  match t.label.call with
  | .createOrUpdateAlarm _ _ =>
    decide (t.before.notifyStatusChanges = mode ∧ t.before.notifySeverityThreshold = some threshold)
  | _ => true

def undisturbed (t : Transition World Event) : Bool :=
  match t.label.call with
  | .createOrUpdateAlarm _ input => ((t.before.target input).child (changeStep t.label.env.now)).isNone &&
      !t.label.env.writeThrows && !t.label.env.sendNotificationThrows
  | _ => true

theorem settledOn_of_all {mode : NotifyStatusChanges} {threshold : Int} {tr : History}
    (h : tr.all (settled mode threshold) = true) : SettledOn mode threshold tr := by
  intro t ht o input hcall
  have hs := List.all_eq_true.1 h t ht
  rw [settled, hcall] at hs
  exact (of_decide_eq_true hs).imp id fun hthreshold _ => hthreshold

theorem undisturbed_of_all {tr : History} (h : tr.all undisturbed = true) : Undisturbed tr := by
  intro t ht o input hcall _
  have hs := List.all_eq_true.1 h t ht
  rw [undisturbed, hcall] at hs
  simp only [Bool.and_eq_true, Bool.not_eq_true', Option.isNone_iff_eq_none] at hs
  exact ⟨hs.1.1, hs.1.2, hs.2⟩

def loweredEntry : AlarmEntry where
  created := 2
  lastRaised := 2
  lastChanged := 4
  text := "Cooling down."
  shelf := none
  lastSeverity := 3
  isCleared := false
  statusChanges := [⟨2, 5, "Hey, I'm overheating."⟩, ⟨3, 3, "Getting better."⟩, ⟨4, 3, "Cooling down."⟩]

theorem informs_of_run_lowered :
    Informs .bySeverity 5 (key "wss") loweredEntry (heard (key "wss") (scenario [] loweredCalls).1) := by
  have hrun : DaemonRun (boot []) (scenario [] loweredCalls).1 (scenario [] loweredCalls).2 :=
    daemonRun_scenario (by decide +kernel)
  have he : (scenario [] loweredCalls).2.alarms.lookup (key "wss") = some loweredEntry := by decide +kernel
  exact informs_of_run hrun (settledOn_of_all (by decide +kernel)) (undisturbed_of_all (by decide +kernel)) he

/-- What is known is the first of the warnings. -/
example : (heard (key "wss") (scenario [] loweredCalls).1).map (fun content => (content.alarmText, content.perceivedSeverity)) =
    some ("Getting better.", "warning") := by decide +kernel

end AlarmsTest

end IetfAlarms

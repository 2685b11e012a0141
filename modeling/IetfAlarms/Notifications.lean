import IetfAlarms.History

/-!
# Which notifications are sent

A submission sends at most one notification, of its own alarm (`Ends.sent`). It is sent for a shelved alarm
as for any other. In the mode `severity-level` the severity from before a clear counts, so that an alarm
that is raised again below the threshold is notified too.
-/

namespace IetfAlarms
open Program Trace DataTree DataTree.Node

section
variable [Libyang] {b : Boot} {w w' : World} {ev : Event} {env : Env} {input : AlarmInput} {k : InstanceKey}
variable {tr : History} {t : Transition World Event} {o : String} {r : Except Failure Reply}
variable {found : Option AlarmEntry} {mode : NotifyStatusChanges} {threshold : Int}

/-! ### Sending -/

/-- Nothing keeps an effective submission from getting to its end: the alarm has no status change of this
time yet, and neither the write nor the notification fails. -/
structure Deliverable (env : Env) (input : AlarmInput) (w : World) : Prop where
  fresh : Fresh env input w
  writes : env.writeThrows = false
  sends : env.sendNotificationThrows = false

/-- The submission is one that sends its notification. -/
structure Delivers (o : String) (env : Env) (input : AlarmInput) (w : World) : Prop
    extends Effective env input w, Deliverable env input w where
  served : Served o
  notifies : w.toNotify env input = true

/-- The alarm's notification after an effective submission. -/
def World.notification (env : Env) (input : AlarmInput) (w : World) : Notification :=
  (w.submission env input).1.notification (InstanceKey.fromNode input)

omit [Libyang] in
theorem writtenAndNotified_cases {α : Type} {a : α} {notification : Option Notification} {r : Except Failure α}
    (h : writtenAndNotified env a w notification = (r, w')) :
    env.writeThrows = true ∧ w' = w ∨
      env.writeThrows = false ∧ (notification = none ∨ env.sendNotificationThrows = true) ∧ w' = w.published ∨
      env.writeThrows = false ∧ env.sendNotificationThrows = false ∧
        ∃ n, notification = some n ∧ w' = w.published.notified n := by
  unfold writtenAndNotified at h
  split at h
  · rename_i hw
    cases h
    exact .inl ⟨hw, rfl⟩
  · rename_i hw
    have hw := Bool.eq_false_iff.2 hw
    split at h
    · cases h
      exact .inr (.inl ⟨hw, .inl rfl, rfl⟩)
    · rename_i n
      split at h
      · rename_i hs
        cases h
        exact .inr (.inl ⟨hw, .inr hs, rfl⟩)
      · rename_i hs
        cases h
        exact .inr (.inr ⟨hw, Bool.eq_false_iff.2 hs, n, rfl, rfl⟩)

theorem announcement_eq_some {n : Notification} :
    w.announcement env input = some n ↔ w.toNotify env input = true ∧ n = w.notification env input := by
  unfold World.announcement World.notification
  rw [Option.ite_none_right_eq_some, Option.some_inj, eq_comm (a := n)]

/-- A submission sends its notification or none. -/
theorem Ends.sent (h : Ends w ⟨.createOrUpdateAlarm o input, env, r⟩ w') :
    Delivers o env input w ∧ w'.sent = w.notification env input :: w.sent ∨
      ¬ Delivers o env input w ∧ w'.sent = w.sent := by
  cases h with
  | refused he _ hw =>
    refine .inr ⟨fun hd => he hd.served hd.toEffective, ?_⟩
    rcases hw with rfl | rfl
    · rfl
    · rfl
  | idle hn => exact .inr ⟨fun hd => hn hd.toAsksChange, rfl⟩
  | clash _ _ hf => exact .inr ⟨fun hd => hf hd.fresh, rfl⟩
  | changed ho he hf hr =>
    rcases writtenAndNotified_cases hr with ⟨hw, rfl⟩ | ⟨hw, hn, rfl⟩ | ⟨hw, hs, n, hn, rfl⟩
    · refine .inr ⟨fun hd => ?_, rfl⟩
      exact Bool.false_ne_true (hd.writes.symm.trans hw)
    · refine .inr ⟨fun hd => ?_, rfl⟩
      rcases hn with hn | hs
      · have hsome := announcement_eq_some.2 ⟨hd.notifies, rfl⟩
        rw [hn] at hsome
        cases hsome
      · exact Bool.false_ne_true (hd.sends.symm.trans hs)
    · obtain ⟨hnotify, rfl⟩ := announcement_eq_some.1 hn
      exact .inl ⟨⟨he, ⟨hf, hw, hs⟩, ho, hnotify⟩, rfl⟩

/-- Any other call sends at most that the inventory has changed. -/
theorem Ends.sent_of_other (h : Ends w ev w') (hn : ∀ o input, ev.call ≠ .createOrUpdateAlarm o input) :
    w'.sent = w.sent ∨ w'.sent = .alarmInventoryChanged :: w.sent := by
  have hwritten : ∀ {env : Env} {w₁ w' : World} {reply : Reply} {r : Except Failure Reply},
      written env w₁ reply = (r, w') → w₁.sent = w.sent → w'.sent = w.sent := by
    intro env w₁ w' reply r hr hs
    rcases written_cases hr with ⟨-, -, rfl⟩ | ⟨-, -, rfl⟩
    · exact hs
    · exact hs
  cases h with
  | refused => exact absurd rfl (hn _ _)
  | idle => exact absurd rfl (hn _ _)
  | clash => exact absurd rfl (hn _ _)
  | changed => exact absurd rfl (hn _ _)
  | purge hr =>
    rename_i l input env r
    unfold purgeResult at hr
    split at hr
    · cases hr
      exact .inl rfl
    · rename_i filter _
      simp only at hr
      split at hr
      · cases hr
        exact .inl rfl
      · have hs := congrArg (fun w : World => w.sent) (w.purged_frame l filter env.now)
        exact .inl (hwritten hr hs)
  | compress hr =>
    rename_i l input env r
    unfold compressResult at hr
    simp only at hr
    split at hr
    · cases hr
      exact .inl rfl
    · have hs := congrArg (fun w : World => w.sent) (w.compressed_frame l (compressFilter input))
      exact .inl (hwritten hr hs)
  | control hr =>
    rename_i changes shelving env r
    have hscanned : (w.scanned changes).sent = w.sent := by rw [World.scanned_eq]
    have hframe := congrArg (fun w : World => w.sent) (World.controlled_frame env.now changes shelving w)
    have hs : (w.controlled env.now changes shelving).sent = w.sent := Eq.trans hframe hscanned
    unfold controlResult at hr
    split at hr
    · cases hr
      exact .inl hscanned
    · split at hr
      · exact .inl (hwritten hr hs)
      · cases hr
        exact .inl hs
  | inventory hr =>
    unfold inventoryResult at hr
    split at hr
    · cases hr
      exact .inl rfl
    · cases hr
      exact .inr rfl

/-! ### Notifications of shelved alarms -/

/-- The notification is about this alarm. -/
structure AlarmNotification.IsFor (content : AlarmNotification) (k : InstanceKey) : Prop where
  resource : content.resource = k.resource
  alarmTypeId : content.alarmTypeId = k.type.id.text
  alarmTypeQualifier : content.alarmTypeQualifier = if k.type.qualifier = "" then none else some k.type.qualifier

/-- What the call sent, the latest first. -/
def sentBy (t : Transition World Event) : List Notification :=
  t.after.sent.take (t.after.sent.length - t.before.sent.length)

/-- The call sent a notification of an alarm that is shelved. -/
def SendsForShelved (t : Transition World Event) : Prop :=
  ∃ content k e, .alarm content ∈ sentBy t ∧ content.IsFor k ∧ t.after.alarms.lookup k = some e ∧ e.shelf.isSome

/-- The call submits a change that is to be notified, of an alarm that the rules shelve, and neither the
write nor the notification fails. -/
def NotifiesShelved (t : Transition World Event) : Prop :=
  ∃ o input, t.label.call = .createOrUpdateAlarm o input ∧ Delivers o t.label.env input t.before ∧
    (findMatchingShelf (InstanceKey.fromNode input) t.before.rules).isSome

omit [Libyang] in
theorem AlarmNotification.IsFor.unique {content : AlarmNotification} {k k' : InstanceKey} (h : content.IsFor k)
    (h' : content.IsFor k') : k = k' := by
  have hr := h.resource.symm.trans h'.resource
  have ht := h.alarmTypeId.symm.trans h'.alarmTypeId
  have hq := h.alarmTypeQualifier.symm.trans h'.alarmTypeQualifier
  obtain ⟨⟨⟨id, hid⟩, q⟩, x⟩ := k
  obtain ⟨⟨⟨id', hid'⟩, q'⟩, x'⟩ := k'
  simp only at hr ht hq
  subst hr ht
  have hqq : q = q' := by
    by_cases hz : q = ""
    · by_cases hz' : q' = ""
      · rw [hz, hz']
      · rw [if_pos hz, if_neg hz'] at hq
        cases hq
    · rw [if_neg hz] at hq
      by_cases hz' : q' = ""
      · rw [if_pos hz'] at hq
        cases hq
      · rw [if_neg hz'] at hq
        exact Option.some.inj hq
  rw [hqq]

theorem AlarmEntry.notification_isFor (e : AlarmEntry) (k : InstanceKey) :
    ∃ content, e.notification k = .alarm content ∧ content.IsFor k ∧ content.time = yangTimeFormat e.lastChanged ∧
      content.alarmText = e.text ∧ content.perceivedSeverity = e.publishedChange.severity :=
  ⟨_, rfl, ⟨rfl, rfl, rfl⟩, rfl, rfl, rfl⟩

omit [Libyang] in
theorem sentBy_of_eq {news : List Notification} (h : w'.sent = news ++ w.sent) : sentBy ⟨w, ev, w'⟩ = news := by
  unfold sentBy
  rw [h, List.length_append, Nat.add_sub_cancel, List.take_left]

theorem sendsForShelved_iff (hi : Inv w) (h : Ends w ev w') :
    SendsForShelved ⟨w, ev, w'⟩ ↔ NotifiesShelved ⟨w, ev, w'⟩ := by
  obtain ⟨call, env, r⟩ := ev
  by_cases hcall : ∃ o input, call = .createOrUpdateAlarm o input
  · obtain ⟨o, input, rfl⟩ := hcall
    obtain ⟨content, hcontent, hfor, -⟩ :=
      (w.submission env input).1.notification_isFor (InstanceKey.fromNode input)
    rcases h.sent with ⟨hd, hsent⟩ | ⟨hd, hsent⟩
    · have hby : sentBy ⟨w, ⟨.createOrUpdateAlarm o input, env, r⟩, w'⟩ = [w.notification env input] :=
        sentBy_of_eq hsent
      have hentry := h.lookup_of_effective hd.served hd.toEffective
      have hshelf : (w.submission env input).1.shelf = findMatchingShelf (InstanceKey.fromNode input) w.rules :=
        submission_shelf env hi
      constructor
      · rintro ⟨content', k, e, hm, hfor', he, hs⟩
        rw [hby, List.mem_singleton, World.notification, hcontent] at hm
        cases hm
        obtain rfl := hfor.unique hfor'
        rw [hentry] at he
        cases he
        exact ⟨o, input, rfl, hd, by rw [← hshelf]; exact hs⟩
      · rintro ⟨o', input', heq, -, hs⟩
        cases heq
        refine ⟨content, _, _, ?_, hfor, hentry, by rw [hshelf]; exact hs⟩
        rw [hby, List.mem_singleton, World.notification, hcontent]
    · have hby : sentBy ⟨w, ⟨.createOrUpdateAlarm o input, env, r⟩, w'⟩ = [] := sentBy_of_eq hsent
      constructor
      · rintro ⟨content', k, e, hm, -⟩
        rw [hby] at hm
        cases hm
      · rintro ⟨o', input', heq, hd', -⟩
        cases heq
        exact absurd hd' hd
  · have hn : ∀ o input, call ≠ .createOrUpdateAlarm o input := fun o input hc => hcall ⟨o, input, hc⟩
    constructor
    · rintro ⟨content, k, e, hm, -⟩
      rcases h.sent_of_other hn with hsent | hsent
      · have hby : sentBy ⟨w, ⟨call, env, r⟩, w'⟩ = [] := sentBy_of_eq hsent
        rw [hby] at hm
        cases hm
      · have hby : sentBy ⟨w, ⟨call, env, r⟩, w'⟩ = [.alarmInventoryChanged] := sentBy_of_eq hsent
        rw [hby, List.mem_singleton] at hm
        cases hm
    · rintro ⟨o, input, hc, -⟩
      exact absurd hc (hn o input)

/-- No call of a run sends a notification of a shelved alarm if and only if none submits a change of a
shelved alarm that is to be notified. -/
theorem silent_of_run_iff (h : DaemonRun b tr w) :
    (∀ t ∈ tr, ¬ SendsForShelved t) ↔ ∀ t ∈ tr, ¬ NotifiesShelved t := by
  have hstep : ∀ t ∈ tr, (SendsForShelved t ↔ NotifiesShelved t) := by
    intro t ht
    obtain ⟨tr', hsuffix⟩ := Run.suffix_of_mem ht
    obtain ⟨hr, hp⟩ := h.of_suffix hsuffix
    have hi := Inv.of_run hr
    exact sendsForShelved_iff hi (Performs.ends hi hp)
  exact forall₂_congr fun t ht => not_congr (hstep t ht)

/-! ### When a submission is to be notified -/

/-- The severity of an alarm that is there and not cleared. -/
def effectiveSeverity (found : Option AlarmEntry) : Int :=
  match found with
  | none => clearedSeverity
  | some e => if e.isCleared then clearedSeverity else e.lastSeverity

/-- A change from the severity `p` to `q` is to be notified in this mode. -/
def NotificationDue (mode : NotifyStatusChanges) (threshold p q : Int) : Prop :=
  match mode with
  | .all => True
  | .raiseAndClear => ¬ (p = clearedSeverity ↔ q = clearedSeverity)
  | .bySeverity => q = clearedSeverity ∨ q ≥ threshold ∨ p ≠ clearedSeverity ∧ p ≥ threshold

instance (mode : NotifyStatusChanges) (threshold p q : Int) : Decidable (NotificationDue mode threshold p q) :=
  match mode with
  | .all => inferInstanceAs (Decidable True)
  | .raiseAndClear => inferInstanceAs (Decidable (¬ _))
  | .bySeverity => inferInstanceAs (Decidable (_ ∨ _))

/-- A cleared alarm is raised again below the threshold, from a severity that was not. -/
def ReraisedBelow (mode : NotifyStatusChanges) (threshold : Int) (found : Option AlarmEntry) (q : Int) : Prop :=
  mode = .bySeverity ∧ q ≠ clearedSeverity ∧ q < threshold ∧
    ∃ e, found = some e ∧ e.isCleared = true ∧ e.lastSeverity ≥ threshold

omit [Libyang] in
theorem not_due_of_reraisedBelow {q : Int} (h : ReraisedBelow mode threshold found q) :
    ¬ NotificationDue mode threshold (effectiveSeverity found) q := by
  obtain ⟨rfl, hq, hlt, e, rfl, hc, -⟩ := h
  simp only [NotificationDue, effectiveSeverity, hc, if_pos]
  rintro (hz | hge | ⟨hne, -⟩)
  · exact hq hz
  · omega
  · exact hne rfl

omit [Libyang] in
theorem effectiveSeverity_eq_cleared {e : AlarmEntry} (h : ∃ s : Severity, e.lastSeverity = s.value) :
    effectiveSeverity (some e) = clearedSeverity ↔ e.isCleared = true := by
  obtain ⟨s, hs⟩ := h
  have hle := s.two_le_value
  unfold effectiveSeverity clearedSeverity
  cases he : e.isCleared with
  | true => simp only [he, if_pos]
  | false =>
    simp only [he, Bool.false_eq_true, if_neg, not_false_eq_true, iff_false]
    omega

omit [Libyang] in
/-- In the mode `severity-level` a severity from before a clear counts as well. -/
theorem notifies_bySeverity_iff (hsev : ∀ e, found = some e → ∃ s : Severity, e.lastSeverity = s.value) {q : Int}
    (hq : 2 ≤ q) :
    (decide (threshold ≤ q) || decide (threshold ≤ (AlarmEntry.orFresh found 0 none).lastSeverity)) = true ↔
      NotificationDue .bySeverity threshold (effectiveSeverity found) q ∨
        ReraisedBelow .bySeverity threshold found q := by
  have hne : q ≠ clearedSeverity := by unfold clearedSeverity; omega
  have hdue : threshold ≤ q → NotificationDue .bySeverity threshold (effectiveSeverity found) q :=
    fun h => .inr (.inl h)
  rw [Bool.or_eq_true, decide_eq_true_iff, decide_eq_true_iff]
  cases found with
  | none =>
    constructor
    · rintro (h | h)
      · exact .inl (hdue h)
      · have hneg : threshold ≤ -1 := h
        exact .inl (hdue (by omega))
    · rintro ((hz | h | ⟨hp, -⟩) | ⟨-, -, -, e, he, -⟩)
      · exact absurd hz hne
      · exact .inl h
      · exact absurd rfl hp
      · cases he
  | some e =>
    have hp := effectiveSeverity_eq_cleared (hsev e rfl)
    cases he : e.isCleared with
    | true =>
      constructor
      · rintro (h | h)
        · exact .inl (hdue h)
        · by_cases hle : threshold ≤ q
          · exact .inl (hdue hle)
          · exact .inr ⟨rfl, hne, by omega, e, rfl, he, h⟩
      · rintro ((hz | h | ⟨hnp, -⟩) | ⟨-, -, -, e', heq, -, h⟩)
        · exact absurd hz hne
        · exact .inl h
        · exact absurd (hp.2 he) hnp
        · cases heq
          exact .inr h
    | false =>
      have hlast : effectiveSeverity (some e) = e.lastSeverity := by rw [effectiveSeverity, he]; rfl
      constructor
      · rintro (h | h)
        · exact .inl (hdue h)
        · refine .inl (.inr (.inr ⟨mt hp.1 (Bool.eq_false_iff.1 he), ?_⟩))
          rw [hlast]
          exact h
      · rintro ((hz | h | ⟨-, h⟩) | ⟨-, -, -, e', heq, hc', -⟩)
        · exact absurd hz hne
        · exact .inl h
        · rw [hlast] at h
          exact .inr h
        · cases heq
          rw [he] at hc'
          cases hc'

omit [Libyang] in
/-- What the daemon notifies is what is due, and the alarms raised again below the threshold. -/
theorem notifies_iff (hsev : ∀ e, found = some e → ∃ s : Severity, e.lastSeverity = s.value)
    (hc : input.severity = .cleared → ∃ e, found = some e ∧ e.isCleared = false) :
    AlarmEntry.notifies found input mode threshold = true ↔
      NotificationDue mode threshold (effectiveSeverity found) input.severity.value ∨
        ReraisedBelow mode threshold found input.severity.value := by
  cases hs : input.severity with
  | cleared =>
    obtain ⟨e, rfl, he⟩ := hc hs
    have hp := mt (effectiveSeverity_eq_cleared (hsev e rfl)).1 (Bool.eq_false_iff.1 he)
    have hq : SeverityWithClear.cleared.value = clearedSeverity := rfl
    unfold AlarmEntry.notifies
    rw [AlarmEntry.isClearedNow_eq_true hs, Bool.true_or, hq]
    refine iff_of_true rfl (.inl ?_)
    cases mode with
    | all => trivial
    | raiseAndClear => exact fun hiff => hp (hiff.2 rfl)
    | bySeverity => exact .inl rfl
  | active s =>
    have hle := s.two_le_value
    have hq : s.value ≠ clearedSeverity := by unfold clearedSeverity; omega
    have hvalue : (SeverityWithClear.active s).value = s.value := rfl
    unfold AlarmEntry.notifies
    rw [AlarmEntry.isClearedNow_eq_false hs, Bool.false_or, hs, hvalue]
    cases mode with
    | all => exact iff_of_true rfl (.inl trivial)
    | raiseAndClear =>
      have hquiet : AlarmEntry.quiet found = true ↔ effectiveSeverity found = clearedSeverity := by
        cases found with
        | none => exact iff_of_true rfl rfl
        | some e => exact (effectiveSeverity_eq_cleared (hsev e rfl)).symm
      refine hquiet.trans ⟨fun hp => .inl fun hiff => hq (hiff.1 hp), ?_⟩
      rintro (hn | ⟨hmode, -⟩)
      · by_contra hp
        exact hn (iff_of_false hp hq)
      · cases hmode
    | bySeverity =>
      exact notifies_bySeverity_iff hsev hle

/-- The alarm is there afterwards, and it was not before or has another clearance, severity or text. -/
def Alters (before after : Option AlarmEntry) : Prop :=
  ∃ e', after = some e' ∧ ∀ e, before = some e →
    e'.isCleared ≠ e.isCleared ∨ e'.lastSeverity ≠ e.lastSeverity ∨ e'.text ≠ e.text

/-- One notification is sent, with the time and the text of the alarm as it is now and the submitted
severity. -/
def SendsOne (input : AlarmInput) (w w' : World) : Prop :=
  ∃ content e, w'.sent = .alarm content :: w.sent ∧ content.IsFor (InstanceKey.fromNode input) ∧
    w'.alarms.lookup (InstanceKey.fromNode input) = some e ∧ content.time = yangTimeFormat e.lastChanged ∧
    content.alarmText = e.text ∧ content.perceivedSeverity = input.severity.name

/-- The submission alters its alarm in a way that is to be notified. The threshold is what the daemon
reads. -/
def ToBeNotified (env : Env) (input : AlarmInput) (w w' : World) : Prop :=
  Alters (w.alarms.lookup (InstanceKey.fromNode input)) (w'.alarms.lookup (InstanceKey.fromNode input)) ∧
    NotificationDue w.notifyStatusChanges (w.notifySeverityThreshold.getD env.unset)
      (effectiveSeverity (w.alarms.lookup (InstanceKey.fromNode input))) input.severity.value

/-- One notification is sent where one is due, and none otherwise. -/
def NotifiesAsDue (env : Env) (input : AlarmInput) (w w' : World) : Prop :=
  (ToBeNotified env input w w' → SendsOne input w w') ∧ (¬ ToBeNotified env input w w' → w'.sent = w.sent)

theorem NotifiesAsDue.quiet (h : NotifiesAsDue env input w w')
    (hn : ¬ NotificationDue w.notifyStatusChanges (w.notifySeverityThreshold.getD env.unset)
      (effectiveSeverity (w.alarms.lookup (InstanceKey.fromNode input))) input.severity.value) : w'.sent = w.sent :=
  h.2 fun hto => hn hto.2

/-- An effective submission that raises a cleared alarm again below the threshold and is delivered, or one
whose notification is due and is not delivered. -/
def Misnotifies (o : String) (env : Env) (input : AlarmInput) (w : World) : Prop :=
  Served o ∧ Effective env input w ∧
    (Deliverable env input w ∧ ReraisedBelow w.notifyStatusChanges (w.notifySeverityThreshold.getD env.unset)
        (w.alarms.lookup (InstanceKey.fromNode input)) input.severity.value ∨
      ¬ Deliverable env input w ∧ NotificationDue w.notifyStatusChanges (w.notifySeverityThreshold.getD env.unset)
        (effectiveSeverity (w.alarms.lookup (InstanceKey.fromNode input))) input.severity.value)

theorem alters_submission (h : AsksChange input w) :
    Alters (w.alarms.lookup (InstanceKey.fromNode input)) (some (w.submission env input).1) := by
  refine ⟨_, rfl, fun e he => ?_⟩
  have hc := h.changes
  rw [submission_eq, he]
  rw [he] at hc
  cases hs : input.severity with
  | cleared =>
    obtain ⟨e', he', hraised⟩ := raised_of_clear h.notCleared hs
    rw [he] at he'
    cases he'
    refine .inl ?_
    show input.isClearedNow ≠ e.isCleared
    rw [AlarmEntry.isClearedNow_eq_true hs, hraised]
    exact Bool.noConfusion
  | active s =>
    have hvalue : input.severity.value = s.value := by rw [hs]; rfl
    simp only [AlarmEntry.changes, Bool.or_eq_true, bne_iff_ne, hvalue] at hc
    show input.isClearedNow ≠ e.isCleared ∨ AlarmEntry.nextSeverity e.lastSeverity input.severity ≠ e.lastSeverity ∨
      input.alarmText ≠ e.text
    rw [hs]
    rcases hc with (hcleared | htext) | hsev
    · exact .inl (Ne.symm hcleared)
    · exact .inr (.inr htext)
    · exact .inr (.inl hsev)

omit [Libyang] in
theorem not_alters_self (found : Option AlarmEntry) : ¬ Alters found found := by
  rintro ⟨e, he, hall⟩
  rcases hall e he with h | h | h
  · exact h rfl
  · exact h rfl
  · exact h rfl

variable (env) in
theorem toNotify_iff (hi : Inv w) (h : AsksChange input w) :
    w.toNotify env input = true ↔
      NotificationDue w.notifyStatusChanges (w.notifySeverityThreshold.getD env.unset)
          (effectiveSeverity (w.alarms.lookup (InstanceKey.fromNode input))) input.severity.value ∨
        ReraisedBelow w.notifyStatusChanges (w.notifySeverityThreshold.getD env.unset)
          (w.alarms.lookup (InstanceKey.fromNode input)) input.severity.value :=
  notifies_iff (fun e he => ((hi.slots (InstanceKey.fromNode input)).present e he).severity)
    (raised_of_clear h.notCleared)

theorem SendsOne.sent_ne (h : SendsOne input w w') : w'.sent ≠ w.sent := by
  obtain ⟨content, e, hsent, -⟩ := h
  rw [hsent]
  exact List.cons_ne_self _ _

theorem Ends.sendsOne (h : Ends w ⟨.createOrUpdateAlarm o input, env, r⟩ w') (hd : Delivers o env input w) :
    SendsOne input w w' := by
  have hsent := (h.sent.resolve_right fun hs => hs.1 hd).2
  obtain ⟨content, hcontent, hfor, htime, htext, hsev⟩ :=
    (w.submission env input).1.notification_isFor (InstanceKey.fromNode input)
  refine ⟨content, _, ?_, hfor, h.lookup_of_effective hd.served hd.toEffective, htime, htext, ?_⟩
  · rw [hsent, World.notification, hcontent]
  · rw [hsev, publishedChange_submission]
    rfl

/-- A submission notifies as it should, except for the alarms raised again below the threshold and for the
notifications that do not get out. -/
theorem notifiesAsDue_iff (h : DaemonRun b tr w) (hp : Performs w ⟨.createOrUpdateAlarm o input, env, r⟩ w') :
    NotifiesAsDue env input w w' ↔ ¬ Misnotifies o env input w := by
  have hi := Inv.of_run h
  have hends := Performs.ends hi hp
  by_cases he : Served o ∧ Effective env input w
  · obtain ⟨ho, he⟩ := he
    have hentry := hends.lookup_of_effective ho he
    have hto : ToBeNotified env input w w' ↔ NotificationDue w.notifyStatusChanges
        (w.notifySeverityThreshold.getD env.unset)
        (effectiveSeverity (w.alarms.lookup (InstanceKey.fromNode input))) input.severity.value := by
      unfold ToBeNotified
      rw [hentry]
      exact and_iff_right (alters_submission he.toAsksChange)
    have hnotify := toNotify_iff env hi he.toAsksChange
    have hone : Delivers o env input w → SendsOne input w w' := fun hd => hends.sendsOne hd
    have hsilent : ¬ Delivers o env input w → w'.sent = w.sent := fun hd =>
      (hends.sent.resolve_left fun hs => hd hs.1).2
    unfold NotifiesAsDue
    rw [hto]
    constructor
    · rintro ⟨hsend, hquiet⟩ ⟨-, -, ⟨hd, hr⟩ | ⟨hd, hdue⟩⟩
      · exact (hone ⟨he, hd, ho, hnotify.2 (.inr hr)⟩).sent_ne (hquiet (not_due_of_reraisedBelow hr))
      · exact (hsend hdue).sent_ne (hsilent fun hdel => hd hdel.toDeliverable)
    · intro hm
      refine ⟨fun hdue => ?_, fun hn => hsilent fun hd => ?_⟩
      · have hd : Deliverable env input w := by
          by_contra hd
          exact hm ⟨ho, he, .inr ⟨hd, hdue⟩⟩
        exact hone ⟨he, hd, ho, hnotify.2 (.inl hdue)⟩
      · rcases hnotify.1 hd.notifies with hdue | hr
        · exact hn hdue
        · exact hm ⟨ho, he, .inl ⟨hd.toDeliverable, hr⟩⟩
  · have halarms := hends.alarms_of_not_effective he
    have hsent : w'.sent = w.sent := by
      rcases hends.sent with ⟨hd, -⟩ | ⟨-, hsent⟩
      · exact absurd ⟨hd.served, hd.toEffective⟩ he
      · exact hsent
    refine iff_of_true ⟨fun hn => ?_, fun _ => hsent⟩ fun hm => he ⟨hm.1, hm.2.1⟩
    obtain ⟨halters, -⟩ := hn
    rw [halarms] at halters
    exact absurd halters (not_alters_self _)

end

namespace AlarmsTest

def raiseCalls : List (Call × Env) := [(submit "wss" (.active .warning) "Hey, I'm overheating.", atTime 1)]

def wssShelf : ShelvingRules := [⟨"shelf", ["wss"], []⟩]

def raised : AlarmNotification :=
  ⟨"wss", "alarms-test:alarm-1", yangTimeFormat 1, "Hey, I'm overheating.", some "high", "warning"⟩

/-- An alarm that is shelved from the start is notified as it is raised. -/
theorem not_silent_shelved :
    ¬ ∀ (b : Boot) (tr : History) (w : World), DaemonRun b tr w → ∀ t ∈ tr, ¬ SendsForShelved t := by
  intro hall
  have hrun : DaemonRun (boot wssShelf) (scenario wssShelf raiseCalls).1 (scenario wssShelf raiseCalls).2 :=
    daemonRun_scenario (by decide +kernel)
  have hsent : (scenario wssShelf raiseCalls).1.map sentBy = [[.alarm raised]] := by decide +kernel
  have hfor : raised.IsFor (key "wss") := ⟨rfl, rfl, by decide⟩
  have hshelf : ((scenario wssShelf raiseCalls).1.map fun t =>
      (t.after.alarms.lookup (key "wss")).map fun e => e.shelf) = [some (some "shelf")] := by decide +kernel
  obtain ⟨t, rest, ht⟩ := List.exists_cons_of_ne_nil
    (show (scenario wssShelf raiseCalls).1 ≠ [] from List.cons_ne_nil _ _)
  rw [ht, List.map_cons, List.cons.injEq] at hsent hshelf
  obtain ⟨e, he, hs⟩ := Option.map_eq_some_iff.1 hshelf.1
  have hmem : t ∈ (scenario wssShelf raiseCalls).1 := by
    rw [ht]
    exact List.mem_cons_self
  refine hall _ _ _ hrun t hmem ⟨raised, key "wss", e, ?_, hfor, he, by rw [hs]; rfl⟩
  rw [hsent.1]
  exact List.mem_cons_self

theorem silent_of_run_unshelved :
    (scenario [] raiseCalls).1 ≠ [] ∧ ∀ t ∈ (scenario [] raiseCalls).1, ¬ SendsForShelved t := by
  have hrun : DaemonRun (boot []) (scenario [] raiseCalls).1 (scenario [] raiseCalls).2 :=
    daemonRun_scenario (by decide +kernel)
  have hrules : ((scenario [] raiseCalls).1.all fun t => t.before.rules.isEmpty) = true := by decide +kernel
  refine ⟨List.cons_ne_nil _ _, (silent_of_run_iff hrun).2 ?_⟩
  rintro t ht ⟨o, input, -, -, hs⟩
  rw [List.isEmpty_iff.1 (List.all_eq_true.1 hrules t ht)] at hs
  cases hs

/-- With the threshold `major`, an alarm is raised as major and cleared. -/
def clearedCalls : List (Call × Env) :=
  [(submit "wss" .cleared "Temperature normal.", atTime 3),
    (submit "wss" (.active .major) "Hey, I'm overheating.", atTime 2),
    (.controlChanged [.notifyStatusChanges .bySeverity, .notifySeverityLevel (some .major)] [], atTime 1)]

/-- Then it is raised again as a warning. -/
def reraise : Call × Env := (submit "wss" (.active .warning) "Getting warm.", atTime 4)

/-- The call that raises it again is notified, although nothing is due. -/
theorem reraise_notified :
    ¬ NotifiesAsDue (atTime 4) (alarm1Input "wss" (.active .warning) "Getting warm.") (scenario [] clearedCalls).2
      (scenario [] (reraise :: clearedCalls)).2 := by
  intro h
  have hdue : ¬ NotificationDue (scenario [] clearedCalls).2.notifyStatusChanges
      ((scenario [] clearedCalls).2.notifySeverityThreshold.getD (atTime 4).unset)
      (effectiveSeverity ((scenario [] clearedCalls).2.alarms.lookup
        (InstanceKey.fromNode (alarm1Input "wss" (.active .warning) "Getting warm."))))
      (alarm1Input "wss" (.active .warning) "Getting warm.").severity.value := by decide +kernel
  have hsent : (scenario [] (reraise :: clearedCalls)).2.sent ≠ (scenario [] clearedCalls).2.sent := by decide +kernel
  exact hsent (h.quiet hdue)

theorem not_notifiesAsDue_reraise :
    ¬ ∀ (b : Boot) (tr : History) (w : World) (o : String) (input : AlarmInput) (env : Env)
      (r : Except Failure Reply) (w' : World), DaemonRun b tr w →
      Performs w ⟨.createOrUpdateAlarm o input, env, r⟩ w' →
      findMatchingShelf (InstanceKey.fromNode input) w.rules = none → NotifiesAsDue env input w w' := by
  intro hall
  have hruns : runs [] (reraise :: clearedCalls) = true := by decide +kernel
  obtain ⟨hr, hp⟩ := performs_scenario hruns
  have hrules : (scenario [] clearedCalls).2.rules = [] := by decide +kernel
  exact reraise_notified (hall _ _ _ _ _ _ _ _ hr hp (by rw [hrules]; rfl))

theorem notifiesAsDue_iff_reraise :
    Misnotifies "sysrepo-ietf-alarms" (atTime 4) (alarm1Input "wss" (.active .warning) "Getting warm.")
      (scenario [] clearedCalls).2 := by
  have hruns : runs [] (reraise :: clearedCalls) = true := by decide +kernel
  obtain ⟨hr, hp⟩ := performs_scenario hruns
  by_contra hm
  exact reraise_notified ((notifiesAsDue_iff hr hp).2 hm)

end AlarmsTest
end IetfAlarms

import IetfAlarms.Submissions

/-!
# Submitting again

An alarm that has what the latest submission for it gave is left alone by another submission of the same, however
many calls came between, as long as none of them removed the alarm. It does not matter whether that submission was
written: what could not be written is not written by submitting it again either.
-/

namespace IetfAlarms
open Program Trace

/-! ### The fold -/

/-- The submissions say the same. -/
structure Submission.Repeats (s earlier : Submission) : Prop where
  severity : s.severity = earlier.severity
  text : s.text = earlier.text

theorem Submission.Repeats.isClear {s earlier : Submission} (h : s.Repeats earlier) : s.isClear = earlier.isClear := by
  rw [Submission.isClear, Submission.isClear, h.severity]

namespace Fields
variable {found : Option Fields} {s earlier : Submission}

theorem alters_of_repeats (h : s.Repeats earlier) : alters found s = alters found earlier := by
  unfold alters
  rw [h.isClear, h.severity, h.text]

/-- What has been submitted is not a change any more. -/
theorem not_alters_submit (h : s.Repeats earlier) : alters (submit found earlier) s = false := by
  rw [alters_of_repeats h, submit]
  cases hcase : alters found earlier with
  | false => exact hcase
  | true =>
    unfold alters
    cases hclear : earlier.isClear with
    | true => rfl
    | false => simp

end Fields

/-! ### Runs -/

section
variable [Libyang] {b : Boot} {tr : History} {w : World} {env : Env} {o : String} {input : AlarmInput}

/-- A submission that is let through but asks for nothing does nothing. -/
theorem exec_of_not_asksChange (hi : Inv w) (ha : Accepted o env input w) (hn : ¬ AsksChange input w) :
    exec (createOrUpdateAlarm env o input) w = (.ok .ok, w.refreshed) := by
  obtain ⟨x, hx⟩ := ha.quotable.xpathIndex
  have hannounced : inventoryValidationError w.refreshed.inventory (InstanceKey.fromNode input) input.severity.value =
      .ok none := ha.announced
  rw [createOrUpdateAlarm, if_neg (Bool.eq_false_iff.1 ha.served), exec_submitAlarm_eq hx, ha.fetched,
    if_neg Bool.false_ne_true, hannounced]
  simp only
  cases hc : alreadyCleared w.alarms (InstanceKey.fromNode input) input.isClearedNow with
  | true => rfl
  | false =>
    have hsame : AlarmEntry.changes (w.refreshed.alarms.lookup (InstanceKey.fromNode input)) input = false :=
      Bool.eq_false_iff.2 fun hchanges => hn ⟨hc, hchanges⟩
    have hidle : exec (updateAlarm env input (InstanceKey.fromNode input) x) w.refreshed = (.ok (), w.refreshed) :=
      exec_updateAlarm_of_not_changes hi.refreshed ha.quotable hx hc hsame
    rw [if_neg Bool.false_ne_true, exec_bind_of_ok hidle]
    rfl

/-- In every run, a submission that repeats the latest one accepted for an alarm which is still there is answered
with success and changes nothing, whatever was called between them and whatever failed. -/
theorem repeats_of_run (h : DaemonRun b tr w) (hpresent : (w.alarms.lookup (InstanceKey.fromNode input)).isSome)
    {latest : Submission} (hlatest : (acceptedSince (InstanceKey.fromNode input) tr).head? = some latest)
    (hrepeats : (input.submission env.now).Repeats latest) (ha : Accepted o env input w) :
    exec ((Call.createOrUpdateAlarm o input).run env) w = (.ok .ok, w.refreshed) := by
  have hfolds := folds_of_run h (InstanceKey.fromNode input) hpresent
  obtain ⟨earlier, hearlier⟩ : ∃ earlier, acceptedSince (InstanceKey.fromNode input) tr = latest :: earlier :=
    ⟨_, List.eq_cons_of_mem_head? hlatest⟩
  have hfields : Fields.submit (Fields.fold earlier) latest =
      (w.alarms.lookup (InstanceKey.fromNode input)).map AlarmEntry.fields := by
    rw [← hfolds.fold, hearlier, Fields.fold_cons]
  refine exec_of_not_asksChange (Inv.of_run h) ha fun hasks => ?_
  have halters := (alters_iff env.now).2 hasks
  rw [← hfields, Fields.not_alters_submit hrepeats] at halters
  exact Bool.false_ne_true halters

end

namespace AlarmsTest

/-- The write of the alarm fails; then it is shelved, and another one is raised. -/
def retriedCalls : List (Call × Env) :=
  [(submit "edfa" (.active .minor) "Power is low.", atTime 3),
    (.controlChanged [.alarmShelving] [⟨"shelf", ["wss"], []⟩], { atTime 2 with applyChangesThrows := true }),
    (submit "wss" (.active .major) "Hey, I'm overheating.", { atTime 1 with applyChangesThrows := true })]

theorem repeats_of_run_retried :
    exec ((submit "wss" (.active .major) "Hey, I'm overheating.").run (atTime 4)) (scenario [] retriedCalls).2 =
      (.ok .ok, (scenario [] retriedCalls).2.refreshed) := by
  have hrun : DaemonRun (boot []) (scenario [] retriedCalls).1 (scenario [] retriedCalls).2 :=
    daemonRun_scenario (by decide +kernel)
  have hlatest : (acceptedSince (key "wss") (scenario [] retriedCalls).1).head? =
      some ⟨1, .active .major, "Hey, I'm overheating."⟩ := by decide +kernel
  exact repeats_of_run hrun (by decide +kernel) hlatest ⟨rfl, rfl⟩ (by decide +kernel)

end AlarmsTest

end IetfAlarms

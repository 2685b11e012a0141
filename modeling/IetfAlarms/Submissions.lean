import IetfAlarms.Recorded

/-!
# An alarm is the fold of its submissions

`Fields.submit` says what one submission makes of the fields that submissions determine, apart from how
the daemon computes it. In every run the fields of an alarm are the fold of the submissions that were
accepted for it since it was last absent (`acceptedSince`), and each of them can be read off this list.
-/

namespace IetfAlarms
open Program Trace

/-! ### The fold -/

/-- A submission, as far as its alarm is concerned. -/
structure Submission where
  time : TimePoint
  severity : SeverityWithClear
  text : String
deriving DecidableEq

def Submission.isClear (s : Submission) : Bool := s.severity == .cleared

/-- What submissions determine of an alarm. -/
structure Fields where
  created : TimePoint
  lastRaised : TimePoint
  lastChanged : TimePoint
  lastSeverity : Int
  isCleared : Bool
  text : String
deriving DecidableEq

def AlarmEntry.fields (e : AlarmEntry) : Fields :=
  ⟨e.created, e.lastRaised, e.lastChanged, e.lastSeverity, e.isCleared, e.text⟩

namespace Fields

/-- The submission turns an alarm that is absent or cleared into an active one. -/
def raises (found : Option Fields) (s : Submission) : Bool := !s.isClear && found.all (·.isCleared)

/-- It creates the alarm, or changes its clearance, severity or text; what clears an alarm that is
absent or cleared is a no-op. -/
def alters (found : Option Fields) (s : Submission) : Bool :=
  if s.isClear then found.any (!·.isCleared)
  else found.all fun f => f.isCleared || s.severity.value != f.lastSeverity || s.text != f.text

def submit (found : Option Fields) (s : Submission) : Option Fields :=
  if alters found s then some {
    created := (found.map (·.created)).getD s.time
    lastRaised := if raises found s then s.time else (found.map (·.lastRaised)).getD 0
    lastChanged := s.time
    lastSeverity := if s.isClear then (found.map (·.lastSeverity)).getD (-1) else s.severity.value
    isCleared := s.isClear
    text := s.text }
  else found

/-- The submissions are listed the latest first. -/
def fold (submissions : List Submission) : Option Fields := submissions.foldr (fun s found => submit found s) none

/-- The latest submission that is so, given what the earlier ones made of the alarm. -/
def latest (p : Option Fields → Submission → Bool) : List Submission → Option Submission
  | [] => none
  | s :: earlier => if p (fold earlier) s then some s else latest p earlier

end Fields

/-- The alarm is the fold of these submissions, field by field. -/
structure FoldOf (submissions : List Submission) (e : AlarmEntry) : Prop where
  fold : Fields.fold submissions = some e.fields
  created : submissions.getLast?.map (·.time) = some e.created
  lastRaised : (Fields.latest Fields.raises submissions).map (·.time) = some e.lastRaised
  lastSeverity : (submissions.find? (!·.isClear)).map (·.severity.value) = some e.lastSeverity
  isCleared : (Fields.latest Fields.alters submissions).map (·.isClear) = some e.isCleared
  text : (Fields.latest Fields.alters submissions).map (·.text) = some e.text
  lastChanged : (Fields.latest Fields.alters submissions).map (·.time) = some e.lastChanged

namespace Fields
variable {found : Option Fields} {f : Fields} {s : Submission} {submissions : List Submission}

@[simp] theorem fold_cons (s : Submission) (earlier : List Submission) :
    fold (s :: earlier) = submit (fold earlier) s := rfl

/-- Only a raise creates an alarm. -/
theorem submit_none (s : Submission) :
    submit none s = if s.isClear then none else some ⟨s.time, s.time, s.time, s.severity.value, false, s.text⟩ := by
  unfold submit alters raises
  cases s.isClear <;> rfl

theorem submit_some_isSome (f : Fields) (s : Submission) : (submit (some f) s).isSome = true := by
  unfold submit
  split <;> rfl

/-- Once it is raised, the alarm is there. -/
theorem fold_isSome (hn : submissions ≠ []) (h : ∀ s, submissions.getLast? = some s → s.isClear = false) :
    (fold submissions).isSome = true := by
  induction submissions with
  | nil => exact absurd rfl hn
  | cons s earlier ih =>
    rw [fold_cons]
    by_cases he : earlier = []
    · subst he
      show (submit none s).isSome = true
      rw [submit_none, h s rfl]
      rfl
    · have hlast : (s :: earlier).getLast? = earlier.getLast? := List.getLast?_cons_of_ne_nil he
      obtain ⟨f, hf⟩ := Option.isSome_iff_exists.1 (ih he fun s' hs' => h s' (hlast.trans hs'))
      rw [hf]
      exact submit_some_isSome f s

theorem created_of_fold (h : ∀ s, submissions.getLast? = some s → s.isClear = false)
    (hf : fold submissions = some f) : submissions.getLast?.map (·.time) = some f.created := by
  induction submissions generalizing f with
  | nil => cases hf
  | cons s earlier ih =>
    by_cases he : earlier = []
    · subst he
      have hs : submit none s = some f := hf
      rw [submit_none, h s rfl] at hs
      cases hs
      rfl
    · have hlast : (s :: earlier).getLast? = earlier.getLast? := List.getLast?_cons_of_ne_nil he
      have h' : ∀ s', earlier.getLast? = some s' → s'.isClear = false := fun s' hs' => h s' (hlast.trans hs')
      obtain ⟨g, hg⟩ := Option.isSome_iff_exists.1 (fold_isSome he h')
      rw [fold_cons, hg] at hf
      rw [hlast, ih h' hg]
      unfold submit at hf
      split at hf
      · cases hf
        rfl
      · cases hf
        rfl

theorem lastRaised_of_fold (hf : fold submissions = some f) :
    (latest raises submissions).map (·.time) = some f.lastRaised := by
  induction submissions generalizing f with
  | nil => cases hf
  | cons s earlier ih =>
    rw [fold_cons] at hf
    rw [latest]
    split
    · rename_i hr
      -- what raises an alarm alters it
      have ha : alters (fold earlier) s = true := by
        unfold raises at hr
        unfold alters
        cases hs : s.isClear <;> cases hfold : fold earlier <;> simp_all
      rw [submit, if_pos ha, if_pos hr] at hf
      cases hf
      rfl
    · rename_i hr
      cases hfold : fold earlier with
      | none =>
        rw [hfold] at hf hr
        rw [submit_none] at hf
        unfold raises at hr
        cases hs : s.isClear <;> simp_all
      | some g =>
        rw [ih hfold]
        rw [hfold] at hf hr
        unfold submit at hf
        split at hf
        · cases hf
          rfl
        · cases hf
          rfl

theorem lastSeverity_of_fold (hf : fold submissions = some f) :
    (submissions.find? (!·.isClear)).map (·.severity.value) = some f.lastSeverity := by
  induction submissions generalizing f with
  | nil => cases hf
  | cons s earlier ih =>
    rw [fold_cons] at hf
    rw [List.find?_cons]
    cases hs : s.isClear with
    | true =>
      simp only [Bool.not_true]
      cases hfold : fold earlier with
      | none =>
        rw [hfold, submit_none, hs] at hf
        cases hf
      | some g =>
        rw [ih hfold]
        rw [hfold] at hf
        unfold submit at hf
        rw [hs] at hf
        split at hf
        · cases hf
          rfl
        · cases hf
          rfl
    | false =>
      simp only [Bool.not_false, Option.map_some]
      unfold submit at hf
      split at hf
      · rw [hs] at hf
        cases hf
        rfl
      · rename_i ha
        -- an active submission that alters nothing repeats the severity
        rw [hf] at ha
        unfold alters at ha
        simp only [hs, Bool.false_eq_true, if_false, Option.all_some, Bool.or_eq_true, bne_iff_ne, not_or,
          not_not] at ha
        rw [ha.1.2]

theorem latest_alters_of_fold (hf : fold submissions = some f) :
    ∃ s, latest alters submissions = some s ∧ s.time = f.lastChanged ∧ s.isClear = f.isCleared ∧ s.text = f.text := by
  induction submissions generalizing f with
  | nil => cases hf
  | cons s earlier ih =>
    rw [fold_cons, submit] at hf
    rw [latest]
    split
    · rename_i ha
      rw [if_pos ha] at hf
      cases hf
      exact ⟨s, rfl, rfl, rfl, rfl⟩
    · rename_i ha
      rw [if_neg ha] at hf
      exact ih hf

end Fields

/-- Every field can be read off, once the first submission is known to be a raise. -/
theorem FoldOf.of_fold {submissions : List Submission} {e : AlarmEntry}
    (h : ∀ s, submissions.getLast? = some s → s.isClear = false) (hf : Fields.fold submissions = some e.fields) :
    FoldOf submissions e := by
  obtain ⟨s, hs, htime, hclear, htext⟩ := Fields.latest_alters_of_fold hf
  refine ⟨hf, Fields.created_of_fold h hf, Fields.lastRaised_of_fold hf, Fields.lastSeverity_of_fold hf, ?_, ?_, ?_⟩
  · rw [hs, Option.map_some, hclear]
    rfl
  · rw [hs, Option.map_some, htext]
    rfl
  · rw [hs, Option.map_some, htime]
    rfl

/-! ### The daemon's part -/

section
variable [Libyang] {b : Boot} {w w₁ w' : World} {ev : Event} {env : Env} {input : AlarmInput} {k : InstanceKey}
variable {tr : History} {t : Transition World Event} {o : String}

/-- The submission is not turned away: it comes from an internal caller, its key can be written down, and
the inventory could be read and has the alarm. -/
structure Accepted (o : String) (env : Env) (input : AlarmInput) (w : World) : Prop where
  served : Served o
  quotable : (InstanceKey.fromNode input).Quotable
  fetched : (w.inventoryDirty && env.getDataThrows) = false
  announced : Announced input w

instance (input : AlarmInput) (w : World) : Decidable (Announced input w) := inferInstanceAs (Decidable (_ = _))

instance (o : String) (env : Env) (input : AlarmInput) (w : World) : Decidable (Accepted o env input w) :=
  decidable_of_iff (_ ∧ _ ∧ _ ∧ _) ⟨fun h => ⟨h.1, h.2.1, h.2.2.1, h.2.2.2⟩,
    fun h => ⟨h.served, h.quotable, h.fetched, h.announced⟩⟩

def AlarmInput.submission (input : AlarmInput) (now : TimePoint) : Submission :=
  ⟨now, input.severity, input.alarmText⟩

/-- The submission for this alarm that a call was, if it was accepted. -/
def acceptedOf (k : InstanceKey) (t : Transition World Event) : Option Submission :=
  match t.label.call with
  | .createOrUpdateAlarm o input =>
    if InstanceKey.fromNode input = k ∧ Accepted o t.label.env input t.before then
      some (input.submission t.label.env.now)
    else none
  | _ => none

/-- The submissions accepted for an alarm since it was last absent, the latest first. -/
def acceptedSince (k : InstanceKey) : History → List Submission
  | [] => []
  | t :: tr =>
    (acceptedOf k t).toList ++ if (t.before.alarms.lookup k).isNone then [] else acceptedSince k tr

/-- A submission that returns without an error was accepted, unless it clears what can never be there. -/
theorem accepted_of_ok (hp : Performs w ⟨.createOrUpdateAlarm o input, env, .ok .ok⟩ w')
    (hq : (InstanceKey.fromNode input).Quotable) : Accepted o env input w := by
  have hex : exec (createOrUpdateAlarm env o input) w = (.ok .ok, w') := hp.exec_eq
  by_cases ho : Served o
  · rw [createOrUpdateAlarm, if_neg (Bool.eq_false_iff.1 ho)] at hex
    obtain ⟨x, hx⟩ := hq.xpathIndex
    unfold submitAlarm at hex
    simp only [hx] at hex
    rw [exec_bind, exec_refreshInventory] at hex
    cases hg : w.inventoryDirty && env.getDataThrows with
    | true =>
      rw [hg] at hex
      cases congrArg Prod.fst hex
    | false =>
      obtain ⟨message, hmessage⟩ := inventoryValidationError_ok w.refreshed.inventory
        (InstanceKey.fromNode input) input.severity
      rw [hg] at hex
      simp only [Bool.false_eq_true, if_false] at hex
      rw [exec_get_bind, hmessage, exec_ofExcept_ok_bind] at hex
      cases hm : message with
      | some text =>
        rw [hm] at hex
        cases congrArg Prod.fst hex
      | none => exact ⟨ho, hq, hg, hmessage.trans (congrArg _ hm)⟩
  · obtain ⟨reply, hr, hreply⟩ := exec_createOrUpdateAlarm_of_not_served ho env input w
    rw [hreply] at hex
    exact absurd (Except.ok.inj (congrArg Prod.fst hex)) hr

omit [Libyang] in
theorem Accepted.effective (h : Accepted o env input w) (ha : AsksChange input w) : Effective env input w :=
  ⟨ha, h.quotable, h.fetched, h.announced⟩

omit [Libyang] in
theorem Effective.accepted (h : Effective env input w) (ho : Served o) : Accepted o env input w :=
  ⟨ho, h.quotable, h.fetched, h.announced⟩

omit [Libyang] in
theorem isClearedNow_eq (input : AlarmInput) (now : TimePoint) :
    input.isClearedNow = (input.submission now).isClear := by
  unfold AlarmInput.submission Submission.isClear
  cases hs : input.severity with
  | cleared => rw [AlarmEntry.isClearedNow_eq_true hs]; rfl
  | active s => rw [AlarmEntry.isClearedNow_eq_false hs]; rfl

omit [Libyang] in
/-- What the daemon takes for a change is one. -/
theorem alters_iff (now : TimePoint) :
    Fields.alters ((w.alarms.lookup (InstanceKey.fromNode input)).map AlarmEntry.fields) (input.submission now) = true ↔
      AsksChange input w := by
  have hclear := isClearedNow_eq input now
  have hiff : AsksChange input w ↔
      alreadyCleared w.alarms (InstanceKey.fromNode input) input.isClearedNow = false ∧
        AlarmEntry.changes (w.alarms.lookup (InstanceKey.fromNode input)) input = true :=
    ⟨fun h => ⟨h.1, h.2⟩, fun h => ⟨h.1, h.2⟩⟩
  rw [hiff]
  unfold alreadyCleared AlarmEntry.changes Fields.alters
  rw [← hclear]
  cases hlookup : w.alarms.lookup (InstanceKey.fromNode input) with
  | none => cases input.isClearedNow <;> simp
  | some e =>
    show _ ↔ _
    cases hc : input.isClearedNow <;> cases he : e.isCleared <;>
      simp [AlarmEntry.fields, AlarmInput.submission, he, or_comm]

/-- And it makes of the alarm what is to be made of it. -/
theorem submit_fields (ha : AsksChange input w) :
    Fields.submit ((w.alarms.lookup (InstanceKey.fromNode input)).map AlarmEntry.fields) (input.submission env.now) =
      some (w.submission env input).1.fields := by
  rw [Fields.submit, if_pos ((alters_iff env.now).2 ha), submission_eq]
  unfold AlarmEntry.recorded AlarmEntry.fields Fields.raises
  rw [← isClearedNow_eq]
  cases hlookup : w.alarms.lookup (InstanceKey.fromNode input) with
  | none =>
    cases hs : input.severity with
    | cleared =>
      obtain ⟨e, he, -⟩ := raised_of_clear ha.notCleared hs
      rw [hlookup] at he
      cases he
    | active s =>
      rw [AlarmEntry.isClearedNow_eq_false hs]
      simp [AlarmEntry.orFresh, AlarmEntry.quiet, AlarmEntry.nextSeverity, AlarmInput.submission, hs,
        SeverityWithClear.value]
  | some e =>
    cases hs : input.severity with
    | cleared =>
      rw [AlarmEntry.isClearedNow_eq_true hs]
      simp [AlarmEntry.orFresh, AlarmEntry.nextSeverity, AlarmInput.submission]
    | active s =>
      rw [AlarmEntry.isClearedNow_eq_false hs]
      simp [AlarmEntry.orFresh, AlarmEntry.quiet, AlarmEntry.nextSeverity, AlarmInput.submission, hs,
        SeverityWithClear.value]

/-! ### Runs -/

/-- The alarm, if it is there, was there in this state and had these fields. -/
def KeepsFields (w : World) (k : InstanceKey) (s : Slot) : Prop :=
  ∀ e', s.entry = some e' → ∃ e, w.alarms.lookup k = some e ∧ e'.fields = e.fields

/-- No loop touches the fields. -/
theorem kept_fields (limit : Option UInt16) (w : World) : Kept limit (KeepsFields w) := by
  have hshrink : ∀ (limit : Option UInt16) (e : AlarmEntry), (e.shrinkStatusChanges limit).1.fields = e.fields := by
    intro limit e
    rw [AlarmEntry.shrinkStatusChanges_eq]
    rfl
  refine kept_entries (fun k e hq => ?_) (fun k e hq => ?_) fun k e shelf hq => hq
  · rw [hshrink]
    exact hq
  · rw [hshrink]
    exact hq

/-- Neither does a call that is no accepted submission for the alarm. -/
theorem Ends.keepsFields (hi : Inv w) (he : Ends w ev w') (hn : acceptedOf k ⟨w, ev, w'⟩ = none) :
    KeepsFields w k (w'.slot k) := by
  obtain ⟨w₁, heff, hs⟩ := he.effect
  have hself : ∀ k, KeepsFields w k (w.slot k) := fun k e' he' => ⟨e', he', rfl⟩
  have hother : ∀ o input, ev.call = .createOrUpdateAlarm o input → Served o → Effective ev.env input w →
      k ≠ InstanceKey.fromNode input := by
    rintro o input hcall ho heffective rfl
    rw [acceptedOf, hcall] at hn
    simp only [ite_eq_right_iff] at hn
    cases hn ⟨trivial, heffective.accepted ho⟩
  rw [hs.slot]
  cases heff with
  | none => exact hself k
  | submitted ho heffective _ _ =>
    rw [slot_submitted_of_ne (hother _ _ rfl ho heffective)]
    exact hself k
  | submittedPartly ho heffective _ =>
    rw [World.submittedPartly, World.slot_publishPartly_of_ne (hother _ _ rfl ho heffective)]
    exact hself k
  | purged filter => exact (kept_fields none w).purged hi hself _ filter _ k
  | compressed => exact (kept_fields none w).compressed hi hself _ _ k
  | scanned => exact Kept.scanned hself _ k
  | controlled => exact (kept_fields _ w).controlled _ hi hself k

omit [Libyang] in
theorem acceptedOf_eq_some {s : Submission} (h : acceptedOf k t = some s) :
    ∃ o input, t.label.call = .createOrUpdateAlarm o input ∧ InstanceKey.fromNode input = k ∧
      Accepted o t.label.env input t.before ∧ s = input.submission t.label.env.now := by
  unfold acceptedOf at h
  split at h
  · rename_i o input hcall
    split at h
    · rename_i hk
      exact ⟨o, input, hcall, hk.1, hk.2, (Option.some.inj h).symm⟩
    · cases h
  · cases h

/-- These submissions make the alarm what it is, and begin with a raise. -/
structure Folds (submissions : List Submission) (found : Option AlarmEntry) : Prop where
  fold : Fields.fold submissions = found.map AlarmEntry.fields
  first : ∀ s, submissions.getLast? = some s → s.isClear = false

/-- An accepted submission goes on from where the alarm was. -/
theorem Folds.accept {earlier : List Submission} {r : Except Failure Reply} (h : Folds earlier (w.alarms.lookup k))
    (he : Ends w ⟨.createOrUpdateAlarm o input, env, r⟩ w') (hk : InstanceKey.fromNode input = k)
    (ha : Accepted o env input w) (hp : (w'.alarms.lookup k).isSome) :
    Folds (input.submission env.now :: earlier) (w'.alarms.lookup k) := by
  subst hk
  have hlast : earlier ≠ [] → (input.submission env.now :: earlier).getLast? = earlier.getLast? :=
    List.getLast?_cons_of_ne_nil
  by_cases hc : AsksChange input w
  · have hnew := he.lookup_of_effective ha.served (ha.effective hc)
    refine ⟨?_, fun s hs => ?_⟩
    · rw [Fields.fold_cons, h.fold, submit_fields hc, hnew]
      rfl
    · by_cases hnil : earlier = []
      · subst hnil
        -- the alarm was absent: what alters it is a raise
        have halters := (alters_iff env.now).2 hc
        rw [← h.fold] at halters
        cases hs
        unfold Fields.alters at halters
        simp only [Fields.fold, List.foldr_nil, Option.any_none] at halters
        split at halters
        · cases halters
        · rename_i hclear
          exact Bool.eq_false_iff.2 hclear
      · exact h.first s ((hlast hnil).symm.trans hs)
  · have hsame := he.alarms_of_not_effective fun hno => hc hno.2.toAsksChange
    rw [hsame] at hp ⊢
    have hnil : earlier ≠ [] := by
      rintro rfl
      obtain ⟨e, he⟩ := Option.isSome_iff_exists.1 hp
      have hfold := h.fold
      rw [he] at hfold
      cases hfold
    refine ⟨?_, fun s hs => h.first s ((hlast hnil).symm.trans hs)⟩
    rw [Fields.fold_cons, h.fold, Fields.submit, if_neg fun halters => hc ((alters_iff env.now).1 halters)]

omit [Libyang] in
/-- What was accepted before a call, if the alarm was there. -/
theorem folds_before (h : ∀ e, w.alarms.lookup k = some e → Folds (acceptedSince k tr) (w.alarms.lookup k)) :
    Folds (if (w.alarms.lookup k).isNone then [] else acceptedSince k tr) (w.alarms.lookup k) := by
  cases he : w.alarms.lookup k with
  | none => exact ⟨rfl, fun s hs => by cases hs⟩
  | some e =>
    have := h e he
    rw [he] at this
    exact this

theorem folds_of_run (h : DaemonRun b tr w) (k : InstanceKey) (hp : (w.alarms.lookup k).isSome) :
    Folds (acceptedSince k tr) (w.alarms.lookup k) := by
  refine h.invariant (I := fun tr w => (w.alarms.lookup k).isSome → Folds (acceptedSince k tr) (w.alarms.lookup k))
    (fun w hs hp => ?_) (fun tr w ev w' hrun ih hperf hp => ?_) hp
  · rw [hs.boots.alarms] at hp
    cases hp
  · have hends := hperf.ends (Inv.of_run hrun)
    have hbefore := folds_before fun e he => ih (by rw [he]; rfl)
    rw [acceptedSince]
    generalize (if (w.alarms.lookup k).isNone then [] else acceptedSince k tr) = earlier at hbefore ⊢
    cases ha : acceptedOf k ⟨w, ev, w'⟩ with
    | none =>
      obtain ⟨e', he'⟩ := Option.isSome_iff_exists.1 hp
      obtain ⟨e, he, hfields⟩ := hends.keepsFields (Inv.of_run hrun) ha e' he'
      rw [he']
      rw [he] at hbefore
      exact ⟨hbefore.fold.trans (congrArg some hfields.symm), hbefore.first⟩
    | some s =>
      obtain ⟨o, input, hcall, hk, haccepted, rfl⟩ := acceptedOf_eq_some ha
      obtain ⟨call, env, r⟩ := ev
      cases hcall
      exact hbefore.accept hends hk haccepted hp

/-- In every run an alarm is the fold of what was accepted for it since it was last absent. -/
theorem foldOf_of_run {e : AlarmEntry} (h : DaemonRun b tr w) (he : w.alarms.lookup k = some e) :
    FoldOf (acceptedSince k tr) e := by
  have hfolds := folds_of_run h k (by rw [he]; rfl)
  rw [he] at hfolds
  exact .of_fold hfolds.first hfolds.fold

end

namespace AlarmsTest

/-- An alarm is raised, purged, raised again, cleared twice with different texts and raised once more. -/
def raisedAgainCalls : List (Call × Env) :=
  [(submit "wss" (.active .major) "Getting worse.", atTime 6),
    (submit "wss" .cleared "Functioning within normal parameters.", atTime 5),
    (submit "wss" .cleared "OK.", atTime 4),
    (submit "wss" (.active .warning) "Hey, I'm overheating.", atTime 3),
    (.purgeAlarms .alarmList ⟨.any, none, none⟩, atTime 2),
    (submit "wss" (.active .minor) "More juice pls.", atTime 1)]

theorem foldOf_raisedAgain : ∃ e, (scenario [] raisedAgainCalls).2.alarms.lookup (key "wss") = some e ∧
    FoldOf (acceptedSince (key "wss") (scenario [] raisedAgainCalls).1) e := by
  have hsome : ((scenario [] raisedAgainCalls).2.alarms.lookup (key "wss")).isSome = true := by decide +kernel
  obtain ⟨e, he⟩ := Option.isSome_iff_exists.1 hsome
  exact ⟨e, he, foldOf_of_run (daemonRun_scenario (by decide +kernel)) he⟩

example : (acceptedSince (key "wss") (scenario [] raisedAgainCalls).1).map (·.time) = [6, 5, 4, 3] := by
  decide +kernel

end AlarmsTest

end IetfAlarms

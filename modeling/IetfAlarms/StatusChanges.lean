import IetfAlarms.History

/-!
# The published status changes

In a run with an increasing clock and a working sysrepo the status changes of an alarm are the newest of
the changes it went through, newest first, and no more than the limit allows; the first of them shows the
alarm as it is now. There is a first one unless the limit was zero.
-/

namespace IetfAlarms
open Program Trace DataTree DataTree.Node

section
variable [Libyang] {b : Boot} {w w₁ w' : World} {ev : Event} {env : Env} {input : AlarmInput} {k : InstanceKey}
variable {tr : History} {t : Transition World Event} {limit : Option UInt16} {Q : AlarmEntry → Prop}

/-! ### Entries -/

/-- A submission replaces its own entry, and none other. -/
theorem entry_submitted (h : ∀ k e, (w.slot k).entry = some e → Q e) (hq : Q (w.submission env input).1)
    {e : AlarmEntry} (he : ((w.submitted env input).slot k).entry = some e) : Q e := by
  by_cases hk : k = InstanceKey.fromNode input
  · subst hk
    rw [World.submitted, World.slot_recount, World.slot_upsert_self] at he
    cases he
    exact hq
  · rw [slot_submitted_of_ne hk] at he
    exact h k e he

theorem entry_submittedPartly (h : ∀ k e, (w.slot k).entry = some e → Q e) (hq : Q (w.submission env input).1)
    {e : AlarmEntry} (he : ((w.submittedPartly env input).slot k).entry = some e) : Q e := by
  by_cases hk : k = InstanceKey.fromNode input
  · subst hk
    rw [World.submittedPartly, World.slot_publishPartly_self] at he
    cases he
    exact hq
  · rw [World.submittedPartly, World.slot_publishPartly_of_ne hk] at he
    exact h k e he

/-! ### The limit -/

omit [Libyang] in
theorem length_shrink (e : AlarmEntry) (limit : Option UInt16) :
    (e.shrinkStatusChanges limit).1.statusChanges.length = e.statusChanges.length - e.excess limit := by
  rw [AlarmEntry.shrinkStatusChanges_eq]
  exact List.length_drop

omit [Libyang] in
theorem excess_shrink_self (e : AlarmEntry) (limit : Option UInt16) :
    (e.shrinkStatusChanges limit).1.excess limit = 0 := by
  have hlen := length_shrink e limit
  cases limit with
  | none => rfl
  | some n =>
    unfold AlarmEntry.excess at hlen ⊢
    simp only at hlen ⊢
    omega

omit [Libyang] in
/-- Trimming once more does not make an alarm too long. -/
theorem excess_shrink {e : AlarmEntry} (h : e.excess limit = 0) (limit' : Option UInt16) :
    (e.shrinkStatusChanges limit').1.excess limit = 0 := by
  have hlen := length_shrink e limit'
  cases limit with
  | none => rfl
  | some n =>
    unfold AlarmEntry.excess at h ⊢
    simp only at h ⊢
    omega

omit [Libyang] in
theorem excess_of_not_lowered {e : AlarmEntry} {oldVal newVal : Option UInt16}
    (hl : limitLowered oldVal newVal = false) (h : e.excess oldVal = 0) : e.excess newVal = 0 := by
  cases newVal with
  | none => rfl
  | some n =>
    cases oldVal with
    | none => cases hl
    | some o =>
      have hle : o.toNat ≤ n.toNat := by
        have hlt := of_decide_eq_false hl
        rw [UInt16.lt_iff_toNat_lt] at hlt
        omega
      unfold AlarmEntry.excess at h ⊢
      simp only at h ⊢
      omega

omit [Libyang] in
/-- A commit that does not ask for trimming does not lower the limit. -/
theorem excess_scanned {e : AlarmEntry} (changes : List ControlChange) (d : Daemon) (shrink : Bool)
    (hs : (scanChanges changes d shrink).needsStatusChangesShrink = false)
    (h : e.excess d.maxAlarmStatusChanges = 0) :
    e.excess (scanChanges changes d shrink).daemon.maxAlarmStatusChanges = 0 := by
  have hshrink : ∀ (changes : List ControlChange) (d : Daemon),
      (scanChanges changes d true).needsStatusChangesShrink = true := by
    intro changes
    induction changes with
    | nil => exact fun _ => rfl
    | cons c changes ih =>
      intro d
      cases c with
      | alarmShelving => rfl
      | notifyStatusChanges value => exact ih _
      | notifySeverityLevel value => exact ih _
      | maxAlarmStatusChanges value => exact ih _
      | other => exact ih _
  induction changes generalizing d shrink with
  | nil => exact h
  | cons c changes ih =>
    cases c with
    | alarmShelving => exact h
    | notifyStatusChanges value => exact ih _ _ hs h
    | notifySeverityLevel value => exact ih _ _ hs h
    | maxAlarmStatusChanges value =>
      have hs' : (scanChanges changes { d with maxAlarmStatusChanges := value }
        (shrink || limitLowered d.maxAlarmStatusChanges value)).needsStatusChangesShrink = false := hs
      cases hl : limitLowered d.maxAlarmStatusChanges value with
      | true =>
        rw [hl, Bool.or_true, hshrink] at hs'
        cases hs'
      | false => exact ih _ _ hs (excess_of_not_lowered hl h)
    | other => exact ih _ _ hs h

/-- No alarm has more status changes than the limit allows. -/
def WithinLimit (w : World) : Prop :=
  ∀ k e, (w.slot k).entry = some e → e.excess w.maxAlarmStatusChanges = 0

theorem kept_excess (limit limit' : Option UInt16) :
    Kept limit' fun _ s => ∀ e, s.entry = some e → e.excess limit = 0 :=
  kept_entries (fun _ _ h => excess_shrink h _) (fun _ _ h => excess_shrink h _) fun _ _ _ h => h

/-- A control change that has to read the shelving rules can do so. -/
def ReadsRules (t : Transition World Event) : Prop :=
  ∀ changes shelving, t.label.call = .controlChanged changes shelving →
    (needsReshelve changes t.before && t.label.env.getDataThrows) = false

omit [Libyang] in
theorem Works.readsRules (hworks : Works tr) : ∀ t ∈ tr, ReadsRules t := by
  intro t ht changes shelving _
  have h := hworks t ht
  simp only [Env.works, Bool.and_eq_true, Bool.not_eq_true'] at h
  rw [h.1.1, Bool.and_false]

theorem withinLimit_controlled (hi : Inv w) (h : WithinLimit w) (now : TimePoint) (changes : List ControlChange)
    (shelving : ShelvingRules) : WithinLimit (w.controlled now changes shelving) := by
  have hlimit : (w.controlled now changes shelving).maxAlarmStatusChanges =
      (w.scanned changes).maxAlarmStatusChanges := by
    have := congrArg (fun w : World => w.maxAlarmStatusChanges) (World.controlled_frame now changes shelving w)
    exact this
  unfold WithinLimit
  rw [hlimit]
  cases hn : needsShrink changes w with
  | false =>
    exact (kept_excess _ _).controlled shelving hi
      (fun k e he => excess_scanned changes w.toDaemon false hn (h k e he))
  | true =>
    intro k e he
    unfold World.controlled at he
    rw [hn, if_pos rfl, World.shrunk, World.controlReshelved_limit] at he
    cases hl : (w.scanned changes).maxAlarmStatusChanges with
    | none => rfl
    | some n =>
      rw [hl] at he
      simp only [Option.isNone_some, Bool.false_eq_true, if_false] at he
      rw [World.slot_foldl (World.slot_trim_self _) (World.slot_trim_of_ne _)] at he
      split at he
      · cases he
        exact excess_shrink_self _ _
      · rename_i hnone
        rw [World.slot] at he
        rw [hnone] at he
        cases he

theorem Effect.withinLimit (hi : Inv w) (he : Effect w ev w₁) (hheard : ReadsRules ⟨w, ev, w'⟩) (h : WithinLimit w) :
    WithinLimit w₁ := by
  cases he with
  | none => exact h
  | submitted => exact fun k e he => entry_submitted h (excess_shrink_self _ _) he
  | submittedPartly => exact fun k e he => entry_submittedPartly h (excess_shrink_self _ _) he
  | purged filter hz =>
    rename_i l input env r
    have hlimit := congrArg (fun w : World => w.maxAlarmStatusChanges) (w.purged_frame l filter env.now)
    have hlimit' : (w.purged l filter env.now).maxAlarmStatusChanges = w.maxAlarmStatusChanges := hlimit
    rw [WithinLimit, hlimit']
    exact (kept_excess _ Option.none).purged hi h _ filter _
  | compressed =>
    rename_i l input env r
    have hlimit := congrArg (fun w : World => w.maxAlarmStatusChanges) (w.compressed_frame l (compressFilter input))
    have hlimit' : (w.compressed l (compressFilter input)).maxAlarmStatusChanges = w.maxAlarmStatusChanges := hlimit
    rw [WithinLimit, hlimit']
    exact (kept_excess _ Option.none).compressed hi h _ _
  | scanned hg =>
    rw [hheard _ _ rfl] at hg
    cases hg
  | controlled => exact withinLimit_controlled hi h _ _ _

theorem withinLimit_of_run (h : DaemonRun b tr w) (hreads : ∀ t ∈ tr, ReadsRules t) : WithinLimit w := by
  refine h.invariant (I := fun tr w => (∀ t ∈ tr, ReadsRules t) → WithinLimit w) (fun w hs _ k e he => ?_)
    (fun tr w ev w' hr hi hp hworks => ?_) hreads
  · rw [hs.boots.slot_eq k] at he
    cases he
  · have hinv := Inv.of_run hr
    obtain ⟨w₁, he, hs⟩ := (hp.ends hinv).effect
    have hw := he.withinLimit hinv (hworks _ List.mem_cons_self)
      (hi fun t ht => hworks t (List.mem_cons_of_mem _ ht))
    intro k e hk
    rw [hs.slot] at hk
    rw [hs.limit]
    exact hw k e hk

/-! ### The newest changes -/

/-- The published status changes, from the first to the last, are the newest of the alarm's changes in the
reverse of their order, and no more than the limit in force. -/
theorem statusChanges_of_run (h : DaemonRun b tr w) (hclock : StrictClock tr) (hworks : Works tr) {k : InstanceKey}
    {e : AlarmEntry} (he : w.alarms.lookup k = some e) :
    ∃ n hs, w.operational.find (alarmPath (Listing.ofShelf e.shelf) k) = some n ∧ hs <:+ changesSince k tr ∧
      HasChanges n hs.reverse ∧ ∀ limit, w.maxAlarmStatusChanges = some limit → hs.length ≤ limit.toNat := by
  have hc := Clean.of_run h hclock hworks
  obtain ⟨n, hs, hn, hsuffix, hr⟩ := hc.records k e he
  rw [hc.published]
  refine ⟨n, hs, hn, hsuffix, hr.published, fun limit hl => ?_⟩
  have hlen := congrArg List.length hr.times
  rw [List.length_map, List.length_map] at hlen
  have hwithin := withinLimit_of_run h hworks.readsRules k e he
  rw [hl] at hwithin
  unfold AlarmEntry.excess at hwithin
  simp only at hwithin
  omega

/-! ### The latest change -/

/-- The node has a first status change, and it shows the alarm as its leaves do. -/
structure ShowsLatest (n : Node) (x : DataNode) : Prop where
  first : (n.instances .statusChange).head? = some x
  time : x.1.keys.lookup .time = n.leaf .lastChanged
  alarmText : x.2.leaf .alarmText = n.leaf .alarmText
  perceivedSeverity : x.2.leaf .perceivedSeverity =
    if n.leaf .isCleared = some "true" then some "cleared" else n.leaf .perceivedSeverity

/-- Every alarm that is published shows its latest change. -/
def AllShowLatest (tree : Node) : Prop :=
  ∀ l k n, tree.find (alarmPath l k) = some n → ∃ x, ShowsLatest n x

/-- The call does not leave an alarm without status changes: no alarm is submitted while the limit is zero,
and the limit does not become zero while there are alarms. -/
def KeepsHistory (t : Transition World Event) : Prop :=
  match t.label.call with
  | .createOrUpdateAlarm _ input =>
    Effective t.label.env input t.before → t.before.maxAlarmStatusChanges ≠ some 0
  | .controlChanged changes _ =>
    (t.before.scanned changes).maxAlarmStatusChanges = some 0 → t.before.alarms = .empty
  | _ => True

/-- Every alarm has a status change. -/
def HaveChanges (w : World) : Prop := ∀ k e, (w.slot k).entry = some e → e.statusChanges ≠ []

omit [Libyang] in
theorem statusChanges_shrink_ne_nil {e : AlarmEntry} (hl : limit ≠ some 0) (h : e.statusChanges ≠ []) :
    (e.shrinkStatusChanges limit).1.statusChanges ≠ [] := by
  have hlen := length_shrink e limit
  have hpos : 0 < e.statusChanges.length := List.length_pos_iff.2 h
  intro hnil
  rw [hnil, List.length_nil] at hlen
  cases limit with
  | none =>
    unfold AlarmEntry.excess at hlen
    simp only at hlen
    omega
  | some n =>
    have hn : n.toNat ≠ 0 := fun hz => hl (congrArg some (UInt16.toNat_inj.1 hz))
    unfold AlarmEntry.excess at hlen
    simp only at hlen
    omega

theorem kept_haveChanges (hl : limit ≠ some 0) :
    Kept limit fun _ s => ∀ e, s.entry = some e → e.statusChanges ≠ [] :=
  kept_entries (fun _ _ h => statusChanges_shrink_ne_nil (by decide) h)
    (fun _ _ h => statusChanges_shrink_ne_nil hl h) fun _ _ _ h => h

theorem haveChanges_controlled (hi : Inv w) {changes : List ControlChange} (h : HaveChanges w)
    (hk : (w.scanned changes).maxAlarmStatusChanges = some 0 → w.alarms = .empty) (now : TimePoint)
    (shelving : ShelvingRules) : HaveChanges (w.controlled now changes shelving) := by
  by_cases hl : (w.scanned changes).maxAlarmStatusChanges = some 0
  · intro k e he
    have hempty : ∀ k, (w.slot k).entry = none := fun k => by rw [World.slot, hk hl]; rfl
    have hnone : ((w.controlled now changes shelving).slot k).entry = none :=
      (kept_absent _).controlled shelving hi hempty k
    rw [hnone] at he
    cases he
  · exact (kept_haveChanges hl).controlled shelving hi h

theorem Effect.haveChanges (hi : Inv w) (he : Effect w ev w₁) (hk : KeepsHistory ⟨w, ev, w'⟩)
    (hworks : ev.env.works = true) (h : HaveChanges w) : HaveChanges w₁ := by
  have hsubmission : ∀ {env : Env} {input : AlarmInput}, w.maxAlarmStatusChanges ≠ some 0 →
      (w.submission env input).1.statusChanges ≠ [] := fun hl =>
    statusChanges_shrink_ne_nil hl (List.append_ne_nil_of_right_ne_nil _ (List.cons_ne_nil _ _))
  have hno : (Option.none : Option UInt16) ≠ some 0 := nofun
  cases he with
  | none => exact h
  | submitted _ he => exact fun k e hk' => entry_submitted h (hsubmission (hk he)) hk'
  | submittedPartly _ he => exact fun k e hk' => entry_submittedPartly h (hsubmission (hk he)) hk'
  | purged filter => exact (kept_haveChanges hno).purged hi h _ filter _
  | compressed => exact (kept_haveChanges hno).compressed hi h _ _
  | scanned hg =>
    have hthrows := (Bool.and_eq_true_iff.1 hg).2
    simp only [Env.works, hthrows, Bool.not_true, Bool.false_and] at hworks
    cases hworks
  | controlled => exact haveChanges_controlled hi h hk _ _

theorem haveChanges_of_run (h : DaemonRun b tr w) (hworks : Works tr) (hkeep : ∀ t ∈ tr, KeepsHistory t) :
    HaveChanges w := by
  refine h.invariant (I := fun tr w => Works tr → (∀ t ∈ tr, KeepsHistory t) → HaveChanges w)
    (fun w hs _ _ k e he => ?_) (fun tr w ev w' hr hi hp hworks hkeep => ?_) hworks hkeep
  · rw [hs.boots.slot_eq k] at he
    cases he
  · have hinv := Inv.of_run hr
    obtain ⟨w₁, he, hs⟩ := (hp.ends hinv).effect
    have hw := he.haveChanges hinv (hkeep _ List.mem_cons_self) (hworks _ List.mem_cons_self)
      (hi (fun t ht => hworks t (List.mem_cons_of_mem _ ht)) fun t ht => hkeep t (List.mem_cons_of_mem _ ht))
    intro k e hk
    rw [hs.slot] at hk
    exact hw k e hk

theorem ShowsLatest.of_records {hs : List PublishedChange} {e : AlarmEntry} {n : Node} {s : Severity}
    (hsev : e.lastSeverity = s.value) (hm : Mirrors e n) (hr : Records hs e n) (hne : e.statusChanges ≠ []) :
    ∃ x, ShowsLatest n x := by
  have hhs : hs ≠ [] := fun hnil => hne (List.map_eq_nil_iff.1 (by rw [hr.times, hnil]; rfl))
  obtain ⟨c, hc⟩ := Option.isSome_iff_exists.1 (List.getLast?_isSome.2 hhs)
  obtain rfl := hr.latest c hc
  have hname : severityName e.lastSeverity = some s.name := by rw [hsev, severityName_value]
  have hread := readChange_child e.publishedChange
  simp only [readChange, Prod.mk.injEq] at hread
  refine ⟨e.publishedChange.child, ?_, ?_, ?_, ?_⟩
  · rw [hr.published, List.head?_map, List.head?_reverse, hc]
    rfl
  · rw [hread.1, hm.lastChanged]
    rfl
  · rw [hread.2.2, hm.alarmText]
    rfl
  · rw [hread.2.1, hm.isCleared, hm.perceivedSeverity, AlarmEntry.publishedChange, hname]
    cases e.isCleared with
    | true => rfl
    | false => rfl

/-- As long as the limit is not zero where it matters, every published alarm has a latest status change and
its leaves agree with it. -/
theorem allShowLatest_of_run (h : DaemonRun b tr w) (hclock : StrictClock tr) (hworks : Works tr)
    (hkeep : ∀ t ∈ tr, KeepsHistory t) : AllShowLatest w.operational := by
  intro l k n hn
  have hi := Inv.of_run h
  have hc := Clean.of_run h hclock hworks
  rw [hc.published] at hn
  obtain ⟨e, he, rfl⟩ := (hi.slots k).entry_of_node hn
  obtain ⟨n', hs, hn', -, hr⟩ := hc.records k e he
  obtain ⟨m, hm', hm⟩ := ((hi.slots k).present e he).mirrored
  obtain ⟨s, hsev⟩ := ((hi.slots k).present e he).severity
  have hn₀ : (w.slot k).node (Listing.ofShelf e.shelf) = some n := hn
  rw [hn₀] at hn' hm'
  cases hn'
  cases hm'
  exact ShowsLatest.of_records hsev hm hr (haveChanges_of_run h hworks hkeep k e he)

end

namespace AlarmsTest

theorem statusChanges_of_run_mixed : ∃ e n hs, (scenario [] mixedCalls).2.alarms.lookup (key "wss") = some e ∧
    (scenario [] mixedCalls).2.operational.find (alarmPath (Listing.ofShelf e.shelf) (key "wss")) = some n ∧
    hs <:+ changesSince (key "wss") (scenario [] mixedCalls).1 ∧ HasChanges n hs.reverse ∧
    ∀ limit, (scenario [] mixedCalls).2.maxAlarmStatusChanges = some limit → hs.length ≤ limit.toNat := by
  obtain ⟨hrun, hclock, hworks⟩ := mixedCalls_run
  have hsome : ((scenario [] mixedCalls).2.alarms.lookup (key "wss")).isSome = true := by decide +kernel
  obtain ⟨e, he⟩ := Option.isSome_iff_exists.1 hsome
  obtain ⟨n, hs, h⟩ := statusChanges_of_run hrun hclock hworks he
  exact ⟨e, n, hs, he, h⟩

theorem allShowLatest_of_run_mixed : AllShowLatest (scenario [] mixedCalls).2.operational := by
  obtain ⟨hrun, hclock, hworks⟩ := mixedCalls_run
  have hlimits : ((scenario [] mixedCalls).1.all fun t =>
      match t.label.call with
      | .createOrUpdateAlarm _ _ => t.before.maxAlarmStatusChanges != some 0
      | .controlChanged changes _ => (t.before.scanned changes).maxAlarmStatusChanges != some 0
      | _ => true) = true := by decide +kernel
  refine allShowLatest_of_run hrun hclock hworks fun t ht => ?_
  have hlimit := List.all_eq_true.1 hlimits t ht
  unfold KeepsHistory
  split
  · rename_i hcall
    rw [hcall] at hlimit
    exact fun _ => bne_iff_ne.1 hlimit
  · rename_i hcall
    rw [hcall] at hlimit
    exact fun hz => absurd hz (bne_iff_ne.1 hlimit)
  · trivial

/-- An alarm is raised while no status changes are to be kept. -/
def noHistoryCalls : List (Call × Env) :=
  [(submit "wss" (.active .warning) "Hey, I'm overheating.", atTime 2),
    (.controlChanged [.maxAlarmStatusChanges (some 0)] [], atTime 1)]

/-- With the limit zero a raised alarm has no status change at all. -/
theorem not_allShowLatest_noHistory :
    ¬ ∀ (b : Boot) (tr : History) (w : World), DaemonRun b tr w → StrictClock tr → Works tr →
      AllShowLatest w.operational := by
  intro hall
  have hrun : DaemonRun (boot []) (scenario [] noHistoryCalls).1 (scenario [] noHistoryCalls).2 :=
    daemonRun_scenario (by decide +kernel)
  have hshow := hall _ _ _ hrun (strictClock_scenario (by decide +kernel)) (works_scenario (by decide +kernel))
    .alarmList (key "wss")
  have hnone : ((scenario [] noHistoryCalls).2.operational.find (alarmPath .alarmList (key "wss"))).map
      (fun n => (n.instances .statusChange).head?.isNone) = some true := by decide +kernel
  obtain ⟨n, hn, hempty⟩ := Option.map_eq_some_iff.1 hnone
  obtain ⟨x, hx⟩ := hshow n hn
  rw [hx.first] at hempty
  cases hempty

end AlarmsTest
end IetfAlarms

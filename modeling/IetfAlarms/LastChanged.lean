import IetfAlarms.ListTimes

/-!
# When the lists last changed

With a clock that never goes back and a working sysrepo the published time of a list is the time of the
last call that touched it (`LastTouched`), the daemon's start if there is none.
-/

namespace IetfAlarms
open Program Trace DataTree DataTree.Node

/-- The start of the list's time. -/
def Boot.listStart (b : Boot) : Listing → TimePoint
  | .alarmList => b.alarmListStart
  | .shelvedAlarms => b.shelfListStart

/-- The time of the latest call that touched the list; if there is none, of the daemon's start. -/
inductive LastTouched (b : Boot) (l : Listing) : History → TimePoint → Prop
  | start : LastTouched b l [] (b.listStart l)
  | touched {t : Transition World Event} {tr : History} :
      Touches l t.before t.after → LastTouched b l (t :: tr) t.label.env.now
  | untouched {t : Transition World Event} {tr : History} {time : TimePoint} :
      ¬ Touches l t.before t.after → LastTouched b l tr time → LastTouched b l (t :: tr) time

/-- The readings of the clock, the latest first, never go back. -/
def SteadyClock (b : Boot) (tr : History) : Prop :=
  (tr.map (·.label.env.now) ++ [b.env.now, b.shelfListStart, b.alarmListStart]).Pairwise (· ≥ ·)

section
variable [Libyang] {b : Boot} {w w₁ w' : World} {ev : Event} {env : Env} {input : AlarmInput} {k : InstanceKey}
variable {tr : History} {t : Transition World Event} {l : Listing} {rules : ShelvingRules}

/-! ### Calls -/

/-- Nothing in a list is later than the list. -/
def World.Timely (w : World) : Prop := ∀ k, Bounded w.listTime (w.slot k)

theorem World.Timely.congr (h : w.Timely) (ht : ∀ l, w'.listTime l = w.listTime l) (hs : ∀ k, w'.slot k = w.slot k) :
    w'.Timely := by
  intro k
  rw [hs]
  exact (h k).mono fun l => (ht l).ge

theorem timely_purged (hb : w.Timely) {filter : AlarmFilter} {now : TimePoint} (hnow : ∀ l, w.listTime l ≤ now) :
    (w.purged l filter now).Timely := by
  intro k
  have hle : ∀ l', w.listTime l' ≤ (w.purged l filter now).listTime l' := by
    intro l'
    rw [listTime_purged hb hnow]
    split
    · exact hnow l'
    · exact le_refl _
  rw [slot_purged]
  cases he : w.alarms.lookup k with
  | none => exact .of_absent he
  | some e => exact ((hb k).purge l filter).mono hle

theorem timely_compressed (hb : w.Timely) (l : Listing) (filter : AlarmFilter) : (w.compressed l filter).Timely := by
  intro k
  have hle : ∀ l', w.listTime l' ≤ (w.compressed l filter).listTime l' :=
    fun l' => ((sameTimes_compressed l filter w).listTime l').ge
  rw [World.compressed, World.slot_foldl (World.slot_compress_self l filter) (World.slot_compress_of_ne l filter)]
  cases he : w.alarms.lookup k with
  | none => exact .of_absent he
  | some e => exact ((hb k).compress (s := w.slot k) he l filter).mono hle

theorem timely_shrunk (hb : w.Timely) : w.shrunk.Timely := by
  intro k
  have hle : ∀ l, w.listTime l ≤ w.shrunk.listTime l := fun l => ((sameTimes_shrunk w).listTime l).ge
  unfold World.shrunk at hle ⊢
  split
  · exact hb k
  · rename_i hn
    rw [if_neg hn] at hle
    rw [World.slot_foldl (World.slot_trim_self _) (World.slot_trim_of_ne _)]
    cases he : w.alarms.lookup k with
    | none => exact .of_absent he
    | some e => exact ((hb k).trim (s := w.slot k) he _).mono hle

theorem timely_reshelved (hi : Inv w) (hb : w.Timely) {now : TimePoint} (hnow : ∀ l, w.listTime l ≤ now) :
    (w.reshelved now rules).Timely :=
  fun k => (bounded_reshelve hi hb hnow k).mono fun l => (listTime_reshelved hi hb hnow l).ge

theorem timely_scanned (hb : w.Timely) (changes : List ControlChange) : (w.scanned changes).Timely := by
  refine hb.congr (sameTimes_scanned changes w).listTime fun k => ?_
  rw [World.scanned_eq]
  rfl

/-- A control change touches the lists as far as it moves alarms. -/
theorem retimes_controlled (hi : Inv w) (hb : w.Timely) {now : TimePoint} (hnow : ∀ l, w.listTime l ≤ now)
    (changes : List ControlChange) (shelving : ShelvingRules) :
    Retimes now w (w.controlled now changes shelving) ∧ (w.controlled now changes shelving).Timely := by
  have hscanned := sameTimes_scanned changes w
  have hnow' : ∀ l, (w.scanned changes).listTime l ≤ now := fun l => (hscanned.listTime l).trans_le (hnow l)
  have hreshelved : Retimes now w (w.controlReshelved now changes shelving) ∧
      (w.controlReshelved now changes shelving).Timely := by
    unfold World.controlReshelved
    split
    · have hretimes : Retimes now (w.scanned changes) ((w.scanned changes).reshelved now shelving) :=
        retimes_reshelved (hi.scanned changes) (timely_scanned hb changes) hnow'
      exact ⟨hretimes.congr hscanned (.refl _),
        timely_reshelved (hi.scanned changes) (timely_scanned hb changes) hnow'⟩
    · exact ⟨hscanned.retimes now, timely_scanned hb changes⟩
  unfold World.controlled
  split
  · exact ⟨hreshelved.1.congr (.refl w) (sameTimes_shrunk _), timely_shrunk hreshelved.2⟩
  · exact hreshelved

theorem Effect.retimes (hi : Inv w) (he : Effect w ev w₁) (hb : w.Timely) (hnow : ∀ l, w.listTime l ≤ ev.env.now) :
    Retimes ev.env.now w w₁ ∧ w₁.Timely := by
  cases he with
  | none => exact ⟨(SameTimes.refl w).retimes _, hb⟩
  | submitted _ he hf _ =>
    exact ⟨retimes_submitted hi he.toAsksChange hb hnow, bounded_submitted hi hf hb hnow⟩
  | submittedPartly _ he hf =>
    refine ⟨retimes_submittedPartly hi he.toAsksChange hf hb hnow, fun k => ?_⟩
    refine (bounded_submittedPartly hi hf hb k).mono fun l => ?_
    cases l
    · exact le_refl _
    · exact le_refl _
  | purged filter hz => exact ⟨retimes_purged hz hb hnow, timely_purged hb hnow⟩
  | compressed => exact ⟨(sameTimes_compressed _ _ w).retimes _, timely_compressed hb _ _⟩
  | scanned => exact ⟨(sameTimes_scanned _ w).retimes _, timely_scanned hb _⟩
  | controlled => exact retimes_controlled hi hb hnow _ _

/-! ### What is published -/

/-- The tree shows the times. -/
def World.ShowsTimes (w : World) : Prop :=
  ∀ l : Listing, statistic w.edit l.lastChangedPath = some (yangTimeFormat (w.listTime l))

theorem World.ShowsTimes.congr (h : w.ShowsTimes) (ht : ∀ l, w'.listTime l = w.listTime l)
    (hfind : ∀ p ∈ statisticsPaths, w'.edit.find p = w.edit.find p) : w'.ShowsTimes := by
  intro l
  have hl := h l
  rw [World.statistic] at hl ⊢
  rw [hfind _ l.lastChangedPath_mem, hl, ht]

theorem World.showsTimes_recount (w : World) : w.recount.ShowsTimes := fun l => w.lastChanged_recount l

theorem showsTimes_reshelved (h : w.ShowsTimes) (now : TimePoint) (rules : ShelvingRules) :
    (w.reshelved now rules).ShowsTimes := by
  cases hany : w.alarms.entries.any (reshelves rules) with
  | true =>
    unfold World.reshelved
    rw [hany]
    exact World.showsTimes_recount _
  | false =>
    rw [World.reshelved_eq_self hany]
    exact h.congr (fun l => by cases l <;> rfl) fun _ _ => rfl

theorem find_shrunk (w : World) {p : Path} (hp : p ∈ statisticsPaths) : w.shrunk.edit.find p = w.edit.find p := by
  unfold World.shrunk
  split
  · rfl
  · exact foldl_view (v := fun w : World => w.edit.find p) fun x _ w => World.find_trim hp _ w x

theorem showsTimes_controlled (h : w.ShowsTimes) (now : TimePoint) (changes : List ControlChange)
    (shelving : ShelvingRules) : (w.controlled now changes shelving).ShowsTimes := by
  have hscanned : (w.scanned changes).ShowsTimes := by
    refine h.congr (sameTimes_scanned changes w).listTime fun p _ => ?_
    rw [World.scanned_eq]
  have hreshelved : (w.controlReshelved now changes shelving).ShowsTimes := by
    unfold World.controlReshelved
    split
    · exact showsTimes_reshelved hscanned now shelving
    · exact hscanned
  unfold World.controlled
  split
  · exact hreshelved.congr (sameTimes_shrunk _).listTime fun p hp => find_shrunk _ hp
  · exact hreshelved

/-- A submission that fails half way has not got to the statistics. -/
theorem find_submittedPartly {p : Path} (hp : p ∈ statisticsPaths) :
    (w.submittedPartly env input).edit.find p = w.edit.find p :=
  find_modify_of_apart (statisticsPaths_apart_entry hp rfl []).symm _ _

theorem Effect.showsTimes (he : Effect w ev w₁) (h : w.ShowsTimes) : w₁.ShowsTimes := by
  cases he with
  | none => exact h
  | submitted => exact World.showsTimes_recount _
  | submittedPartly => exact h.congr (fun l => by cases l <;> rfl) fun _ hp => find_submittedPartly hp
  | purged => exact World.showsTimes_recount _
  | compressed =>
    exact h.congr (sameTimes_compressed _ _ w).listTime fun p hp =>
      foldl_view (v := fun w : World => w.edit.find p) fun x _ w => World.find_compress hp _ _ w x
  | scanned =>
    refine h.congr (sameTimes_scanned _ w).listTime fun p _ => ?_
    rw [World.scanned_eq]
  | controlled => exact showsTimes_controlled h _ _ _

/-- With a working sysrepo the datastore has the statistics of the tree, even where the rest of it lags behind. -/
theorem Ends.statistics_published (hi : Inv w) (he : Ends w ev w') (hworks : ev.env.works = true)
    (h : ∀ p ∈ statisticsPaths, w.operational.find p = w.edit.find p) {p : Path} (hp : p ∈ statisticsPaths) :
    w'.operational.find p = w'.edit.find p := by
  rcases he.writes hi with hw | hw | ⟨ho, ⟨-, hw⟩ | ⟨o, input, hcall, hout, hserved, heffective, hf⟩⟩
  · rw [hw]
  · rw [hw.operational, hw.edit]
    exact h p hp
  · simp only [Env.works, hw, Bool.not_true, Bool.and_false, Bool.false_and] at hworks
    cases hworks
  · obtain ⟨call, env, r⟩ := ev
    cases hcall
    cases hout
    cases he with
    | refused hno => exact absurd heffective (hno hserved)
    | clash => exact (h p hp).trans (find_submittedPartly hp).symm
    | changed _ _ hfresh => exact absurd hfresh hf

/-! ### Runs -/

omit [Libyang] in
/-- The time of the latest touch is a reading of the clock. -/
theorem LastTouched.mem {time : TimePoint} (h : LastTouched b l tr time) :
    time ∈ tr.map (·.label.env.now) ++ [b.env.now, b.shelfListStart, b.alarmListStart] := by
  induction h with
  | start => cases l <;> simp [Boot.listStart]
  | touched => simp
  | untouched _ _ ih => exact List.mem_cons_of_mem _ ih

omit [Libyang] in
theorem LastTouched.unique {time time' : TimePoint} (h : LastTouched b l tr time) (h' : LastTouched b l tr time') :
    time = time' := by
  induction h with
  | start =>
    cases h'
    rfl
  | touched ht =>
    cases h' with
    | touched => rfl
    | untouched hn => exact absurd ht hn
  | untouched hn _ ih =>
    cases h' with
    | touched ht => exact absurd ht hn
    | untouched _ h' => exact ih h'

omit [Libyang] in
/-- A later reading of a steady clock is not earlier than the latest touch. -/
theorem LastTouched.le_now {time : TimePoint} (h : LastTouched b l tr time) (hclock : SteadyClock b (t :: tr)) :
    time ≤ t.label.env.now :=
  (List.pairwise_cons.1 hclock).1 time h.mem

omit [Libyang] in
theorem SteadyClock.tail (h : SteadyClock b (t :: tr)) : SteadyClock b tr := (List.pairwise_cons.1 h).2

/-- The time points of the daemon in a run. -/
structure Timed (b : Boot) (tr : History) (w : World) : Prop where
  touched : ∀ l, LastTouched b l tr (w.listTime l)
  timely : w.Timely
  shows : w.ShowsTimes
  published : ∀ p ∈ statisticsPaths, w.operational.find p = w.edit.find p

theorem Boots.timed (h : Boots b w) : Timed b [] w := by
  have htime : ∀ l, w.listTime l = b.listStart l := by
    intro l
    cases l
    · exact h.alarmListLastChanged
    · exact h.shelfListLastChanged
  refine ⟨fun l => ?_, fun k => ?_, fun l => ?_, fun p _ => by rw [h.operational]⟩
  · rw [htime]
    exact .start
  · rw [h.slot_eq k]
    exact .of_absent rfl
  · have hcreated : b.created.recount.listTime l = b.listStart l := by cases l <;> rfl
    rw [h.edit, htime, ← hcreated]
    exact World.lastChanged_recount l b.created

/-- A call keeps them right. -/
theorem Timed.step (h : Timed b tr w) (hi : Inv w) (he : Ends w ev w') (hclock : SteadyClock b (⟨w, ev, w'⟩ :: tr))
    (hworks : ev.env.works = true) : Timed b (⟨w, ev, w'⟩ :: tr) w' := by
  have hnow : ∀ l, w.listTime l ≤ ev.env.now := fun l => (h.touched l).le_now hclock
  obtain ⟨w₁, heff, hs⟩ := he.effect
  obtain ⟨hretimes, htimely⟩ := heff.retimes hi h.timely hnow
  have hretimes' : Retimes ev.env.now w w' := hretimes.congr (.refl w) hs.sameTimes
  refine ⟨fun l => ?_, htimely.congr hs.sameTimes.listTime hs.slot,
    (heff.showsTimes h.shows).congr hs.sameTimes.listTime fun p _ => by rw [hs.edit],
    fun p hp => he.statistics_published hi hworks h.published hp⟩
  by_cases ht : Touches l w w'
  · rw [(hretimes' l).1 ht]
    exact .touched ht
  · rw [(hretimes' l).2 ht]
    exact .untouched ht (h.touched l)

theorem Timed.of_run (h : DaemonRun b tr w) (hclock : SteadyClock b tr) (hworks : Works tr) : Timed b tr w := by
  refine h.invariant (I := fun tr w => SteadyClock b tr → Works tr → Timed b tr w) (fun w hs _ _ => hs.boots.timed)
    (fun tr w ev w' hr hi hp hclock hworks => ?_) hclock hworks
  have hbefore := hi hclock.tail fun t ht => hworks t (List.mem_cons_of_mem _ ht)
  have hinv := Inv.of_run hr
  exact hbefore.step hinv (hp.ends hinv) hclock (hworks _ List.mem_cons_self)

/-! ### The published time -/

/-- What the datastore has in the leaf of this list. -/
def World.publishedTime (l : Listing) (w : World) : Option String := statistic w.operational l.lastChangedPath

theorem Timed.publishedTime (h : Timed b tr w) (l : Listing) :
    w.publishedTime l = some (yangTimeFormat (w.listTime l)) := by
  rw [World.publishedTime, World.statistic, h.published _ l.lastChangedPath_mem]
  exact h.shows l

/-- The published time of a list is that of its latest touch; it never goes back, and a call that does not
touch the list leaves it alone. -/
structure PublishesTouches (b : Boot) (l : Listing) (tr : History) (w : World) : Prop where
  latest : ∃ time, LastTouched b l tr time ∧ w.publishedTime l = some (yangTimeFormat time)
  forward : ∀ t ∈ tr, ∃ time time', t.before.publishedTime l = some (yangTimeFormat time) ∧
    t.after.publishedTime l = some (yangTimeFormat time') ∧ time ≤ time'
  alone : ∀ t ∈ tr, ¬ Touches l t.before t.after → t.after.publishedTime l = t.before.publishedTime l

/-- With a clock that does not go back and a working sysrepo the leaves say when their lists last changed. -/
theorem publishesTouches_of_run (h : DaemonRun b tr w) (hclock : SteadyClock b tr) (hworks : Works tr) (l : Listing) :
    PublishesTouches b l tr w := by
  have htimed := Timed.of_run h hclock hworks
  have hpart : ∀ t ∈ tr, ∃ tr', SteadyClock b (t :: tr') ∧ Timed b tr' t.before ∧ Timed b (t :: tr') t.after := by
    intro t ht
    obtain ⟨tr', hs⟩ := Run.suffix_of_mem ht
    obtain ⟨hbefore, hstep⟩ := h.of_suffix hs
    have hclock' : SteadyClock b (t :: tr') :=
      hclock.sublist ((hs.sublist.map _).append (List.Sublist.refl _))
    have hworks' : Works (t :: tr') := fun u hu => hworks u (hs.subset hu)
    exact ⟨tr', hclock', .of_run hbefore hclock'.tail fun u hu => hworks' u (List.mem_cons_of_mem _ hu),
      .of_run (hbefore.step hstep) hclock' hworks'⟩
  refine ⟨⟨_, htimed.touched l, htimed.publishedTime l⟩, fun t ht => ?_, fun t ht hn => ?_⟩
  · obtain ⟨tr', hclock', hbefore, hafter⟩ := hpart t ht
    refine ⟨_, _, hbefore.publishedTime l, hafter.publishedTime l, ?_⟩
    have hlast := hafter.touched l
    generalize t.after.listTime l = time at hlast
    cases hlast with
    | touched => exact (hbefore.touched l).le_now hclock'
    | untouched _ hlast => exact ((hbefore.touched l).unique hlast).le
  · obtain ⟨tr', -, hbefore, hafter⟩ := hpart t ht
    rw [hafter.publishedTime, hbefore.publishedTime]
    have hlast := hafter.touched l
    generalize t.after.listTime l = time at hlast
    cases hlast with
    | touched htouch => exact absurd htouch hn
    | untouched _ hlast => rw [(hbefore.touched l).unique hlast]

end

namespace AlarmsTest

/-- The clock stands still while an alarm is raised and gets worse; it is shelved and purged later. -/
def touchedCalls : List (Call × Env) :=
  [(.purgeAlarms .shelvedAlarms ⟨.any, none, none⟩, atTime 3),
    (.controlChanged [.alarmShelving] [⟨"shelf", ["wss"], []⟩], atTime 2),
    (submit "wss" (.active .critical) "Getting worse.", atTime 1),
    (submit "wss" (.active .major) "Hey, I'm overheating.", atTime 1)]

theorem steadyClock_scenario {shelving : ShelvingRules} {calls : List (Call × Env)}
    (h : List.Pairwise (· ≥ ·)
      (((scenario shelving calls).1.map fun t : Transition World Event => t.label.env.now) ++ [0, 0, 0])) :
    SteadyClock (boot shelving) (scenario shelving calls).1 := h

theorem publishesTouches_touched :
    PublishesTouches (boot []) .shelvedAlarms (scenario [] touchedCalls).1 (scenario [] touchedCalls).2 :=
  publishesTouches_of_run (daemonRun_scenario (by decide +kernel)) (steadyClock_scenario (by decide +kernel))
    (works_scenario (by decide +kernel)) .shelvedAlarms

end AlarmsTest
end IetfAlarms

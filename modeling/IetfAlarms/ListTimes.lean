import IetfAlarms.History
import IetfAlarms.Purging
import Mathlib.Order.Bounds.Basic

/-!
# The times of the lists

`updateStatistics` moves the time of a list up to the latest change of an alarm in it; `purgeAlarms` and
`reshelve` set it. Where nothing in a list is later than the list, neither an entry nor a status change in
the tree (`Bounded`), each of them sets the times of the lists that it touches and no others (`Retimes`).
A submission that finds its time taken sets nothing, but then its list has that time already.
-/

namespace IetfAlarms
open Program Trace DataTree DataTree.Node

/-! ### The two leaves -/

def World.listTime (l : Listing) (w : World) : TimePoint :=
  match l with
  | .alarmList => w.alarmListLastChanged
  | .shelvedAlarms => w.shelfListLastChanged

/-- `last-changed`, or `shelved-alarms-last-changed`. -/
def Listing.lastChangedPath : Listing → Path
  | alarmList => alarmList.path ++ [⟨.lastChanged, []⟩]
  | shelvedAlarms => shelvedAlarms.path ++ [⟨.shelvedAlarmsLastChanged, []⟩]

theorem Listing.lastChangedPath_mem (l : Listing) : l.lastChangedPath ∈ statisticsPaths := by
  cases l <;> simp [lastChangedPath, statisticsPaths]

/-! ### What touches a list -/

/-- What the lists show of an alarm, its status changes apart. -/
def AlarmEntry.state (e : AlarmEntry) : Option String × Bool × Int × String :=
  (e.shelf, e.isCleared, e.lastSeverity, e.text)

def World.state (w : World) (k : InstanceKey) : Option (Option String × Bool × Int × String) :=
  (w.alarms.lookup k).map AlarmEntry.state

/-- The alarm is in this list. -/
def InList (l : Listing) (state : Option (Option String × Bool × Int × String)) : Prop :=
  ∃ s, state = some s ∧ Listing.ofShelf s.1 = l

/-- Some alarm that is in this list before or afterwards is created, changes its clearance, severity or text,
is removed, or moves to another shelf or list. -/
def Touches (l : Listing) (w w' : World) : Prop :=
  ∃ k, w.state k ≠ w'.state k ∧ (InList l (w.state k) ∨ InList l (w'.state k))

section
variable [Libyang] {w w₁ w' : World} {env : Env} {input : AlarmInput} {k : InstanceKey}
variable {l : Listing} {e : AlarmEntry} {s : Slot} {rules : ShelvingRules}

/-! ### The time of a list -/

/-- Where `updateStatistics` looks for the time of a list. -/
def World.times (l : Listing) (w : World) : Set TimePoint :=
  {time | time = w.listTime l ∨ ∃ k e, w.alarms.lookup k = some e ∧ Listing.ofShelf e.shelf = l ∧ e.lastChanged = time}

/-- The time of a list in a tally. -/
def Tally.listTime (l : Listing) (tally : Tally) : TimePoint :=
  match l with
  | .alarmList => tally.alarmListLastChanged
  | .shelvedAlarms => tally.shelfListLastChanged

omit [Libyang] in
theorem listTime_count (l : Listing) (tally : Tally) (x : InstanceKey × AlarmEntry) :
    (tally.count x).listTime l =
      if Listing.ofShelf x.2.shelf = l ∧ tally.listTime l ≤ x.2.lastChanged then x.2.lastChanged
      else tally.listTime l := by
  unfold Tally.count Listing.ofShelf
  cases hs : x.2.shelf <;> cases l <;> simp [Tally.listTime, hs]

omit [Libyang] in
/-- The loop over the alarms finds the latest time. -/
theorem isGreatest_count (l : Listing) (alarms : AlarmTable) (start : Tally) :
    IsGreatest {time | time = start.listTime l ∨
        ∃ x ∈ alarms, Listing.ofShelf x.2.shelf = l ∧ x.2.lastChanged = time}
      ((alarms.foldl Tally.count start).listTime l) := by
  induction alarms using List.reverseRecOn with
  | nil =>
    refine ⟨.inl rfl, ?_⟩
    rintro time (rfl | ⟨x, hx, -⟩)
    · exact le_refl _
    · cases hx
  | append_singleton alarms x ih =>
    rw [List.foldl_append, List.foldl_cons, List.foldl_nil, listTime_count]
    generalize alarms.foldl Tally.count start = tally at ih
    obtain ⟨hmem, hle⟩ := ih
    constructor
    · split
      · rename_i h
        exact .inr ⟨x, List.mem_append_right _ List.mem_cons_self, h.1, rfl⟩
      · exact hmem.imp id fun ⟨y, hy, hl, ht⟩ => ⟨y, List.mem_append_left _ hy, hl, ht⟩
    · have htally : tally.listTime l ≤ if Listing.ofShelf x.2.shelf = l ∧ tally.listTime l ≤ x.2.lastChanged
          then x.2.lastChanged else tally.listTime l := by
        split
        · rename_i h
          exact h.2
        · exact le_refl _
      rintro time (rfl | ⟨y, hy, hl, rfl⟩)
      · exact (hle (.inl rfl)).trans htally
      · rcases List.mem_append.1 hy with hy | hy
        · exact (hle (.inr ⟨y, hy, hl, rfl⟩)).trans htally
        · rw [List.mem_singleton] at hy
          subst hy
          split
          · exact le_refl _
          · rename_i h
            exact (not_le.1 fun h' => h ⟨hl, h'⟩).le

omit [Libyang] in
theorem World.isGreatest_tally (l : Listing) (w : World) : IsGreatest (w.times l) (w.tally.listTime l) := by
  have hstart : (Tally.start w.alarmListLastChanged w.shelfListLastChanged).listTime l = w.listTime l := by
    cases l <;> rfl
  have hcount := isGreatest_count l w.alarms.entries (Tally.start w.alarmListLastChanged w.shelfListLastChanged)
  have hset : w.times l = {time | time = (Tally.start w.alarmListLastChanged w.shelfListLastChanged).listTime l ∨
      ∃ x ∈ w.alarms.entries, Listing.ofShelf x.2.shelf = l ∧ x.2.lastChanged = time} := by
    ext time
    rw [hstart]
    refine or_congr_right ⟨?_, ?_⟩
    · rintro ⟨k, e, he, hl, ht⟩
      exact ⟨(k, e), AssocMap.mem_entries_iff.2 he, hl, ht⟩
    · rintro ⟨x, hx, hl, ht⟩
      exact ⟨x.1, x.2, AssocMap.mem_entries_iff.1 hx, hl, ht⟩
  rw [hset]
  exact hcount

theorem World.isGreatest_recount (l : Listing) (w : World) : IsGreatest (w.times l) (w.recount.listTime l) := by
  have := w.isGreatest_tally l
  cases l <;> exact this

/-- Recounting changes nothing when no alarm is later than its list. -/
theorem World.listTime_recount (h : ∀ k e, w.alarms.lookup k = some e → Listing.ofShelf e.shelf = l →
    e.lastChanged ≤ w.listTime l) : w.recount.listTime l = w.listTime l := by
  refine (w.isGreatest_recount l).unique ⟨.inl rfl, ?_⟩
  rintro time (rfl | ⟨k, e, he, hl, rfl⟩)
  · exact le_refl _
  · exact h k e he hl

theorem World.lastChanged_recount (l : Listing) (w : World) :
    statistic w.recount.edit l.lastChangedPath = some (yangTimeFormat (w.recount.listTime l)) := by
  refine statistic_recount (List.mem_append_right _ ?_)
  cases l <;> simp [totalWrites, Listing.lastChangedPath, listTime, recount]

/-! ### Nothing is later than its list -/

/-- The alarm's last change and the status changes in its node are not later than its list. -/
def Bounded (T : Listing → TimePoint) (s : Slot) : Prop :=
  ∀ e, s.entry = some e → e.lastChanged ≤ T (Listing.ofShelf e.shelf) ∧
    ∃ n cs, s.node (Listing.ofShelf e.shelf) = some n ∧ HasChanges n cs ∧
      ∀ c ∈ cs, c.time ≤ T (Listing.ofShelf e.shelf)

namespace Bounded
variable {T T' : Listing → TimePoint}

theorem of_absent (he : s.entry = none) : Bounded T s := by
  intro e he'
  rw [he] at he'
  cases he'

theorem mono (h : Bounded T s) (hle : ∀ l, T l ≤ T' l) : Bounded T' s := by
  intro e he
  obtain ⟨hc, n, cs, hn, hcs, hb⟩ := h e he
  exact ⟨hc.trans (hle _), n, cs, hn, hcs, fun c hm => (hb c hm).trans (hle _)⟩

/-- An alarm that stays in its list, with no later changes than before. -/
theorem editInPlace (e' : AlarmEntry) {f : Node → Node} {n : Node} {cs : List PublishedChange}
    (hn : s.node (Listing.ofShelf e'.shelf) = some n) (hc : e'.lastChanged ≤ T (Listing.ofShelf e'.shelf))
    (hcs : HasChanges (f n) cs) (hb : ∀ c ∈ cs, c.time ≤ T (Listing.ofShelf e'.shelf)) :
    Bounded T ((s.setEntry e').editNode (Listing.ofShelf e'.shelf) f) := by
  intro e he
  cases he
  refine ⟨hc, f n, cs, ?_, hcs, hb⟩
  show (if Listing.ofShelf e'.shelf = Listing.ofShelf e'.shelf then
    some (f ((s.node (Listing.ofShelf e'.shelf)).getD Node.empty)) else _) = _
  rw [if_pos rfl, hn]
  rfl

theorem trim (he : s.entry = some e) (h : Bounded T s) (limit : Option UInt16) : Bounded T (s.trim limit (k, e)) := by
  obtain ⟨hc, n, cs, hn, hcs, hb⟩ := h e he
  have hsh : (e.shrinkStatusChanges limit).1.shelf = e.shelf := by rw [AlarmEntry.shrinkStatusChanges_eq]
  have hlast : (e.shrinkStatusChanges limit).1.lastChanged = e.lastChanged := by
    rw [AlarmEntry.shrinkStatusChanges_eq]
  rw [Slot.trim, ← hsh]
  refine editInPlace _ (hsh ▸ hn) (by rw [hlast, hsh]; exact hc) (hcs.dropChanges _) fun c hm => ?_
  rw [hsh]
  exact hb c (List.mem_filter.1 hm).1

theorem purge (h : Bounded T s) (l : Listing) (filter : AlarmFilter) : Bounded T (s.purge l filter (k, e)) := by
  unfold Slot.purge
  split
  · exact of_absent rfl
  · exact h

theorem compress (he : s.entry = some e) (h : Bounded T s) (l : Listing) (filter : AlarmFilter) :
    Bounded T (s.compress l filter (k, e)) := by
  unfold Slot.compress
  split
  · exact h.trim he _
  · exact h

theorem move (he : s.entry = some e) (hi : SlotInv rules k s) (h : Bounded T s) {shelf : Option String}
    (hne : Listing.ofShelf shelf ≠ Listing.ofShelf e.shelf)
    (hle : T (Listing.ofShelf e.shelf) ≤ T' (Listing.ofShelf shelf)) (created : TimePoint) :
    Bounded T' (s.move (Listing.ofShelf e.shelf) (Listing.ofShelf shelf) { e with shelf := shelf } created) := by
  obtain ⟨hc, n, cs, hn, hcs, hb⟩ := h e he
  obtain ⟨n', hn', hm⟩ := (hi.present e he).mirrored
  rw [hn] at hn'
  cases hn'
  intro e₀ he₀
  cases he₀
  have hwf : (listLeaf shelf created Node.empty).WF := wf_listLeaf WF.empty _ _
  have hnone : HasChanges (listLeaf shelf created Node.empty) [] := instances_listLeaf _ _ _
  refine ⟨hc.trans hle, copyProps n (listLeaf shelf created Node.empty), cs, ?_, hcs.copyProps hm.wf hwf hnone,
    fun c hcm => (hb c hcm).trans hle⟩
  simp only [Slot.move, Slot.unlinkNode, Slot.editNode, Slot.setEntry, if_neg hne, if_pos, hn,
    (hi.present e he).alone _ hne, Option.getD_some, Option.getD_none]

/-- A reshelved alarm is not later than the list it is in now. -/
theorem reshelve {rules' : ShelvingRules} (he : s.entry = some e) (hi : SlotInv rules k s) (h : Bounded T s)
    (hle : ∀ l, T l ≤ T' l)
    (hmove : e.shelf ≠ findMatchingShelf k rules' →
      T (Listing.ofShelf e.shelf) ≤ T' (Listing.ofShelf (findMatchingShelf k rules'))) (now : TimePoint) :
    Bounded T' (s.reshelve now rules' (k, e)) := by
  unfold Slot.reshelve
  cases hold : e.shelf with
  | none =>
    cases hnew : findMatchingShelf k rules' with
    | none => exact h.mono hle
    | some name =>
      rw [hold, hnew] at hmove
      have hne : Listing.ofShelf (some name) ≠ Listing.ofShelf e.shelf := by rw [hold]; exact Listing.noConfusion
      have := h.move he hi hne (by rw [hold]; exact hmove (Option.some_ne_none name).symm) now
      rw [hold] at this
      exact this
  | some old =>
    cases hnew : findMatchingShelf k rules' with
    | none =>
      rw [hold, hnew] at hmove
      have hne : Listing.ofShelf none ≠ Listing.ofShelf e.shelf := by rw [hold]; exact Listing.noConfusion
      have := h.move he hi hne (by rw [hold]; exact hmove (Option.some_ne_none old)) now
      rw [hold] at this
      exact this
    | some name =>
      simp only
      split
      · obtain ⟨hc, n, cs, hn, hcs, hb⟩ := h e he
        rw [hold] at hn hc hb
        have hin : Bounded T' ((s.setEntry { e with shelf := some name }).editNode (Listing.ofShelf (some name))
            fun n => n.setLeaf .shelfName name) :=
          editInPlace { e with shelf := some name } hn (hc.trans (hle _))
            ((instances_setLeaf (by decide) _ _).trans hcs) fun c hm => (hb c hm).trans (hle _)
        exact hin
      · exact h.mono hle

end Bounded

/-! ### What a call does to the times -/

/-- The lists that are touched have this time afterwards, the others keep theirs. -/
def Retimes (now : TimePoint) (w w' : World) : Prop :=
  ∀ l, (Touches l w w' → w'.listTime l = now) ∧ (¬ Touches l w w' → w'.listTime l = w.listTime l)

structure SameTimes (w w' : World) : Prop where
  state : ∀ k, w'.state k = w.state k
  listTime : ∀ l, w'.listTime l = w.listTime l

omit [Libyang] in
theorem SameTimes.retimes (h : SameTimes w w') (now : TimePoint) : Retimes now w w' := by
  refine fun l => ⟨?_, fun _ => h.listTime l⟩
  rintro ⟨k, hne, -⟩
  exact absurd (h.state k).symm hne

omit [Libyang] in
theorem SameTimes.trans {w₂ : World} (h : SameTimes w w₁) (h' : SameTimes w₁ w₂) : SameTimes w w₂ :=
  ⟨fun k => (h'.state k).trans (h.state k), fun l => (h'.listTime l).trans (h.listTime l)⟩

omit [Libyang] in
theorem SameMemory.sameTimes (h : SameMemory w w') : SameTimes w w' := by
  refine ⟨fun k => ?_, fun l => ?_⟩
  · rw [World.state, h.alarms]
    rfl
  · cases l
    · exact h.alarmListLastChanged
    · exact h.shelfListLastChanged

omit [Libyang] in
theorem Touches.congr {w₂ w₃ : World} (hl : SameTimes w w₁) (hr : SameTimes w₂ w₃) :
    Touches l w w₃ ↔ Touches l w₁ w₂ := by
  unfold Touches
  simp only [hl.state, hr.state]

omit [Libyang] in
/-- What leaves states and times alone may stand before or behind. -/
theorem Retimes.congr {w₂ w₃ : World} {now : TimePoint} (h : Retimes now w₁ w₂) (hl : SameTimes w w₁)
    (hr : SameTimes w₂ w₃) : Retimes now w w₃ := by
  intro l
  rw [Touches.congr hl hr, hr.listTime, ← hl.listTime]
  exact h l

omit [Libyang] in
theorem SameTimes.refl (w : World) : SameTimes w w := ⟨fun _ => rfl, fun _ => rfl⟩

/-! ### Submissions -/

omit [Libyang] in
theorem inList_some {state : Option String × Bool × Int × String} :
    InList l (some state) ↔ Listing.ofShelf state.1 = l := by
  refine ⟨?_, fun h => ⟨state, rfl, h⟩⟩
  rintro ⟨s, hs, hl⟩
  cases hs
  exact hl

variable (env) in
/-- An effective submission shows. -/
theorem state_submission_ne (ha : AsksChange input w) :
    w.state (InstanceKey.fromNode input) ≠ some (w.submission env input).1.state := by
  intro heq
  rw [World.state, submission_eq] at heq
  cases he : w.alarms.lookup (InstanceKey.fromNode input) with
  | none =>
    rw [he] at heq
    cases heq
  | some e =>
    rw [he] at heq
    simp only [Option.map_some, Option.some.injEq, AlarmEntry.state, AlarmEntry.recorded, AlarmEntry.orFresh,
      Option.getD_some, Prod.mk.injEq] at heq
    obtain ⟨-, hcleared, hsev, htext⟩ := heq
    cases hs : input.severity with
    | cleared =>
      obtain ⟨e', he', hraised⟩ := raised_of_clear ha.notCleared hs
      rw [he] at he'
      cases he'
      rw [hraised, AlarmEntry.isClearedNow_eq_true hs] at hcleared
      cases hcleared
    | active s =>
      have hchanges := ha.changes
      rw [hs] at hsev
      rw [he, AlarmEntry.changes, hcleared, htext, hsev, hs] at hchanges
      simp [AlarmEntry.nextSeverity, SeverityWithClear.value] at hchanges

/-- A submission touches the list that its alarm is in. -/
theorem touches_submission (hi : Inv w) (ha : AsksChange input w)
    (hself : w'.state (InstanceKey.fromNode input) = some (w.submission env input).1.state)
    (hne : ∀ k, k ≠ InstanceKey.fromNode input → w'.state k = w.state k) :
    Touches l w w' ↔ l = w.targetList input := by
  have hshelf : (w.submission env input).1.shelf = findMatchingShelf (InstanceKey.fromNode input) w.rules :=
    submission_shelf env hi
  constructor
  · rintro ⟨k, hk, hl⟩
    by_cases hkk : k = InstanceKey.fromNode input
    · subst hkk
      rcases hl with ⟨s, hs, hl⟩ | hl
      · rw [World.state, Option.map_eq_some_iff] at hs
        obtain ⟨e, he, rfl⟩ := hs
        rw [← hl]
        exact congrArg Listing.ofShelf ((hi.slots _).present e he).shelf
      · rw [hself, inList_some] at hl
        rw [← hl]
        exact congrArg Listing.ofShelf hshelf
    · exact absurd (hne k hkk).symm hk
  · rintro rfl
    refine ⟨InstanceKey.fromNode input, ?_, .inr ?_⟩
    · rw [hself]
      exact state_submission_ne env ha
    · rw [hself, inList_some]
      exact congrArg Listing.ofShelf hshelf

/-- What the node of a submission has already is not later than its list. -/
theorem target_bounded (hi : Inv w) (hb : Bounded w.listTime (w.slot (InstanceKey.fromNode input)) ) :
    ∃ cs, HasChanges (w.target input) cs ∧ ∀ c ∈ cs, c.time ≤ w.listTime (w.targetList input) := by
  cases he : w.alarms.lookup (InstanceKey.fromNode input) with
  | none =>
    have hn := (hi.slots (InstanceKey.fromNode input)).absent he (w.targetList input)
    refine ⟨[], ?_, fun c hc => by cases hc⟩
    rw [World.target, hn]
    exact hasChanges_empty
  | some e =>
    obtain ⟨-, n, cs, hn, hcs, hle⟩ := hb e he
    have hsh := ((hi.slots _).present e he).shelf
    rw [hsh] at hn hle
    refine ⟨cs, ?_, hle⟩
    rw [World.target, World.targetList, hn]
    exact hcs

/-- A submission that finds its time taken comes when its list has changed at that time. -/
theorem listTime_of_not_fresh (hi : Inv w) (hb : Bounded w.listTime (w.slot (InstanceKey.fromNode input)))
    (hf : ¬ Fresh env input w) : env.now ≤ w.listTime (w.targetList input) := by
  obtain ⟨cs, hcs, hle⟩ := target_bounded hi hb
  have hsome := Option.isSome_iff_ne_none.2 hf
  rw [hcs.child_isSome_iff (target_publishable env hi).wf] at hsome
  obtain ⟨c, hc, htime⟩ := List.mem_map.1 hsome
  rw [← htime]
  exact hle c hc

omit [Libyang] in
theorem state_of_slot (h : w'.slot k = w.slot k) : w'.state k = w.state k :=
  congrArg (fun s : Slot => s.entry.map AlarmEntry.state) h

theorem touches_submitted (hi : Inv w) (ha : AsksChange input w) :
    Touches l w (w.submitted env input) ↔ l = w.targetList input :=
  touches_submission hi ha (congrArg (Option.map AlarmEntry.state) lookup_submitted)
    fun _ hk => state_of_slot (slot_submitted_of_ne hk)

theorem touches_submittedPartly (hi : Inv w) (ha : AsksChange input w) :
    Touches l w (w.submittedPartly env input) ↔ l = w.targetList input :=
  touches_submission hi ha (congrArg (Option.map AlarmEntry.state) lookup_submittedPartly)
    fun _ hk => state_of_slot (World.slot_publishPartly_of_ne hk _ w.refreshed)

/-- A submission brings its list up to now. -/
theorem listTime_submitted (hi : Inv w) (hb : ∀ k, Bounded w.listTime (w.slot k))
    (hnow : ∀ l, w.listTime l ≤ env.now) (l : Listing) :
    (w.submitted env input).listTime l = if l = w.targetList input then env.now else w.listTime l := by
  generalize hu : w.refreshed.upsert (InstanceKey.fromNode input) (w.submission env input).1
    (w.submission env input).2 = u
  have htime : u.listTime l = w.listTime l := by
    rw [← hu]
    cases l <;> rfl
  have hlookup : ∀ k, u.alarms.lookup k =
      if k = InstanceKey.fromNode input then some (w.submission env input).1 else w.alarms.lookup k := by
    intro k
    rw [← hu]
    exact AssocMap.lookup_set
  have hshelf : Listing.ofShelf (w.submission env input).1.shelf = w.targetList input :=
    congrArg Listing.ofShelf (submission_shelf env hi)
  rw [World.submitted, hu]
  split
  · rename_i hl
    have hmem : env.now ∈ u.times l := by
      refine .inr ⟨InstanceKey.fromNode input, (w.submission env input).1, ?_, ?_, submission_lastChanged⟩
      · rw [hlookup, if_pos rfl]
      · rw [hl]
        exact hshelf
    refine (u.isGreatest_recount l).unique ⟨hmem, ?_⟩
    · rintro time (rfl | ⟨k, e, he, hl', rfl⟩)
      · rw [htime]
        exact hnow l
      · rw [hlookup] at he
        split at he
        · cases he
          exact submission_lastChanged.le
        · exact (hb k e he).1.trans (hnow _)
  · rename_i hl
    rw [World.listTime_recount, htime]
    intro k e he hl'
    rw [hlookup] at he
    split at he
    · cases he
      exact absurd (hl'.symm.trans hshelf) hl
    · rw [htime, ← hl']
      exact (hb k e he).1

theorem retimes_submitted (hi : Inv w) (ha : AsksChange input w) (hb : ∀ k, Bounded w.listTime (w.slot k))
    (hnow : ∀ l, w.listTime l ≤ env.now) : Retimes env.now w (w.submitted env input) := by
  intro l
  rw [touches_submitted hi ha, listTime_submitted hi hb hnow]
  exact ⟨fun h => if_pos h, fun h => if_neg h⟩

theorem retimes_submittedPartly (hi : Inv w) (ha : AsksChange input w) (hf : ¬ Fresh env input w)
    (hb : ∀ k, Bounded w.listTime (w.slot k)) (hnow : ∀ l, w.listTime l ≤ env.now) :
    Retimes env.now w (w.submittedPartly env input) := by
  intro l
  have htime : (w.submittedPartly env input).listTime l = w.listTime l := by cases l <;> rfl
  rw [touches_submittedPartly hi ha, htime]
  refine ⟨?_, fun _ => rfl⟩
  rintro rfl
  exact (hnow _).antisymm (listTime_of_not_fresh hi (hb _) hf)

/-- Editing the node of a submission adds no later change than now. -/
theorem bounded_submission {T : Listing → TimePoint} {f : Node → Node} (hi : Inv w)
    (hnow : env.now ≤ T (w.targetList input))
    (hf : ∃ cs, HasChanges (f (w.target input)) cs ∧ ∀ c ∈ cs, c.time ≤ T (w.targetList input)) :
    Bounded T (((w.slot (InstanceKey.fromNode input)).setEntry (w.submission env input).1).editNode
      (Listing.ofShelf (w.submission env input).1.shelf) f) := by
  have hshelf : Listing.ofShelf (w.submission env input).1.shelf = w.targetList input :=
    congrArg Listing.ofShelf (submission_shelf env hi)
  have htarget : ((w.slot (InstanceKey.fromNode input)).node
      (Listing.ofShelf (w.submission env input).1.shelf)).getD Node.empty = w.target input := target_eq env hi
  obtain ⟨cs, hcs, hle⟩ := hf
  intro e he
  cases he
  rw [hshelf] at htarget ⊢
  refine ⟨submission_lastChanged.trans_le hnow, f (w.target input), cs, ?_, hcs, hle⟩
  show (if w.targetList input = w.targetList input then
    some (f (((w.slot (InstanceKey.fromNode input)).node (w.targetList input)).getD Node.empty)) else _) = _
  rw [if_pos rfl, htarget]

theorem bounded_submitted (hi : Inv w) (hf : Fresh env input w)
    (hb : ∀ k, Bounded w.listTime (w.slot k)) (hnow : ∀ l, w.listTime l ≤ env.now) (k : InstanceKey) :
    Bounded (w.submitted env input).listTime ((w.submitted env input).slot k) := by
  have htimes : ∀ l, (w.submitted env input).listTime l = if l = w.targetList input then env.now else w.listTime l :=
    listTime_submitted hi hb hnow
  have hle : ∀ l, w.listTime l ≤ (w.submitted env input).listTime l := by
    intro l
    rw [htimes]
    split
    · exact hnow l
    · exact le_refl _
  by_cases hk : k = InstanceKey.fromNode input
  · subst hk
    have hslot : (w.submitted env input).slot (InstanceKey.fromNode input) =
        (w.slot (InstanceKey.fromNode input)).upsert (w.submission env input).1 (w.submission env input).2 := by
      rw [World.submitted, World.slot_recount, World.slot_upsert_self]
      rfl
    rw [hslot]
    obtain ⟨cs, hcs, hbound⟩ := target_bounded hi (hb (InstanceKey.fromNode input))
    have hnow' : env.now ≤ (w.submitted env input).listTime (w.targetList input) := by
      rw [htimes, if_pos rfl]
    have hpub : Publishable (w.submission env input).1.shelf (w.target input) := target_publishable env hi
    have hfresh : (w.submission env input).1.publishedChange.time ∉ cs.map (·.time) := by
      intro hm
      have hsome := (hcs.child_isSome_iff hpub.wf (w.submission env input).1.lastChanged).2 hm
      rw [submission_lastChanged, hf] at hsome
      cases hsome
    have hpush := (hcs.publishLeaves (w.submission env input).1).pushChange (wf_publishLeaves hpub.wf _) hfresh
    refine bounded_submission hi hnow' ⟨_, hpush.dropChanges _, fun c hc => ?_⟩
    rcases List.mem_cons.1 (List.mem_filter.1 hc).1 with rfl | hc
    · have htime : (w.submission env input).1.publishedChange.time = env.now := submission_lastChanged
      rw [htime]
      exact hnow'
    · exact (hbound c hc).trans (hle _)
  · rw [slot_submitted_of_ne hk]
    exact (hb k).mono hle

theorem bounded_submittedPartly (hi : Inv w) (hf : ¬ Fresh env input w)
    (hb : ∀ k, Bounded w.listTime (w.slot k)) (k : InstanceKey) :
    Bounded w.listTime ((w.submittedPartly env input).slot k) := by
  by_cases hk : k = InstanceKey.fromNode input
  · subst hk
    obtain ⟨cs, hcs, hle⟩ := target_bounded hi (hb (InstanceKey.fromNode input))
    have hbound := bounded_submission (T := fun l => w.listTime l) hi (listTime_of_not_fresh hi (hb _) hf)
      ⟨cs, hcs.publishLeaves (w.submission env input).1, hle⟩
    rw [World.submittedPartly, World.slot_publishPartly_self]
    exact hbound
  · rw [World.submittedPartly, World.slot_publishPartly_of_ne hk]
    exact hb k

/-! ### Loops -/

omit [Libyang] in
/-- A loop whose rounds keep the state of the alarm and the times. -/
theorem SameTimes.foldl {f : World → InstanceKey × AlarmEntry → World} {T : InstanceKey × AlarmEntry → Slot → Slot}
    (hself : ∀ w x, (f w x).slot x.1 = T x (w.slot x.1)) (hne : ∀ w x k, k ≠ x.1 → (f w x).slot k = w.slot k)
    (hT : ∀ k e s, s.entry = some e → (T (k, e) s).entry.map AlarmEntry.state = some e.state)
    (htime : ∀ l w x, (f w x).listTime l = w.listTime l) : SameTimes w (w.alarms.entries.foldl f w) := by
  refine ⟨fun k => ?_, fun l => foldl_view (v := World.listTime l) fun x _ w => htime l w x⟩
  have hslot := congrArg (fun s : Slot => s.entry.map AlarmEntry.state) (World.slot_foldl (w := w) hself hne k)
  refine Eq.trans hslot ?_
  cases he : w.alarms.lookup k with
  | none => rfl
  | some e =>
    refine (hT k e (w.slot k) he).trans ?_
    rw [World.state, he]
    rfl

theorem state_trim (limit : Option UInt16) (k : InstanceKey) (e : AlarmEntry) (s : Slot) :
    (s.trim limit (k, e)).entry.map AlarmEntry.state = some e.state := by
  show some (e.shrinkStatusChanges limit).1.state = some e.state
  rw [AlarmEntry.shrinkStatusChanges_eq]
  rfl

theorem listTime_trim (limit : Option UInt16) (l : Listing) (w : World) (x : InstanceKey × AlarmEntry) :
    (w.trim limit x).listTime l = w.listTime l := by
  cases l <;> rfl

theorem sameTimes_compressed (l : Listing) (filter : AlarmFilter) (w : World) :
    SameTimes w (w.compressed l filter) := by
  refine SameTimes.foldl (World.slot_compress_self l filter) (World.slot_compress_of_ne l filter)
    (fun k e s he => ?_) fun l' w x => ?_
  · unfold Slot.compress
    split
    · exact state_trim _ k e s
    · rw [he]
      rfl
  · unfold World.compress
    split
    · exact listTime_trim _ l' w x
    · rfl

theorem sameTimes_shrunk (w : World) : SameTimes w w.shrunk := by
  unfold World.shrunk
  split
  · exact .refl w
  · exact .foldl (World.slot_trim_self _) (World.slot_trim_of_ne _) (fun k e s _ => state_trim _ k e s)
      (listTime_trim _)

omit [Libyang] in
theorem sameTimes_scanned (changes : List ControlChange) (w : World) : SameTimes w (w.scanned changes) := by
  rw [World.scanned_eq]
  exact ⟨fun _ => rfl, fun l => by cases l <;> rfl⟩

/-! ### Purging -/

theorem lookup_purged (l : Listing) (filter : AlarmFilter) (now : TimePoint) (k : InstanceKey) :
    (w.purged l filter now).alarms.lookup k =
      (w.alarms.lookup k).filter fun e => !purges l filter (k, e) := by
  have hslot := congrArg Slot.entry (slot_purged (w := w) l filter now k)
  refine Eq.trans hslot ?_
  cases he : w.alarms.lookup k with
  | none => exact he
  | some e =>
    show ((w.slot k).purge l filter (k, e)).entry = if !purges l filter (k, e) then some e else none
    unfold Slot.purge
    cases purges l filter (k, e) with
    | true => rfl
    | false => exact he

/-- A purge that finds something touches its list. -/
theorem touches_purged {l' : Listing} {filter : AlarmFilter}
    (hz : w.alarms.entries.countP (purges l filter) ≠ 0) (now : TimePoint) :
    Touches l' w (w.purged l filter now) ↔ l' = l := by
  constructor
  · rintro ⟨k, hk, hl⟩
    rw [World.state, World.state, lookup_purged] at hk hl
    cases he : w.alarms.lookup k with
    | none =>
      rw [he] at hk
      exact absurd rfl hk
    | some e =>
      rw [he] at hk hl
      cases hp : purges l filter (k, e) with
      | false => simp [hp] at hk
      | true =>
        have hin : l = Listing.ofShelf e.shelf := of_decide_eq_true (Bool.and_eq_true_iff.1 hp).1
        rcases hl with hl | ⟨s, hs, -⟩
        · rw [Option.map_some, inList_some] at hl
          exact hl.symm.trans hin.symm
        · simp [hp] at hs
  · rintro rfl
    obtain ⟨x, hx, hp⟩ := List.countP_pos_iff.1 (Nat.pos_of_ne_zero hz)
    have he := AssocMap.mem_entries_iff.1 (show (x.1, x.2) ∈ w.alarms.entries from hx)
    have hin : l' = Listing.ofShelf x.2.shelf := of_decide_eq_true (Bool.and_eq_true_iff.1 hp).1
    have hbefore : w.state x.1 = some x.2.state := by rw [World.state, he]; rfl
    have hafter : (w.purged l' filter now).state x.1 = none := by
      rw [World.state, lookup_purged, he]
      simp [hp]
    refine ⟨x.1, ?_, .inl ?_⟩
    · rw [hbefore, hafter]
      exact Option.some_ne_none _
    · rw [hbefore, inList_some]
      exact hin.symm

theorem listTime_purged {filter : AlarmFilter} (hb : ∀ k, Bounded w.listTime (w.slot k)) {now : TimePoint}
    (hnow : ∀ l, w.listTime l ≤ now) (l' : Listing) :
    (w.purged l filter now).listTime l' = if l' = l then now else w.listTime l' := by
  have hfold : ∀ l', (w.alarms.entries.foldl (World.purge l filter) w).listTime l' = w.listTime l' := by
    refine fun l' => foldl_view (v := World.listTime l') fun x _ w => ?_
    unfold World.purge
    split
    · cases l' <;> rfl
    · rfl
  have htouch : ((w.alarms.entries.foldl (World.purge l filter) w).touch l now).listTime l' =
      if l' = l then now else w.listTime l' := by
    rw [← hfold]
    cases l <;> cases l' <;> rfl
  rw [World.purged, World.listTime_recount, htouch]
  intro k e he hl
  have hlookup : (w.purged l filter now).alarms.lookup k = some e := he
  rw [lookup_purged, Option.filter_eq_some_iff] at hlookup
  have hle := (hb k e hlookup.1).1
  rw [hl] at hle
  rw [htouch]
  split
  · exact hle.trans (hnow l')
  · exact hle

theorem retimes_purged {filter : AlarmFilter} (hz : w.alarms.entries.countP (purges l filter) ≠ 0)
    (hb : ∀ k, Bounded w.listTime (w.slot k)) {now : TimePoint} (hnow : ∀ l, w.listTime l ≤ now) :
    Retimes now w (w.purged l filter now) := by
  intro l'
  rw [touches_purged hz, listTime_purged hb hnow]
  exact ⟨fun h => if_pos h, fun h => if_neg h⟩

/-! ### Reshelving -/

/-- The round of `reshelve` for this alarm touches the list. -/
def reshelveTouches (rules : ShelvingRules) (l : Listing) (x : InstanceKey × AlarmEntry) : Bool :=
  reshelves rules x &&
    decide (Listing.ofShelf x.2.shelf = l ∨ Listing.ofShelf (findMatchingShelf x.1 rules) = l)

theorem listTime_reshelve (now : TimePoint) (rules : ShelvingRules) (l : Listing) (w : World)
    (x : InstanceKey × AlarmEntry) :
    (w.reshelve now rules x).listTime l = if reshelveTouches rules l x then now else w.listTime l := by
  unfold World.reshelve reshelveTouches reshelves
  cases x.2.shelf with
  | none =>
    cases findMatchingShelf x.1 rules with
    | none => cases l <;> rfl
    | some name => cases l <;> rfl
  | some old =>
    cases findMatchingShelf x.1 rules with
    | none => cases l <;> rfl
    | some name =>
      by_cases h : old = name
      · subst h
        cases l <;> simp
      · cases l <;> simp [h, Listing.ofShelf, World.listTime] <;> rfl

theorem listTime_foldl_reshelve (now : TimePoint) (rules : ShelvingRules) (l : Listing) (alarms : AlarmTable)
    (w : World) :
    (alarms.foldl (World.reshelve now rules) w).listTime l =
      if alarms.any (reshelveTouches rules l) then now else w.listTime l := by
  induction alarms generalizing w with
  | nil => rfl
  | cons x alarms ih =>
    rw [List.foldl_cons, ih, List.any_cons, listTime_reshelve]
    cases alarms.any (reshelveTouches rules l) <;> cases reshelveTouches rules l x <;> rfl

theorem entry_reshelve (he : s.entry = some e) (now : TimePoint) :
    (s.reshelve now rules (k, e)).entry = some { e with shelf := findMatchingShelf k rules } := by
  unfold Slot.reshelve
  cases hold : e.shelf with
  | none =>
    cases findMatchingShelf k rules with
    | none => rw [he, ← hold]
    | some name => rfl
  | some old =>
    cases findMatchingShelf k rules with
    | none => rfl
    | some name =>
      simp only
      split
      · rfl
      · rename_i h
        rw [he, ← not_not.1 h, ← hold]

theorem slot_reshelved (now : TimePoint) (rules : ShelvingRules) (k : InstanceKey) :
    (w.reshelved now rules).slot k =
      match w.alarms.lookup k with
      | some e => (w.slot k).reshelve now rules (k, e)
      | none => w.slot k := by
  have hfold := World.slot_foldl (w := { w with shelvingRules := some rules }) (World.slot_reshelve_self now rules)
    (World.slot_reshelve_of_ne now rules) k
  unfold World.reshelved
  split
  · rw [World.slot_recount]
    exact hfold
  · exact hfold

theorem state_reshelved (now : TimePoint) (rules : ShelvingRules) (k : InstanceKey) :
    (w.reshelved now rules).state k =
      (w.alarms.lookup k).map fun e => (findMatchingShelf k rules, e.state.2) := by
  have hslot := congrArg (fun s : Slot => s.entry.map AlarmEntry.state) (slot_reshelved (w := w) now rules k)
  refine Eq.trans hslot ?_
  cases he : w.alarms.lookup k with
  | none => exact congrArg (Option.map AlarmEntry.state) he
  | some e => exact congrArg (Option.map AlarmEntry.state) (entry_reshelve (s := w.slot k) he now)

/-- Reshelving touches the lists that an alarm enters, leaves or changes its shelf in. -/
theorem touches_reshelved (now : TimePoint) :
    Touches l w (w.reshelved now rules) ↔ w.alarms.entries.any (reshelveTouches rules l) = true := by
  rw [List.any_eq_true]
  constructor
  · rintro ⟨k, hk, hl⟩
    rw [state_reshelved, World.state] at hk hl
    cases he : w.alarms.lookup k with
    | none =>
      rw [he] at hk
      exact absurd rfl hk
    | some e =>
      rw [he, Option.map_some, Option.map_some] at hk hl
      refine ⟨(k, e), AssocMap.mem_entries_iff.2 he, ?_⟩
      rw [inList_some, inList_some] at hl
      have hne : e.shelf ≠ findMatchingShelf k rules := by
        intro h
        rw [← h] at hk
        exact hk rfl
      simp only [reshelveTouches, reshelves, Bool.and_eq_true, bne_iff_ne, decide_eq_true_eq]
      exact ⟨hne, hl⟩
  · rintro ⟨x, hx, ht⟩
    have he := AssocMap.mem_entries_iff.1 (show (x.1, x.2) ∈ w.alarms.entries from hx)
    simp only [reshelveTouches, reshelves, Bool.and_eq_true, bne_iff_ne, decide_eq_true_eq] at ht
    refine ⟨x.1, ?_, ?_⟩
    · rw [state_reshelved, World.state, he]
      intro h
      exact ht.1 (congrArg Prod.fst (Option.some.inj h))
    · rw [state_reshelved, World.state, he, Option.map_some, Option.map_some, inList_some, inList_some]
      exact ht.2

/-- The times that `reshelve` leaves. -/
def reshelvedTimes (now : TimePoint) (rules : ShelvingRules) (w : World) (l : Listing) : TimePoint :=
  if w.alarms.entries.any (reshelveTouches rules l) then now else w.listTime l

theorem bounded_reshelve (hi : Inv w) (hb : ∀ k, Bounded w.listTime (w.slot k)) {now : TimePoint}
    (hnow : ∀ l, w.listTime l ≤ now) (k : InstanceKey) :
    Bounded (reshelvedTimes now rules w) ((w.reshelved now rules).slot k) := by
  have hle : ∀ l, w.listTime l ≤ reshelvedTimes now rules w l := by
    intro l
    unfold reshelvedTimes
    split
    · exact hnow l
    · exact le_refl _
  rw [slot_reshelved]
  cases he : w.alarms.lookup k with
  | none => exact .of_absent he
  | some e =>
    refine (hb k).reshelve (s := w.slot k) he (hi.slots k) hle (fun hne => ?_) now
    have hany : w.alarms.entries.any (reshelveTouches rules (Listing.ofShelf (findMatchingShelf k rules))) = true := by
      refine List.any_eq_true.2 ⟨(k, e), AssocMap.mem_entries_iff.2 he, ?_⟩
      simp [reshelveTouches, reshelves, hne]
    unfold reshelvedTimes
    rw [if_pos hany]
    exact hnow _

theorem listTime_reshelved (hi : Inv w) (hb : ∀ k, Bounded w.listTime (w.slot k)) {now : TimePoint}
    (hnow : ∀ l, w.listTime l ≤ now) (l : Listing) :
    (w.reshelved now rules).listTime l = reshelvedTimes now rules w l := by
  have hfold : ∀ l, (w.alarms.entries.foldl (World.reshelve now rules) { w with shelvingRules := some rules }).listTime l =
      reshelvedTimes now rules w l := by
    intro l
    rw [listTime_foldl_reshelve]
    cases l <;> rfl
  have hbound : ∀ k, Bounded (reshelvedTimes now rules w) ((w.reshelved now rules).slot k) :=
    bounded_reshelve hi hb hnow
  unfold World.reshelved at hbound ⊢
  split
  · rename_i hany
    rw [World.listTime_recount, hfold]
    intro k e he hl
    have hk := hbound k
    rw [if_pos hany, World.slot_recount] at hk
    rw [hfold, ← hl]
    exact (hk e he).1
  · exact hfold l

theorem retimes_reshelved (hi : Inv w) (hb : ∀ k, Bounded w.listTime (w.slot k)) {now : TimePoint}
    (hnow : ∀ l, w.listTime l ≤ now) : Retimes now w (w.reshelved now rules) := by
  intro l
  rw [touches_reshelved, listTime_reshelved hi hb hnow, reshelvedTimes]
  exact ⟨fun h => if_pos h, fun h => if_neg h⟩

end
end IetfAlarms

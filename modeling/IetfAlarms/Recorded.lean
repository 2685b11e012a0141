import IetfAlarms.Runs
import Mathlib.Data.List.Forall2

/-!
# Status changes as they were recorded

`Records hs e n`: the changes `hs`, oldest first, are what both the entry and its node hold, the entry at
the back of its vector and the node at the front of its list. Trimming drops the oldest of them in both,
moving the alarm keeps them, a submission adds one. So what the entry wants removed the tree always has.
-/

namespace IetfAlarms
open Program Trace DataTree DataTree.Node
variable [Libyang] {w w₁ w' : World} {ev : Event} {env : Env} {input : AlarmInput} {e : AlarmEntry} {n : Node}
variable {k : InstanceKey} {s : Slot} {rules rules' : ShelvingRules} {hs hs' : List PublishedChange}

/-! ### One alarm -/

/-- The entry's record of a change, and the one that is published: the entry records a clear with the
severity that the alarm had. -/
structure Describes (v : StatusChange) (c : PublishedChange) : Prop where
  time : v.time = c.time
  text : v.text = c.text
  severity : ∃ s : Severity, v.perceivedSeverity = s.value ∧ (c.severity = s.name ∨ c.severity = "cleared")

structure Records (hs : List PublishedChange) (e : AlarmEntry) (n : Node) : Prop where
  published : HasChanges n hs.reverse
  changes : List.Forall₂ Describes e.statusChanges hs
  latest : ∀ c, hs.getLast? = some c → c = e.publishedChange

omit [Libyang] in
/-- Removing the times of the oldest changes removes these changes. -/
theorem filter_oldest {hs : List PublishedChange} (hn : (hs.map (·.time)).Nodup) (m : Nat) :
    hs.filter (fun c => c.time ∉ (hs.take m).map (·.time)) = hs.drop m := by
  have hsplit : hs = hs.take m ++ hs.drop m := (List.take_append_drop m hs).symm
  have hdisj : ((hs.take m).map (·.time)).Disjoint ((hs.drop m).map (·.time)) := by
    rw [hsplit, List.map_append] at hn
    exact List.disjoint_of_nodup_append hn
  have hold : (hs.take m).filter (fun c => c.time ∉ (hs.take m).map (·.time)) = [] := by
    refine List.filter_eq_nil_iff.2 fun c hc => ?_
    rw [decide_eq_true_iff, not_not]
    exact List.mem_map_of_mem hc
  have hnew : (hs.drop m).filter (fun c => c.time ∉ (hs.take m).map (·.time)) = hs.drop m := by
    refine List.filter_eq_self.2 fun c hc => decide_eq_true fun hm => ?_
    exact hdisj hm (List.mem_map_of_mem hc)
  calc hs.filter (fun c => c.time ∉ (hs.take m).map (·.time))
      = (hs.take m ++ hs.drop m).filter (fun c => c.time ∉ (hs.take m).map (·.time)) := by rw [← hsplit]
    _ = hs.drop m := by rw [List.filter_append, hold, hnew, List.nil_append]

omit [Libyang] in
theorem getLast?_of_drop {hs : List PublishedChange} {m : Nat} {c : PublishedChange}
    (h : (hs.drop m).getLast? = some c) : hs.getLast? = some c := by
  rw [← List.take_append_drop m hs, List.getLast?_append, h]
  rfl

omit [Libyang] in
theorem times_of_describes {vs : List StatusChange} (h : List.Forall₂ Describes vs hs) :
    vs.map (·.time) = hs.map (·.time) := by
  induction h with
  | nil => rfl
  | cons hd _ ih => rw [List.map_cons, List.map_cons, hd.time, ih]

namespace Records

theorem times (h : Records hs e n) : e.statusChanges.map (·.time) = hs.map (·.time) := times_of_describes h.changes

theorem nodup (hn : n.WF) (h : Records hs e n) : (hs.map (·.time)).Nodup := by
  have := h.published.nodup hn
  rw [List.map_reverse] at this
  exact List.nodup_reverse.1 this

theorem removed_eq (h : Records hs e n) (limit : Option UInt16) :
    (e.shrinkStatusChanges limit).2 = (hs.take (e.excess limit)).map (·.time) := by
  rw [AlarmEntry.shrinkStatusChanges_eq, List.map_take, h.times, List.map_take]

/-- The tree has what a trim removes. -/
theorem droppable (hn : n.WF) (h : Records hs e n) (limit : Option UInt16) :
    Droppable n (e.shrinkStatusChanges limit).2 := by
  rw [h.removed_eq]
  refine ⟨(h.nodup hn).sublist ((List.take_sublist _ _).map _), fun t ht => ?_⟩
  refine (h.published.child_isSome_iff hn t).2 ?_
  rw [List.map_reverse, List.mem_reverse]
  exact (List.take_sublist _ _).map _ |>.subset ht

theorem drop (hn : n.WF) (h : Records hs e n) (limit : Option UInt16) :
    Records (hs.drop (e.excess limit)) (e.shrinkStatusChanges limit).1
      (dropChanges (e.shrinkStatusChanges limit).2 n) := by
  refine ⟨?_, ?_, fun c hc => ?_⟩
  · have := h.published.dropChanges (e.shrinkStatusChanges limit).2
    rw [h.removed_eq, List.filter_reverse, filter_oldest (h.nodup hn)] at this
    rw [h.removed_eq]
    exact this
  · rw [AlarmEntry.shrinkStatusChanges_eq]
    exact List.forall₂_drop _ h.changes
  · rw [AlarmEntry.shrinkStatusChanges_eq]
    exact h.latest c (getLast?_of_drop hc)

/-- Whatever keeps the node's changes and the fields they come from keeps the record. -/
theorem congr {e' : AlarmEntry} {n' : Node} (h : Records hs e n) (hc : HasChanges n' hs.reverse)
    (hs' : e'.statusChanges = e.statusChanges) (hp : e'.publishedChange = e.publishedChange) :
    Records hs e' n' :=
  ⟨hc, by rw [hs']; exact h.changes, fun c hc => by rw [hp]; exact h.latest c hc⟩

end Records

/-! ### Slots -/

/-- The alarm's status changes are the last ones of this sequence. -/
def SlotRecords (changes : List PublishedChange) (s : Slot) : Prop :=
  ∀ e, s.entry = some e → ∃ n hs, s.node (Listing.ofShelf e.shelf) = some n ∧ hs <:+ changes ∧ Records hs e n

namespace SlotRecords
variable {changes : List PublishedChange}

theorem of_absent (he : s.entry = none) : SlotRecords changes s := fun e he' => by
  rw [he] at he'
  cases he'

/-- A step that works on the alarm in place. -/
theorem editInPlace {e' : AlarmEntry} {f : Node → Node} (hn : s.node (Listing.ofShelf e.shelf) = some n)
    (hsh : e'.shelf = e.shelf) (hc : hs <:+ changes) (hr : Records hs e' (f n)) :
    SlotRecords changes ((s.setEntry e').editNode (Listing.ofShelf e.shelf) f) := by
  intro e₀ he₀
  cases he₀
  refine ⟨f n, hs, ?_, hc, hr⟩
  show (if Listing.ofShelf e'.shelf = Listing.ofShelf e.shelf then
    some (f ((s.node (Listing.ofShelf e.shelf)).getD Node.empty)) else _) = _
  rw [hsh, if_pos rfl, hn]
  rfl

theorem trim (he : s.entry = some e) (hi : SlotInv rules k s) (h : SlotRecords changes s) (limit : Option UInt16) :
    SlotRecords changes (s.trim limit (k, e)) := by
  obtain ⟨n, hs, hn, hc, hr⟩ := h e he
  obtain ⟨n', hn', hm⟩ := (hi.present e he).mirrored
  rw [hn] at hn'
  cases hn'
  refine editInPlace hn ?_ ((List.drop_suffix _ _).trans hc) (hr.drop hm.wf limit)
  rw [AlarmEntry.shrinkStatusChanges_eq]

theorem trimOk (he : s.entry = some e) (hi : SlotInv rules k s) (h : SlotRecords changes s) (limit : Option UInt16) :
    TrimOk limit (k, e) s := by
  intro n hn
  obtain ⟨n', hs, hn', -, hr⟩ := h e he
  obtain ⟨m, hn'', hm⟩ := (hi.present e he).mirrored
  rw [hn] at hn' hn''
  cases hn'
  cases hn''
  exact hr.droppable hm.wf limit

theorem compress (he : s.entry = some e) (hi : SlotInv rules k s) (h : SlotRecords changes s) (l : Listing)
    (filter : AlarmFilter) : SlotRecords changes (s.compress l filter (k, e)) := by
  unfold Slot.compress
  split
  · exact h.trim he hi _
  · exact h

theorem purge (h : SlotRecords changes s) (l : Listing) (filter : AlarmFilter) :
    SlotRecords changes (s.purge l filter (k, e)) := by
  unfold Slot.purge
  split
  · exact of_absent rfl
  · exact h

theorem move (he : s.entry = some e) (hi : SlotInv rules k s) (h : SlotRecords changes s) {shelf : Option String}
    (hne : Listing.ofShelf shelf ≠ Listing.ofShelf e.shelf) (created : TimePoint) :
    SlotRecords changes
      (s.move (Listing.ofShelf e.shelf) (Listing.ofShelf shelf) { e with shelf := shelf } created) := by
  obtain ⟨n, hs, hn, hc, hr⟩ := h e he
  obtain ⟨n', hn', hm⟩ := (hi.present e he).mirrored
  rw [hn] at hn'
  cases hn'
  intro e₀ he₀
  cases he₀
  refine ⟨copyProps n (listLeaf shelf created Node.empty), hs, ?_, hc, ?_⟩
  · simp only [Slot.move, Slot.unlinkNode, Slot.editNode, Slot.setEntry, if_neg hne, if_pos, hn,
      (hi.present e he).alone _ hne, Option.getD_some, Option.getD_none]
  · have hwf : (listLeaf shelf created Node.empty).WF := wf_listLeaf WF.empty _ _
    have hnone : HasChanges (listLeaf shelf created Node.empty) [] := instances_listLeaf _ _ _
    exact hr.congr (hr.published.copyProps hm.wf hwf hnone) rfl rfl

theorem reshelve (he : s.entry = some e) (hi : SlotInv rules k s) (h : SlotRecords changes s) (now : TimePoint) :
    SlotRecords changes (s.reshelve now rules' (k, e)) := by
  unfold Slot.reshelve
  cases hold : e.shelf with
  | none =>
    cases findMatchingShelf k rules' with
    | none => exact h
    | some name =>
      have hne : Listing.ofShelf (some name) ≠ Listing.ofShelf e.shelf := by rw [hold]; exact Listing.noConfusion
      have := h.move he hi hne now
      rw [hold] at this
      exact this
  | some old =>
    cases findMatchingShelf k rules' with
    | none =>
      have hne : Listing.ofShelf none ≠ Listing.ofShelf e.shelf := by rw [hold]; exact Listing.noConfusion
      have := h.move he hi hne now
      rw [hold] at this
      exact this
    | some name =>
      simp only
      split
      · obtain ⟨n, hs, hn, hc, hr⟩ := h e he
        intro e₀ he₀
        cases he₀
        rw [hold] at hn
        have hn' : s.node .shelvedAlarms = some n := hn
        refine ⟨n.setLeaf .shelfName name, hs, ?_, hc, ?_⟩
        · show (if Listing.shelvedAlarms = Listing.shelvedAlarms then
            some (((s.node .shelvedAlarms).getD Node.empty).setLeaf .shelfName name)
            else s.node .shelvedAlarms) = some (n.setLeaf .shelfName name)
          rw [if_pos rfl, hn']
          rfl
        · exact hr.congr ((instances_setLeaf (by decide) _ _).trans hr.published) rfl rfl
      · exact h

end SlotRecords

/-! ### A submission -/

/-- The change a submission asks for, as it is to be published. -/
def AlarmInput.change (input : AlarmInput) (now : TimePoint) : PublishedChange :=
  ⟨now, input.severity.name, input.alarmText⟩

theorem publishedChange_submission :
    (w.submission env input).1.publishedChange = input.change env.now := by
  rw [submission_eq]
  unfold AlarmEntry.publishedChange AlarmInput.change
  show (⟨env.now, if input.isClearedNow then "cleared" else (severityName (AlarmEntry.nextSeverity _ _)).getD "",
    input.alarmText⟩ : PublishedChange) = _
  cases hs : input.severity with
  | cleared =>
    rw [AlarmEntry.isClearedNow_eq_true hs, if_pos rfl]
    rfl
  | active s =>
    rw [AlarmEntry.isClearedNow_eq_false hs, if_neg Bool.false_ne_true]
    simp only [AlarmEntry.nextSeverity, severityName_value, Option.getD_some]
    rfl

/-- The sequence of changes goes on, or starts anew with the alarm. -/
def extend (found : Option AlarmEntry) (changes : List PublishedChange) (c : PublishedChange) :
    List PublishedChange :=
  (if found.isNone then [] else changes) ++ [c]

variable (env) in
/-- What the target of a submission records before it. -/
theorem records_target {changes : List PublishedChange} (hi : Inv w)
    (h : SlotRecords changes (w.slot (InstanceKey.fromNode input))) :
    ∃ hs, hs <:+ (if (w.alarms.lookup (InstanceKey.fromNode input)).isNone then [] else changes) ∧
      HasChanges (w.target input) hs.reverse ∧
      List.Forall₂ Describes (AlarmEntry.orFresh (w.alarms.lookup (InstanceKey.fromNode input)) env.now
        (findMatchingShelf (InstanceKey.fromNode input) w.rules)).statusChanges hs := by
  cases he : w.alarms.lookup (InstanceKey.fromNode input) with
  | none =>
    refine ⟨[], List.suffix_rfl, ?_, .nil⟩
    have hn := (hi.slots (InstanceKey.fromNode input)).absent he (w.targetList input)
    rw [World.target, hn]
    exact hasChanges_empty
  | some e =>
    obtain ⟨n, hs, hn, hc, hr⟩ := h e he
    have hsh := ((hi.slots _).present e he).shelf
    rw [hsh] at hn
    refine ⟨hs, hc, ?_, hr.changes⟩
    rw [World.target, World.targetList, hn]
    exact hr.published

variable (env) in
/-- The entry's own record of the change. -/
theorem describes_change (hi : Inv w) (ha : AsksChange input w) :
    Describes ⟨env.now, AlarmEntry.nextSeverity (AlarmEntry.orFresh (w.alarms.lookup (InstanceKey.fromNode input))
      env.now (findMatchingShelf (InstanceKey.fromNode input) w.rules)).lastSeverity input.severity, input.alarmText⟩
      (input.change env.now) := by
  obtain ⟨s, hs⟩ := submission_severity env hi ha.notCleared
  rw [submission_eq] at hs
  refine ⟨rfl, rfl, s, hs, ?_⟩
  cases hsev : input.severity with
  | cleared => exact .inr (congrArg SeverityWithClear.name hsev)
  | active s' =>
    have hvalue : AlarmEntry.nextSeverity _ input.severity = s.value := hs
    rw [hsev] at hvalue
    refine .inl ((congrArg SeverityWithClear.name hsev).trans ?_)
    rw [Severity.value_injective (show s'.value = s.value from hvalue)]
    rfl

/-- The record of an effective submission, before the limit is applied. -/
theorem records_pushed {changes : List PublishedChange} (hi : Inv w) (ha : AsksChange input w)
    (hf : Fresh env input w) (h : SlotRecords changes (w.slot (InstanceKey.fromNode input))) :
    ∃ hs, hs <:+ extend (w.alarms.lookup (InstanceKey.fromNode input)) changes (input.change env.now) ∧
      Records hs (AlarmEntry.recorded (w.alarms.lookup (InstanceKey.fromNode input)) env.now input
        (findMatchingShelf (InstanceKey.fromNode input) w.rules))
        (pushChange (w.submission env input).1.publishedChange
          (publishLeaves (w.submission env input).1 (w.target input))) ∧
      (pushChange (w.submission env input).1.publishedChange
          (publishLeaves (w.submission env input).1 (w.target input))).WF := by
  obtain ⟨hs, hc, hp, ht⟩ := records_target env hi h
  have hpub : Publishable (w.submission env input).1.shelf (w.target input) := target_publishable env hi
  have hwf := hpub.wf
  have hwf' := wf_publishLeaves hwf (w.submission env input).1
  have hchange : (w.submission env input).1.publishedChange = input.change env.now := publishedChange_submission
  refine ⟨hs ++ [input.change env.now], ?_, ⟨?_, ?_, fun c hc => ?_⟩, wf_pushChange hwf' _⟩
  · obtain ⟨l, hl⟩ := hc
    exact ⟨l, by rw [extend, ← hl, List.append_assoc]⟩
  · rw [List.reverse_append, hchange]
    refine (hp.publishLeaves (w.submission env input).1).pushChange hwf' fun hm => ?_
    have := (hp.child_isSome_iff hwf env.now).2 hm
    rw [hf] at this
    cases this
  · exact List.rel_append ht (.cons (describes_change env hi ha) .nil)
  · rw [List.getLast?_concat] at hc
    rw [← Option.some.inj hc, ← hchange, submission_eq]
    rfl

/-- What drops out of the history is in the tree. -/
theorem droppable_submission {changes : List PublishedChange} (hi : Inv w) (ha : AsksChange input w)
    (hf : Fresh env input w)
    (h : SlotRecords changes (w.slot (InstanceKey.fromNode input))) :
    Droppable (pushChange (w.submission env input).1.publishedChange
      (publishLeaves (w.submission env input).1 (w.target input))) (w.submission env input).2 := by
  obtain ⟨hs, -, hr, hwf⟩ := records_pushed hi ha hf h
  exact hr.droppable hwf w.maxAlarmStatusChanges

theorem slotRecords_submitted {changes : List PublishedChange} (hi : Inv w) (ha : AsksChange input w)
    (hf : Fresh env input w)
    (h : SlotRecords changes (w.slot (InstanceKey.fromNode input))) :
    SlotRecords (extend (w.alarms.lookup (InstanceKey.fromNode input)) changes (input.change env.now))
      ((w.submitted env input).slot (InstanceKey.fromNode input)) := by
  obtain ⟨hs, hc, hr, hwf⟩ := records_pushed hi ha hf h
  have hslot : (w.submitted env input).slot (InstanceKey.fromNode input) =
      (w.slot (InstanceKey.fromNode input)).upsert (w.submission env input).1 (w.submission env input).2 := by
    rw [World.submitted, World.slot_recount, World.slot_upsert_self]
    rfl
  rw [hslot]
  intro e₀ he₀
  cases he₀
  have htarget : (((w.slot (InstanceKey.fromNode input)).setEntry (w.submission env input).1).node
      (Listing.ofShelf (w.submission env input).1.shelf)).getD Node.empty = w.target input := target_eq env hi
  have hdrop : Records (hs.drop ((AlarmEntry.recorded (w.alarms.lookup (InstanceKey.fromNode input)) env.now input
      (findMatchingShelf (InstanceKey.fromNode input) w.rules)).excess w.maxAlarmStatusChanges))
      (w.submission env input).1 (upsertNode (w.submission env input).1 (w.submission env input).2 (w.target input)) :=
    hr.drop hwf w.maxAlarmStatusChanges
  rw [← htarget] at hdrop
  exact ⟨_, _, if_pos rfl, (List.drop_suffix _ _).trans hc, hdrop⟩

theorem slot_submitted_of_ne (h : k ≠ InstanceKey.fromNode input) :
    (w.submitted env input).slot k = w.slot k := by
  rw [World.submitted, World.slot_recount, World.slot_upsert_of_ne h]
  rfl

/-! ### All alarms -/

/-- A property of the alarms that `purgeAlarms`, `compressAlarms`, `reshelve`, and
`shrinkStatusChangesLists` with this limit keep, one alarm at a time. -/
structure Kept (limit : Option UInt16) (P : InstanceKey → Slot → Prop) : Prop where
  purge : ∀ {rules k e s} (l : Listing) (filter : AlarmFilter), s.entry = some e → SlotInv rules k s → P k s →
    P k (s.purge l filter (k, e))
  compress : ∀ {rules k e s} (l : Listing) (filter : AlarmFilter), s.entry = some e → SlotInv rules k s → P k s →
    P k (s.compress l filter (k, e))
  trim : ∀ {rules k e s}, s.entry = some e → SlotInv rules k s → P k s → P k (s.trim limit (k, e))
  reshelve : ∀ {rules k e s} (now : TimePoint) (rules' : ShelvingRules), s.entry = some e → SlotInv rules k s →
    P k s → P k (s.reshelve now rules' (k, e))

namespace Kept
variable {limit : Option UInt16} {P : InstanceKey → Slot → Prop}

theorem slot_foldl {f : World → InstanceKey × AlarmEntry → World} {T : InstanceKey × AlarmEntry → Slot → Slot}
    (hself : ∀ w x, (f w x).slot x.1 = T x (w.slot x.1)) (hne : ∀ w x k, k ≠ x.1 → (f w x).slot k = w.slot k)
    (hi : ∀ k, SlotInv rules k (w.slot k)) (hp : ∀ k, P k (w.slot k))
    (hT : ∀ k e, (w.slot k).entry = some e → SlotInv rules k (w.slot k) → P k (w.slot k) →
      P k (T (k, e) (w.slot k))) (k : InstanceKey) :
    P k ((w.alarms.entries.foldl f w).slot k) := by
  rw [World.slot_foldl hself hne]
  cases he : w.alarms.lookup k with
  | none => exact hp k
  | some e => exact hT k e he (hi k) (hp k)

theorem purged (hP : Kept limit P) (hi : Inv w) (hp : ∀ k, P k (w.slot k)) (l : Listing) (filter : AlarmFilter)
    (now : TimePoint) (k : InstanceKey) : P k ((w.purged l filter now).slot k) := by
  rw [World.purged, World.slot_recount, World.slot_touch]
  exact slot_foldl (World.slot_purge_self l filter) (World.slot_purge_of_ne l filter) hi.slots hp
    (fun _ _ he hi hp => hP.purge l filter he hi hp) k

theorem compressed (hP : Kept limit P) (hi : Inv w) (hp : ∀ k, P k (w.slot k)) (l : Listing) (filter : AlarmFilter)
    (k : InstanceKey) : P k ((w.compressed l filter).slot k) :=
  slot_foldl (World.slot_compress_self l filter) (World.slot_compress_of_ne l filter) hi.slots hp
    (fun _ _ he hi hp => hP.compress l filter he hi hp) k

theorem shrunk (hP : Kept w.maxAlarmStatusChanges P) (hi : Inv w) (hp : ∀ k, P k (w.slot k)) (k : InstanceKey) :
    P k (w.shrunk.slot k) := by
  unfold World.shrunk
  split
  · exact hp k
  · exact slot_foldl (World.slot_trim_self _) (World.slot_trim_of_ne _) hi.slots hp
      (fun _ _ he hi hp => hP.trim he hi hp) k

theorem reshelved (hP : Kept limit P) (hi : Inv w) (hp : ∀ k, P k (w.slot k)) (now : TimePoint) (rules : ShelvingRules)
    (k : InstanceKey) : P k ((w.reshelved now rules).slot k) := by
  have hfold := slot_foldl (w := { w with shelvingRules := some rules }) (World.slot_reshelve_self now rules)
    (World.slot_reshelve_of_ne now rules) hi.slots hp (fun _ _ he hi hp => hP.reshelve now rules he hi hp) k
  unfold World.reshelved
  split
  · rw [World.slot_recount]
    exact hfold
  · exact hfold

omit [Libyang] in
theorem scanned (hp : ∀ k, P k (w.slot k)) (changes : List ControlChange) (k : InstanceKey) :
    P k ((w.scanned changes).slot k) := by
  rw [World.scanned_eq]
  exact hp k

theorem controlReshelved (hP : Kept limit P) (hi : Inv w) (hp : ∀ k, P k (w.slot k)) (now : TimePoint)
    (changes : List ControlChange) (shelving : ShelvingRules) (k : InstanceKey) :
    P k ((w.controlReshelved now changes shelving).slot k) := by
  unfold World.controlReshelved
  split
  · exact hP.reshelved (hi.scanned changes) (scanned hp changes) now shelving k
  · exact scanned hp changes k

theorem controlled {now : TimePoint} {changes : List ControlChange} (shelving : ShelvingRules)
    (hP : Kept (w.scanned changes).maxAlarmStatusChanges P) (hi : Inv w) (hp : ∀ k, P k (w.slot k))
    (k : InstanceKey) : P k ((w.controlled now changes shelving).slot k) := by
  have hreshelved := hP.controlReshelved hi hp now changes shelving
  rw [← World.controlReshelved_limit now changes shelving] at hP
  unfold World.controlled
  split
  · exact hP.shrunk (hi.controlReshelved now changes shelving) hreshelved k
  · exact hreshelved k

end Kept

/-- What the shelf does not matter to and trimming keeps, every loop keeps. -/
theorem kept_entries {limit : Option UInt16} {Q : InstanceKey → AlarmEntry → Prop}
    (hone : ∀ k e, Q k e → Q k (e.shrinkStatusChanges (some 1)).1)
    (htrim : ∀ k e, Q k e → Q k (e.shrinkStatusChanges limit).1)
    (hshelf : ∀ k (e : AlarmEntry) (shelf : Option String), Q k e → Q k { e with shelf := shelf }) :
    Kept limit fun k s => ∀ e, s.entry = some e → Q k e where
  purge l filter he _ hp := by
    unfold Slot.purge
    split
    · intro e he'
      cases he'
    · exact hp
  compress l filter he _ hp := by
    unfold Slot.compress
    split
    · intro e he'
      cases he'
      exact hone _ _ (hp _ he)
    · exact hp
  trim he _ hp := by
    intro e he'
    cases he'
    exact htrim _ _ (hp _ he)
  reshelve := by
    intro rules k e s now rules' he _ hp
    have hall : ∀ shelf, Q k { e with shelf := shelf } := fun shelf => hshelf k e shelf (hp e he)
    unfold Slot.reshelve
    cases e.shelf with
    | none =>
      cases findMatchingShelf k rules' with
      | none => exact hp
      | some name =>
        intro e' he'
        cases he'
        exact hall _
    | some old =>
      cases findMatchingShelf k rules' with
      | none =>
        intro e' he'
        cases he'
        exact hall _
      | some name =>
        simp only
        split
        · intro e' he'
          cases he'
          exact hall _
        · exact hp

/-- No loop brings back an alarm. -/
theorem kept_absent (limit : Option UInt16) : Kept limit fun _ s => s.entry = none where
  purge _ _ he _ hp := absurd (he.symm.trans hp) (Option.some_ne_none _)
  compress _ _ he _ hp := absurd (he.symm.trans hp) (Option.some_ne_none _)
  trim he _ hp := absurd (he.symm.trans hp) (Option.some_ne_none _)
  reshelve _ _ he _ hp := absurd (he.symm.trans hp) (Option.some_ne_none _)

theorem kept_slotRecords (limit : Option UInt16) (changes : InstanceKey → List PublishedChange) :
    Kept limit fun k s => SlotRecords (changes k) s where
  purge l filter _ _ h := h.purge l filter
  compress l filter he hi h := h.compress he hi l filter
  trim he hi h := h.trim he hi limit
  reshelve now _ he hi h := h.reshelve he hi now

/-! ### Runs in which no time is used twice -/

/-- An effective submission that finds its time in the history of the alarm. -/
def ReusesTime (t : Transition World Event) : Prop :=
  ∃ o input, t.label.call = .createOrUpdateAlarm o input ∧ Served o ∧ Effective t.label.env input t.before ∧
    ¬ Fresh t.label.env input t.before

/-- The alarm's status changes are the last ones of a sequence like this. -/
def RecordedIn (Q : List PublishedChange → Prop) (s : Slot) : Prop := ∃ changes, Q changes ∧ SlotRecords changes s

theorem kept_recordedIn (limit : Option UInt16) (Q : List PublishedChange → Prop) :
    Kept limit fun _ s => RecordedIn Q s where
  purge l filter _ _ h := h.imp fun _ h => ⟨h.1, h.2.purge l filter⟩
  compress l filter he hi h := h.imp fun _ h => ⟨h.1, h.2.compress he hi l filter⟩
  trim he hi h := h.imp fun _ h => ⟨h.1, h.2.trim he hi limit⟩
  reshelve now _ he hi h := h.imp fun _ h => ⟨h.1, h.2.reshelve he hi now⟩

/-- Only submissions matter to a record. -/
theorem Effect.recordedIn {Q : List PublishedChange → Prop} (hi : Inv w) (he : Effect w ev w₁)
    (hr : ¬ ReusesTime ⟨w, ev, w'⟩) (h : ∀ k, RecordedIn Q (w.slot k))
    (hQ : ∀ o input env r, ev = ⟨.createOrUpdateAlarm o input, env, r⟩ → Served o → Effective env input w →
      Fresh env input w → RecordedIn Q ((w.submitted env input).slot (InstanceKey.fromNode input)))
    (k : InstanceKey) : RecordedIn Q (w₁.slot k) := by
  cases he with
  | none => exact h k
  | submitted ho he hf hw =>
    rename_i o input env r
    by_cases hk : k = InstanceKey.fromNode input
    · subst hk
      exact hQ o input env r rfl ho he hf
    · rw [slot_submitted_of_ne hk]
      exact h k
  | submittedPartly ho he hf => exact absurd ⟨_, _, rfl, ho, he, hf⟩ hr
  | purged filter => exact (kept_recordedIn Option.none Q).purged hi h _ filter _ k
  | compressed => exact (kept_recordedIn Option.none Q).compressed hi h _ _ k
  | scanned => exact Kept.scanned h _ k
  | controlled => exact (kept_recordedIn _ Q).controlled _ hi h k

def Recorded (s : Slot) : Prop := RecordedIn (fun _ => True) s

theorem Effect.recorded (hi : Inv w) (he : Effect w ev w₁) (hr : ¬ ReusesTime ⟨w, ev, w'⟩)
    (h : ∀ k, Recorded (w.slot k)) (k : InstanceKey) : Recorded (w₁.slot k) :=
  he.recordedIn hi hr h (fun _ input _ _ _ _ he hf => by
    obtain ⟨changes, -, hc⟩ := h (InstanceKey.fromNode input)
    exact ⟨_, trivial, slotRecords_submitted hi he.toAsksChange hf hc⟩) k

/-- The entry and the tree agree on the status changes of every alarm, even if calls to sysrepo throw. -/
theorem recorded_of_run {b : Boot} {tr : History} (h : DaemonRun b tr w) (hr : ∀ t ∈ tr, ¬ ReusesTime t) (k : InstanceKey) :
    Recorded (w.slot k) := by
  refine h.invariant (I := fun tr w => (∀ t ∈ tr, ¬ ReusesTime t) → ∀ k, Recorded (w.slot k)) (fun w hs _ k => ?_)
    (fun tr w ev w' hrun hi hp hr k => ?_) hr k
  · refine ⟨[], trivial, .of_absent ?_⟩
    rw [hs.boots.slot_eq k]
  · have hinv := Inv.of_run hrun
    obtain ⟨w₁, he, hs⟩ := (hp.ends hinv).effect
    rw [hs.slot]
    exact he.recorded hinv (hr _ List.mem_cons_self) (hi fun t ht => hr t (List.mem_cons_of_mem _ ht)) k

end IetfAlarms

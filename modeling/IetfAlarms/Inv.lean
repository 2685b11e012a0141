import IetfAlarms.Rounds
import IetfAlarms.Statistics

/-!
# The tree mirrors the alarms

`Inv` holds in every reachable state, whatever the clock reads and whichever sysrepo calls throw: every
alarm is on the shelf the loaded rules put it on, it is published in the list that belongs to its shelf
and nowhere else, and the leaves of its node are those of its entry. It is kept slot by slot; a round
that works on one slot only has to keep `SlotInv` there.
-/

namespace IetfAlarms
open Program DataTree DataTree.Node
variable [Libyang]

/-! ### Nodes -/

/-- The leaves of the node are those of the entry. -/
structure Mirrors (e : AlarmEntry) (n : Node) : Prop where
  wf : n.WF
  isCleared : n.leaf .isCleared = some (boolText e.isCleared)
  lastRaised : n.leaf .lastRaised = some (yangTimeFormat e.lastRaised)
  lastChanged : n.leaf .lastChanged = some (yangTimeFormat e.lastChanged)
  perceivedSeverity : n.leaf .perceivedSeverity = severityName e.lastSeverity
  alarmText : n.leaf .alarmText = some e.text
  shelfName : n.leaf .shelfName = e.shelf
  timeCreated : (n.leaf .timeCreated).isSome = e.shelf.isNone
  changes : ∃ cs, HasChanges n cs

/-- A node that may come to mirror an alarm with this shelf: one that does already, or a new one. -/
structure Publishable (shelf : Option String) (n : Node) : Prop where
  wf : n.WF
  shelfName : shelf = none → n.leaf .shelfName = none
  timeCreated : shelf.isSome → n.leaf .timeCreated = none
  changes : ∃ cs, HasChanges n cs

theorem hasChanges_empty : HasChanges Node.empty [] := rfl

theorem Publishable.empty (shelf : Option String) : Publishable shelf Node.empty :=
  ⟨WF.empty, fun _ => rfl, fun _ => rfl, [], rfl⟩

namespace Mirrors
variable {e : AlarmEntry} {n : Node}

theorem publishable (h : Mirrors e n) : Publishable e.shelf n := by
  refine ⟨h.wf, fun hs => h.shelfName.trans hs, fun hs => ?_, h.changes⟩
  have ht := h.timeCreated
  cases he : e.shelf with
  | none => simp [he] at hs
  | some shelf =>
    rw [he] at ht
    exact Option.not_isSome_iff_eq_none.1 (by rw [ht]; exact Bool.false_ne_true)

theorem copyable {s : Severity} (hs : e.lastSeverity = s.value) (h : Mirrors e n) : Copyable n := by
  refine ⟨h.wf, h.changes, fun a ha => ?_⟩
  simp only [commonLeaves, List.mem_cons, List.not_mem_nil, or_false] at ha
  rcases ha with rfl | rfl | rfl | rfl | rfl
  · rw [h.isCleared]; rfl
  · rw [h.lastRaised]; rfl
  · rw [h.lastChanged]; rfl
  · rw [h.perceivedSeverity, hs, severityName_value]; rfl
  · rw [h.alarmText]; rfl

/-- What an entry shows does not depend on its status changes. -/
theorem congr {e' : AlarmEntry} {n' : Node} (h : Mirrors e n) (hwf : n'.WF) (hl : ∀ a, n'.leaf a = n.leaf a)
    (hc : ∃ cs, HasChanges n' cs) (he : e' = { e with statusChanges := e'.statusChanges }) : Mirrors e' n' := by
  rw [he]
  exact ⟨hwf, (hl _).trans h.isCleared, (hl _).trans h.lastRaised, (hl _).trans h.lastChanged,
    (hl _).trans h.perceivedSeverity, (hl _).trans h.alarmText, (hl _).trans h.shelfName,
    (congrArg Option.isSome (hl _)).trans h.timeCreated, hc⟩

theorem publish {s : Severity} (hs : e.lastSeverity = s.value) (h : Publishable e.shelf n) :
    Mirrors e (publishLeaves e n) := by
  obtain ⟨cs, hcs⟩ := h.changes
  have hname : (severityName e.lastSeverity).getD "" = s.name := by rw [hs, severityName_value]; rfl
  constructor
  · exact wf_publishLeaves h.wf e
  · unfold publishLeaves; rw [leaf_listLeaf]; cases e.shelf <;> simp [leaf_setLeaf]
  · unfold publishLeaves; rw [leaf_listLeaf]; cases e.shelf <;> simp [leaf_setLeaf]
  · unfold publishLeaves; rw [leaf_listLeaf]; cases e.shelf <;> simp [leaf_setLeaf]
  · unfold publishLeaves
    rw [leaf_listLeaf, hname, hs, severityName_value]
    cases e.shelf <;> simp [leaf_setLeaf]
  · unfold publishLeaves; rw [leaf_listLeaf]; cases e.shelf <;> simp
  · unfold publishLeaves
    rw [leaf_listLeaf]
    cases hsh : e.shelf with
    | none => simp [leaf_setLeaf, h.shelfName hsh]
    | some shelf => simp
  · unfold publishLeaves
    rw [leaf_listLeaf]
    cases hsh : e.shelf with
    | none => simp
    | some shelf => simp [leaf_setLeaf, h.timeCreated (by rw [hsh]; rfl)]
  · exact ⟨cs, hcs.publishLeaves e⟩

theorem drop (h : Mirrors e n) (limit : Option UInt16) :
    Mirrors (e.shrinkStatusChanges limit).1 (dropChanges (e.shrinkStatusChanges limit).2 n) := by
  obtain ⟨cs, hcs⟩ := h.changes
  refine h.congr (wf_dropChanges h.wf _) (leaf_dropChanges _ n) ⟨_, hcs.dropChanges _⟩ ?_
  rw [AlarmEntry.shrinkStatusChanges_eq]

theorem setShelf {old : String} (h : Mirrors e n) (hsh : e.shelf = some old) (name : String) :
    Mirrors { e with shelf := some name } (n.setLeaf .shelfName name) := by
  obtain ⟨cs, hcs⟩ := h.changes
  have ht := h.timeCreated
  rw [hsh] at ht
  have hleaf : ∀ a, a ≠ .shelfName → (n.setLeaf .shelfName name).leaf a = n.leaf a := fun a ha => by
    rw [leaf_setLeaf, if_neg ha]
  constructor
  · exact h.wf.setLeaf _ _
  · rw [hleaf _ (by decide)]; exact h.isCleared
  · rw [hleaf _ (by decide)]; exact h.lastRaised
  · rw [hleaf _ (by decide)]; exact h.lastChanged
  · rw [hleaf _ (by decide)]; exact h.perceivedSeverity
  · rw [hleaf _ (by decide)]; exact h.alarmText
  · exact leaf_setLeaf_self _ _ _
  · rw [hleaf _ (by decide), ht]; rfl
  · exact ⟨cs, (instances_setLeaf (by decide) _ _).trans hcs⟩

/-- The copy in the other list mirrors the alarm on its new shelf. -/
theorem copy {s : Severity} (hs : e.lastSeverity = s.value) (h : Mirrors e n) (shelf : Option String)
    (created : TimePoint) :
    Mirrors { e with shelf := shelf } (copyProps n (listLeaf shelf created Node.empty)) := by
  obtain ⟨cs, hcs⟩ := h.changes
  have hcopy := h.copyable hs
  have hwf : (listLeaf shelf created Node.empty).WF := wf_listLeaf WF.empty _ _
  have hnone : HasChanges (listLeaf shelf created Node.empty) [] := instances_listLeaf _ _ _
  have hleaf : ∀ a ∈ commonLeaves, (copyProps n (listLeaf shelf created Node.empty)).leaf a = n.leaf a :=
    fun a ha => by rw [leaf_copyProps hcs a _ hcopy.leaves, if_pos ha]
  have hother : ∀ a, a ∉ commonLeaves → (copyProps n (listLeaf shelf created Node.empty)).leaf a =
      (listLeaf shelf created Node.empty).leaf a :=
    fun a ha => by rw [leaf_copyProps hcs a _ hcopy.leaves, if_neg ha]
  constructor
  · exact wf_copyProps hwf hcs
  · rw [hleaf _ (by decide)]; exact h.isCleared
  · rw [hleaf _ (by decide)]; exact h.lastRaised
  · rw [hleaf _ (by decide)]; exact h.lastChanged
  · rw [hleaf _ (by decide)]; exact h.perceivedSeverity
  · rw [hleaf _ (by decide)]; exact h.alarmText
  · rw [hother _ (by decide), leaf_listLeaf]
    cases shelf with
    | none => rfl
    | some shelf => rfl
  · rw [hother _ (by decide), leaf_listLeaf]
    cases shelf with
    | none => rfl
    | some shelf => rfl
  · exact ⟨cs, hcs.copyProps h.wf hwf hnone⟩

end Mirrors

/-! ### Slots -/

/-- An alarm as it is stored and published under the loaded rules. -/
structure Listed (rules : ShelvingRules) (k : InstanceKey) (e : AlarmEntry) (node : Listing → Option Node) :
    Prop where
  quotable : k.Quotable
  severity : ∃ s : Severity, e.lastSeverity = s.value
  shelf : e.shelf = findMatchingShelf k rules
  mirrored : ∃ n, node (Listing.ofShelf e.shelf) = some n ∧ Mirrors e n
  alone : ∀ l, l ≠ Listing.ofShelf e.shelf → node l = none

structure SlotInv (rules : ShelvingRules) (k : InstanceKey) (s : Slot) : Prop where
  absent : s.entry = none → ∀ l, s.node l = none
  present : ∀ e, s.entry = some e → Listed rules k e s.node

namespace SlotInv
variable {rules rules' : ShelvingRules} {k : InstanceKey} {s : Slot} {e : AlarmEntry}

theorem of_listed (he : s.entry = some e) (h : Listed rules k e s.node) : SlotInv rules k s := by
  refine ⟨fun hn => ?_, fun e' he' => ?_⟩
  · rw [he] at hn
    cases hn
  · rw [he] at he'
    cases he'
    exact h

theorem of_absent (he : s.entry = none) (h : ∀ l, s.node l = none) : SlotInv rules k s := by
  refine ⟨fun _ => h, fun e he' => ?_⟩
  rw [he] at he'
  cases he'

/-- A node is there for an alarm, in the list of its shelf. -/
theorem entry_of_node {l : Listing} {n : Node} (h : SlotInv rules k s) (hn : s.node l = some n) :
    ∃ e, s.entry = some e ∧ l = Listing.ofShelf e.shelf := by
  cases he : s.entry with
  | none =>
    rw [h.absent he l] at hn
    cases hn
  | some e =>
    refine ⟨e, rfl, ?_⟩
    by_contra hne
    rw [(h.present e he).alone l hne] at hn
    cases hn

/-- The rules matter only to an alarm that is there. -/
theorem change_rules (he : s.entry = none) (h : SlotInv rules k s) : SlotInv rules' k s :=
  of_absent he (h.absent he)

/-- What a round needs. -/
theorem reshelveOk (he : s.entry = some e) (h : SlotInv rules k s) : ReshelveOk (k, e) s := by
  have hl := h.present e he
  obtain ⟨n, hn, hm⟩ := hl.mirrored
  obtain ⟨sev, hsev⟩ := hl.severity
  refine ⟨⟨hl.quotable, he, by rw [hn]; rfl⟩, fun n' hn' => ?_, hl.alone⟩
  rw [hn] at hn'
  cases hn'
  exact hm.copyable hsev

theorem purge (he : s.entry = some e) (l : Listing) (filter : AlarmFilter) (h : SlotInv rules k s) :
    SlotInv rules k (s.purge l filter (k, e)) := by
  unfold Slot.purge
  split
  · rename_i hp
    have hl : l = Listing.ofShelf e.shelf := of_decide_eq_true (Bool.and_eq_true_iff.1 hp).1
    refine of_absent rfl fun l' => ?_
    show (if l' = l then none else s.node l') = none
    split
    · rfl
    · rename_i hne
      exact (h.present e he).alone l' (hl ▸ hne)
  · exact h

/-- Editing the node where it is, together with the entry, keeps the slot if the edit keeps `Mirrors`. -/
theorem editInPlace {e' : AlarmEntry} {f : Node → Node} (he : s.entry = some e) (h : SlotInv rules k s)
    (hsh : e'.shelf = e.shelf) (hsev : ∃ s : Severity, e'.lastSeverity = s.value)
    (hf : ∀ n, Mirrors e n → Mirrors e' (f n)) :
    SlotInv rules k ((s.setEntry e').editNode (Listing.ofShelf e.shelf) f) := by
  have hl := h.present e he
  obtain ⟨n, hn, hm⟩ := hl.mirrored
  refine of_listed (e := e') rfl ⟨hl.quotable, hsev, hsh.trans hl.shelf, ?_, fun l hne => ?_⟩
  · refine ⟨f n, ?_, hf n hm⟩
    simp only [Slot.editNode, Slot.setEntry, hsh, if_pos, hn, Option.getD_some]
  · rw [hsh] at hne
    simp only [Slot.editNode, Slot.setEntry, if_neg hne]
    exact hl.alone l hne

theorem trim (he : s.entry = some e) (limit : Option UInt16) (h : SlotInv rules k s) :
    SlotInv rules k (s.trim limit (k, e)) := by
  obtain ⟨sev, hsev⟩ := (h.present e he).severity
  refine h.editInPlace he ?_ ⟨sev, ?_⟩ fun n hm => hm.drop limit
  · rw [AlarmEntry.shrinkStatusChanges_eq]
  · rw [AlarmEntry.shrinkStatusChanges_eq]
    exact hsev

theorem compress (he : s.entry = some e) (l : Listing) (filter : AlarmFilter) (h : SlotInv rules k s) :
    SlotInv rules k (s.compress l filter (k, e)) := by
  unfold Slot.compress
  split
  · exact h.trim he _
  · exact h

theorem move (he : s.entry = some e) (h : SlotInv rules k s) {shelf : Option String}
    (hsh : shelf = findMatchingShelf k rules') (hne : Listing.ofShelf shelf ≠ Listing.ofShelf e.shelf)
    (created : TimePoint) :
    SlotInv rules' k
      (s.move (Listing.ofShelf e.shelf) (Listing.ofShelf shelf) { e with shelf := shelf } created) := by
  have hl := h.present e he
  obtain ⟨n, hn, hm⟩ := hl.mirrored
  obtain ⟨sev, hsev⟩ := hl.severity
  refine of_listed (e := { e with shelf := shelf }) rfl ⟨hl.quotable, ⟨sev, hsev⟩, hsh, ?_, fun l hnl => ?_⟩
  · refine ⟨_, ?_, hm.copy hsev shelf created⟩
    simp only [Slot.move, Slot.unlinkNode, Slot.editNode, Slot.setEntry, if_neg hne, if_pos, hn,
      hl.alone _ hne, Option.getD_some, Option.getD_none]
  · simp only [Slot.move, Slot.unlinkNode, Slot.editNode, Slot.setEntry, if_neg hnl]
    split
    · rfl
    · rename_i hle
      exact hl.alone l hle

theorem reshelve (he : s.entry = some e) (now : TimePoint) (h : SlotInv rules k s) :
    SlotInv rules' k (s.reshelve now rules' (k, e)) := by
  have hl := h.present e he
  unfold Slot.reshelve
  cases hold : e.shelf with
  | none =>
    cases hnew : findMatchingShelf k rules' with
    | none =>
      refine of_listed he ⟨hl.quotable, hl.severity, hold.trans hnew.symm, hl.mirrored, hl.alone⟩
    | some name =>
      have := h.move he hnew.symm (by rw [hold]; exact Listing.noConfusion) now
      rw [hold] at this
      exact this
  | some old =>
    cases hnew : findMatchingShelf k rules' with
    | none =>
      have := h.move he hnew.symm (by rw [hold]; exact Listing.noConfusion) now
      rw [hold] at this
      exact this
    | some name =>
      simp only
      by_cases hsame : old = name
      · rw [if_neg (not_not.2 hsame)]
        refine of_listed he ⟨hl.quotable, hl.severity, ?_, hl.mirrored, hl.alone⟩
        rw [hold, hsame, hnew]
      · rw [if_pos hsame]
        obtain ⟨n, hn, hm⟩ := hl.mirrored
        rw [hold] at hn
        refine of_listed (e := { e with shelf := some name }) rfl
          ⟨hl.quotable, hl.severity, hnew.symm, ⟨n.setLeaf .shelfName name, ?_, hm.setShelf hold name⟩, fun l hne => ?_⟩
        · have hn' : s.node .shelvedAlarms = some n := hn
          show (if Listing.shelvedAlarms = Listing.shelvedAlarms then
            some (((s.node .shelvedAlarms).getD Node.empty).setLeaf .shelfName name)
            else s.node .shelvedAlarms) = some (n.setLeaf .shelfName name)
          rw [if_pos rfl, hn']
          rfl
        · have hne' : l ≠ .shelvedAlarms := hne
          show (if l = .shelvedAlarms then _ else s.node l) = none
          rw [if_neg hne']
          exact hl.alone l (by rw [hold]; exact hne')

end SlotInv

/-! ### What no round touches -/

/-- The state without the alarms, the tree and the two time points. -/
def World.frame (w : World) : World := { w with
  alarms := .empty
  edit := .empty
  alarmListLastChanged := 0
  shelfListLastChanged := 0 }

namespace World

omit [Libyang] in
@[simp] theorem frame_touch (l : Listing) (now : TimePoint) (w : World) : (w.touch l now).frame = w.frame := by
  cases l <;> rfl

omit [Libyang] in
@[simp] theorem frame_setEntry (w : World) (k : InstanceKey) (e : AlarmEntry) : (w.setEntry k e).frame = w.frame := rfl

omit [Libyang] in
@[simp] theorem frame_eraseEntry (w : World) (k : InstanceKey) : (w.eraseEntry k).frame = w.frame := rfl

omit [Libyang] in
@[simp] theorem frame_editNode (w : World) (l : Listing) (k : InstanceKey) (f : Node → Node) :
    (w.editNode l k f).frame = w.frame := rfl

omit [Libyang] in
@[simp] theorem frame_unlinkNode (w : World) (l : Listing) (k : InstanceKey) : (w.unlinkNode l k).frame = w.frame := rfl

omit [Libyang] in
theorem frame_purge (l : Listing) (filter : AlarmFilter) (w : World) (x : InstanceKey × AlarmEntry) :
    (w.purge l filter x).frame = w.frame := by
  unfold purge
  split
  · rw [frame_eraseEntry, frame_unlinkNode]
  · rfl

theorem frame_trim (limit : Option UInt16) (w : World) (x : InstanceKey × AlarmEntry) :
    (w.trim limit x).frame = w.frame := by
  rw [trim, frame_editNode, frame_setEntry]

theorem frame_compress (l : Listing) (filter : AlarmFilter) (w : World) (x : InstanceKey × AlarmEntry) :
    (w.compress l filter x).frame = w.frame := by
  unfold compress
  split
  · exact frame_trim _ w x
  · rfl

theorem frame_move (src dst : Listing) (k : InstanceKey) (e : AlarmEntry) (created : TimePoint) (w : World) :
    (w.move src dst k e created).frame = w.frame := by
  rw [move, frame_unlinkNode, frame_editNode, frame_setEntry]

theorem frame_reshelve (now : TimePoint) (rules : ShelvingRules) (w : World) (x : InstanceKey × AlarmEntry) :
    (w.reshelve now rules x).frame = w.frame := by
  have htouch : (w.touchBoth now).frame = w.frame := by rw [touchBoth, frame_touch, frame_touch]
  unfold reshelve
  cases x.2.shelf with
  | none =>
    cases findMatchingShelf x.1 rules with
    | none => rfl
    | some name => exact (frame_move _ _ _ _ _ _).trans htouch
  | some old =>
    cases findMatchingShelf x.1 rules with
    | none => exact (frame_move _ _ _ _ _ _).trans htouch
    | some name =>
      simp only
      split
      · rw [frame_editNode, frame_setEntry, frame_touch]
      · rfl

theorem frame_recount (w : World) : w.recount.frame = w.frame := rfl

omit [Libyang] in
theorem frame_foldl {f : World → InstanceKey × AlarmEntry → World} (hf : ∀ w x, (f w x).frame = w.frame)
    (l : AlarmTable) (w : World) : (l.foldl f w).frame = w.frame :=
  foldl_view (v := World.frame) fun x _ w => hf w x

end World

/-! ### States -/

omit [Libyang] in
theorem unlinkNode_wf {w : World} {l : Listing} {k : InstanceKey} (h : w.edit.WF) : (w.unlinkNode l k).edit.WF :=
  h.unlink (alarmPath l k)

/-- The part of the invariant that does not split into slots: siblings are distinct, and every entry of
the two lists is that of some key. -/
structure Tidy (w : World) : Prop where
  wf : w.edit.WF
  keyed : ∀ (l : Listing) (s : Step), s.name = l.entry → (w.edit.find (l.path ++ [s])).isSome →
    ∃ k : InstanceKey, s = k.step l.entry

namespace Tidy
variable {w w' : World}

omit [Libyang] in
theorem congr (h : Tidy w) (he : w'.edit = w.edit) : Tidy w' := ⟨he ▸ h.wf, he ▸ h.keyed⟩

omit [Libyang] in
theorem editNode (h : Tidy w) (l : Listing) (k : InstanceKey) {f : Node → Node} (hf : ∀ n, n.WF → (f n).WF) :
    Tidy (w.editNode l k f) := by
  refine ⟨h.wf.modify hf _, fun l' s hs hfind => ?_⟩
  by_cases hne : l ≠ l' ∨ k.step l.entry ≠ s
  · rw [World.find_editNode_of_ne hne []] at hfind
    exact h.keyed l' s hs hfind
  · rw [not_or, not_not, not_not] at hne
    obtain ⟨rfl, rfl⟩ := hne
    exact ⟨k, rfl⟩

omit [Libyang] in
theorem unlinkNode (h : Tidy w) (l : Listing) (k : InstanceKey) : Tidy (w.unlinkNode l k) := by
  refine ⟨unlinkNode_wf h.wf, fun l' s hs hfind => ?_⟩
  by_cases hne : l ≠ l' ∨ k.step l.entry ≠ s
  · rw [World.find_unlinkNode_of_ne hne []] at hfind
    exact h.keyed l' s hs hfind
  · rw [not_or, not_not, not_not] at hne
    obtain ⟨rfl, rfl⟩ := hne
    exact ⟨k, rfl⟩

omit [Libyang] in
theorem purge (l : Listing) (filter : AlarmFilter) (x : InstanceKey × AlarmEntry) (h : Tidy w) :
    Tidy (w.purge l filter x) := by
  unfold World.purge
  split
  · exact (h.unlinkNode l x.1).congr rfl
  · exact h

theorem trim (limit : Option UInt16) (x : InstanceKey × AlarmEntry) (h : Tidy w) : Tidy (w.trim limit x) :=
  have h' : Tidy (w.setEntry x.1 (x.2.shrinkStatusChanges limit).1) := h.congr rfl
  h'.editNode _ _ fun _ hn => wf_dropChanges hn _

theorem compress (l : Listing) (filter : AlarmFilter) (x : InstanceKey × AlarmEntry) (h : Tidy w) :
    Tidy (w.compress l filter x) := by
  unfold World.compress
  split
  · exact h.trim _ x
  · exact h

theorem move {src dst : Listing} {k : InstanceKey} {cs : List PublishedChange} {n : Node} (e : AlarmEntry)
    (created : TimePoint) (h : Tidy w) (hn : (w.slot k).node src = some n) (hc : HasChanges n cs) :
    Tidy (w.move src dst k e created) := by
  have h' : Tidy (w.setEntry k e) := h.congr rfl
  rw [World.move, hn]
  exact (h'.editNode dst k fun m hm => wf_copyProps (wf_listLeaf hm _ _) hc).unlinkNode src k

theorem reshelve (now : TimePoint) (rules : ShelvingRules) {x : InstanceKey × AlarmEntry} (h : Tidy w)
    (hx : ReshelveOk x (w.slot x.1)) : Tidy (w.reshelve now rules x) := by
  obtain ⟨n, hn⟩ := Option.isSome_iff_exists.1 hx.node
  obtain ⟨cs, hcs⟩ := (hx.copyable n hn).changes
  have htouch : Tidy (w.touchBoth now) := h.congr rfl
  rw [← World.slot_touchBoth now w x.1] at hn
  unfold World.reshelve
  cases hold : x.2.shelf with
  | none =>
    rw [hold] at hn
    cases findMatchingShelf x.1 rules with
    | none => exact h
    | some name => exact htouch.move _ now hn hcs
  | some old =>
    rw [hold] at hn
    cases findMatchingShelf x.1 rules with
    | none => exact htouch.move _ now hn hcs
    | some name =>
      simp only
      split
      · have h' : Tidy ((w.touch .shelvedAlarms now).setEntry x.1 { x.2 with shelf := some name }) := h.congr rfl
        exact h'.editNode _ _ fun _ hm => hm.setLeaf _ _
      · exact h

theorem foldl_reshelve (now : TimePoint) (rules : ShelvingRules) {l : AlarmTable} (hl : (l.map Prod.fst).Nodup)
    (h : Tidy w) (hx : ∀ x ∈ l, ReshelveOk x (w.slot x.1)) : Tidy (l.foldl (World.reshelve now rules) w) := by
  induction l generalizing w with
  | nil => exact h
  | cons x l ih =>
    rw [List.map_cons, List.nodup_cons] at hl
    refine ih hl.2 (h.reshelve now rules (hx x List.mem_cons_self)) fun y hy => ?_
    have hne : y.1 ≠ x.1 := fun heq => hl.1 (List.mem_map.2 ⟨y, hy, heq⟩)
    rw [World.slot_reshelve_of_ne now rules w x y.1 hne]
    exact hx y (List.mem_cons_of_mem x hy)

omit [Libyang] in
theorem foldl {f : World → InstanceKey × AlarmEntry → World} (hf : ∀ w x, Tidy w → Tidy (f w x)) (l : AlarmTable)
    (h : Tidy w) : Tidy (l.foldl f w) := by
  induction l generalizing w with
  | nil => exact h
  | cons x l ih => exact ih (hf w x h)

end Tidy

/-- The rules last loaded by `reshelve`. -/
def World.rules (w : World) : ShelvingRules := w.shelvingRules.getD []

structure Inv (w : World) : Prop extends Tidy w where
  loaded : w.shelvingRules = some w.rules
  slots : ∀ k, SlotInv w.rules k (w.slot k)

/-- What a loop does to every slot, it does to the invariant of the slots. -/
theorem slotInv_foldl {w : World} {rules rules' : ShelvingRules} {f : World → InstanceKey × AlarmEntry → World}
    {T : InstanceKey × AlarmEntry → Slot → Slot} (h : ∀ k, SlotInv rules k (w.slot k))
    (hself : ∀ w x, (f w x).slot x.1 = T x (w.slot x.1)) (hne : ∀ w x k, k ≠ x.1 → (f w x).slot k = w.slot k)
    (hT : ∀ k e s, s.entry = some e → SlotInv rules k s → SlotInv rules' k (T (k, e) s)) (k : InstanceKey) :
    SlotInv rules' k ((w.alarms.entries.foldl f w).slot k) := by
  rw [World.slot_foldl hself hne]
  cases he : w.alarms.lookup k with
  | none => exact (h k).change_rules he
  | some e => exact hT k e _ he (h k)

namespace Inv
variable {w w' : World}

theorem reshelveOk (h : Inv w) {x : InstanceKey × AlarmEntry} (hx : x ∈ w.alarms.entries) :
    ReshelveOk x (w.slot x.1) :=
  (h.slots x.1).reshelveOk (AssocMap.mem_entries_iff.1 hx)

theorem realSeverities (h : Inv w) : RealSeverities w.alarms.entries := fun x hx =>
  ((h.slots x.1).present x.2 (AssocMap.mem_entries_iff.1 hx)).severity

/-- Nothing but the slots and the rules matters to the invariant. -/
theorem congr (h : Inv w) (ha : w'.alarms = w.alarms) (he : w'.edit = w.edit)
    (hr : w'.shelvingRules = w.shelvingRules) : Inv w' := by
  have hrules : w'.rules = w.rules := by rw [World.rules, World.rules, hr]
  refine ⟨h.toTidy.congr he, by rw [hr, hrules]; exact h.loaded, fun k => ?_⟩
  rw [hrules, World.slot_congr ha he]
  exact h.slots k

theorem recount (h : Inv w) : Inv w.recount := by
  refine ⟨⟨World.wf_recount h.wf, fun l s hs hf => ?_⟩, h.loaded, fun k => ?_⟩
  · rw [World.find_recount hs []] at hf
    exact h.keyed l s hs hf
  · rw [World.slot_recount]
    exact h.slots k

/-- A loop whose rounds keep the slots they work on keeps the invariant. -/
theorem foldl (h : Inv w) {f : World → InstanceKey × AlarmEntry → World}
    {T : InstanceKey × AlarmEntry → Slot → Slot} (hf : ∀ w x, Tidy w → Tidy (f w x))
    (hr : ∀ w x, (f w x).frame = w.frame) (hself : ∀ w x, (f w x).slot x.1 = T x (w.slot x.1))
    (hne : ∀ w x k, k ≠ x.1 → (f w x).slot k = w.slot k)
    (hT : ∀ k e s, s.entry = some e → SlotInv w.rules k s → SlotInv w.rules k (T (k, e) s)) :
    Inv (w.alarms.entries.foldl f w) := by
  have hrules := congrArg (fun w : World => w.shelvingRules) (World.frame_foldl hr w.alarms.entries w)
  simp only [World.frame] at hrules
  refine ⟨h.toTidy.foldl hf _, ?_, fun k => ?_⟩
  · rw [World.rules, hrules]
    exact h.loaded
  · rw [World.rules, hrules]
    exact slotInv_foldl h.slots hself hne hT k

theorem purge (h : Inv w) (l : Listing) (filter : AlarmFilter) :
    Inv (w.alarms.entries.foldl (World.purge l filter) w) :=
  h.foldl (fun _ x hw => hw.purge l filter x) (World.frame_purge l filter) (World.slot_purge_self l filter)
    (World.slot_purge_of_ne l filter) fun _ _ _ he hs => hs.purge he l filter

theorem trim (h : Inv w) (limit : Option UInt16) : Inv (w.alarms.entries.foldl (World.trim limit) w) :=
  h.foldl (fun _ x hw => hw.trim limit x) (World.frame_trim limit) (World.slot_trim_self limit)
    (World.slot_trim_of_ne limit) fun _ _ _ he hs => hs.trim he limit

theorem compress (h : Inv w) (l : Listing) (filter : AlarmFilter) :
    Inv (w.alarms.entries.foldl (World.compress l filter) w) :=
  h.foldl (fun _ x hw => hw.compress l filter x) (World.frame_compress l filter)
    (World.slot_compress_self l filter) (World.slot_compress_of_ne l filter)
    fun _ _ _ he hs => hs.compress he l filter

/-- Loading other rules and going through the alarms establishes the invariant for those rules. -/
theorem reshelve (h : Inv w) (now : TimePoint) (rules : ShelvingRules) :
    Inv (w.alarms.entries.foldl (World.reshelve now rules) { w with shelvingRules := some rules }) := by
  have hrules : (w.alarms.entries.foldl (World.reshelve now rules) { w with shelvingRules := some rules }).shelvingRules =
      some rules := by
    have := congrArg (fun w : World => w.shelvingRules) (World.frame_foldl (World.frame_reshelve now rules) w.alarms.entries
      { w with shelvingRules := some rules })
    exact this
  refine ⟨?_, by rw [World.rules, hrules]; rfl, fun k => ?_⟩
  · exact Tidy.foldl_reshelve now rules w.alarms.nodup (h.toTidy.congr rfl) fun x hx => h.reshelveOk hx
  · rw [World.rules, hrules]
    exact slotInv_foldl (w := { w with shelvingRules := some rules }) h.slots (World.slot_reshelve_self now rules)
      (World.slot_reshelve_of_ne now rules) (fun k e s he hs => hs.reshelve he now) k

end Inv
end IetfAlarms

import IetfAlarms.Slots

/-!
# What the loops do to one alarm

One round of `purgeAlarms`, `compressAlarms`, `shrinkStatusChangesLists` and `reshelve` each, as a
function on the state and as the function on the slot that it amounts to. `RoundOk` is what a round
needs to find in the slot it works on.
-/

namespace IetfAlarms
open Program DataTree DataTree.Node

theorem Listing.doingShelved_beq {l : Listing} {shelf : Option String} :
    (l.doingShelved == shelf.isSome) = true ↔ l = Listing.ofShelf shelf := by
  cases l <;> cases shelf <;> simp [doingShelved, Listing.ofShelf]

theorem Listing.doingShelved_bne {l : Listing} {shelf : Option String} :
    (l.doingShelved != shelf.isSome) = true ↔ l ≠ Listing.ofShelf shelf := by
  cases l <;> cases shelf <;> simp [doingShelved, Listing.ofShelf]

variable [Libyang] {Bad : Failure → Prop} {w : World} {x : InstanceKey × AlarmEntry} {s : Slot} {l : Listing}

/-- The alarm is stored as the round sees it, and its node is where it belongs. -/
structure RoundOk (x : InstanceKey × AlarmEntry) (s : Slot) : Prop where
  quotable : x.1.Quotable
  entry : s.entry = some x.2
  node : (s.node (Listing.ofShelf x.2.shelf)).isSome

/-! ### Purging -/

def purges (l : Listing) (filter : AlarmFilter) (x : InstanceKey × AlarmEntry) : Bool :=
  decide (l = Listing.ofShelf x.2.shelf) && filter.matches x.1 x.2

def Slot.purge (l : Listing) (filter : AlarmFilter) (x : InstanceKey × AlarmEntry) (s : Slot) : Slot :=
  if purges l filter x then (s.unlinkNode l).eraseEntry else s

def World.purge (l : Listing) (filter : AlarmFilter) (w : World) (x : InstanceKey × AlarmEntry) : World :=
  if purges l filter x then (w.unlinkNode l x.1).eraseEntry x.1 else w

def countPurged (l : Listing) (filter : AlarmFilter) (n : Nat) (x : InstanceKey × AlarmEntry) : Nat :=
  if purges l filter x then n + 1 else n

omit [Libyang] in
theorem World.slot_purge_self (l : Listing) (filter : AlarmFilter) (w : World) (x : InstanceKey × AlarmEntry) :
    (w.purge l filter x).slot x.1 = (w.slot x.1).purge l filter x := by
  unfold World.purge Slot.purge
  split
  · rw [slot_eraseEntry_self, slot_unlinkNode_self]
  · rfl

omit [Libyang] in
theorem World.slot_purge_of_ne (l : Listing) (filter : AlarmFilter) (w : World) (x : InstanceKey × AlarmEntry)
    (k : InstanceKey) (h : k ≠ x.1) : (w.purge l filter x).slot k = w.slot k := by
  unfold World.purge
  split
  · rw [slot_eraseEntry_of_ne h, slot_unlinkNode_of_ne h]
  · rfl

omit [Libyang] in
theorem purgeAlarm_runsTo (filter : AlarmFilter) (n : Nat) (h : RoundOk x (w.slot x.1)) :
    RunsTo Bad (purgeAlarm l filter n x) w (countPurged l filter n x) (w.purge l filter x) := by
  unfold purgeAlarm countPurged World.purge purges
  by_cases hl : l = Listing.ofShelf x.2.shelf
  · have hne : ¬ (l.doingShelved != x.2.shelf.isSome) = true := fun hb => Listing.doingShelved_bne.1 hb hl
    by_cases hm : filter.matches x.1 x.2 = true
    · obtain ⟨y, hy, hp⟩ := h.quotable.alarmNodePath
      obtain ⟨m, hm'⟩ := Option.isSome_iff_exists.1 h.node
      subst hl
      have hunlink : exec (onEdit (EditM.findAndUnlink (alarmPath (Listing.ofShelf x.2.shelf) x.1))) w =
          (.ok (), w.unlinkNode (Listing.ofShelf x.2.shelf) x.1) :=
        exec_onEdit_of_eq (exec_findAndUnlink_of_some hm')
      simp only [hne, hm, hy, decide_true, Bool.and_self, if_true, Bool.not_true, Bool.false_eq_true, if_false]
      refine .of_eq ?_
      rw [exec_ofExcept_ok_bind, hp, exec_ofExcept_ok_bind, exec_bind_of_ok hunlink]
      rfl
    · simp only [hne, hm, Bool.and_false, Bool.false_eq_true, if_false, Bool.not_false, if_true]
      exact .of_eq rfl
  · have hne : (l.doingShelved != x.2.shelf.isSome) = true := Listing.doingShelved_bne.2 hl
    simp only [hne, hl, decide_false, Bool.false_and, Bool.false_eq_true, if_false, if_true]
    exact .of_eq rfl

/-! ### Trimming -/

def Slot.trim (limit : Option UInt16) (x : InstanceKey × AlarmEntry) (s : Slot) : Slot :=
  (s.setEntry (x.2.shrinkStatusChanges limit).1).editNode (Listing.ofShelf x.2.shelf)
    (dropChanges (x.2.shrinkStatusChanges limit).2)

def World.trim (limit : Option UInt16) (w : World) (x : InstanceKey × AlarmEntry) : World :=
  (w.setEntry x.1 (x.2.shrinkStatusChanges limit).1).editNode (Listing.ofShelf x.2.shelf) x.1
    (dropChanges (x.2.shrinkStatusChanges limit).2)

/-- The changes that go beyond the limit are in the tree to be removed. -/
def TrimOk (limit : Option UInt16) (x : InstanceKey × AlarmEntry) (s : Slot) : Prop :=
  ∀ n, s.node (Listing.ofShelf x.2.shelf) = some n → Droppable n (x.2.shrinkStatusChanges limit).2

theorem World.slot_trim_self (limit : Option UInt16) (w : World) (x : InstanceKey × AlarmEntry) :
    (w.trim limit x).slot x.1 = (w.slot x.1).trim limit x := by
  rw [World.trim, slot_editNode_self, slot_setEntry_self, Slot.trim]

theorem World.slot_trim_of_ne (limit : Option UInt16) (w : World) (x : InstanceKey × AlarmEntry)
    (k : InstanceKey) (h : k ≠ x.1) : (w.trim limit x).slot k = w.slot k := by
  rw [World.trim, slot_editNode_of_ne h, slot_setEntry_of_ne h]

/-- The part that trimming one alarm has in common. -/
theorem dropTimes_runsTo {limit : Option UInt16} (h : RoundOk x (w.slot x.1))
    (ht : Bad .emptyOptional ∨ TrimOk limit x (w.slot x.1)) :
    RunsTo Bad ((x.2.shrinkStatusChanges limit).2.forM fun time => do
        let keyXPath ← ofExcept x.1.keyXPath
        let alarmNodePath ← ofExcept ((Listing.ofShelf x.2.shelf).alarmNodePath keyXPath)
        onEdit (EditM.findAndUnlink (statusChangePath alarmNodePath time)))
      (w.setEntry x.1 (x.2.shrinkStatusChanges limit).1) () (w.trim limit x) := by
  obtain ⟨y, hy, hp⟩ := h.quotable.alarmNodePath
  obtain ⟨n, hn⟩ := Option.isSome_iff_exists.1 h.node
  have hbody : ∀ (time : TimePoint) (w : World), exec (do
        let keyXPath ← ofExcept x.1.keyXPath
        let alarmNodePath ← ofExcept ((Listing.ofShelf x.2.shelf).alarmNodePath keyXPath)
        onEdit (EditM.findAndUnlink (statusChangePath alarmNodePath time))) w =
      exec (onEdit (EditM.findAndUnlink (statusChangePath (alarmPath (Listing.ofShelf x.2.shelf) x.1) time))) w := by
    intro time w
    rw [hy, exec_ofExcept_ok_bind, hp, exec_ofExcept_ok_bind]
  have hd : Bad .emptyOptional ∨ Droppable n (x.2.shrinkStatusChanges limit).2 := ht.imp id fun ht => ht n hn
  have hrun := onEdit_runsTo (w := w.setEntry x.1 (x.2.shrinkStatusChanges limit).1) (dropChanges_runsTo hn hd)
  rw [RunsTo, exec_forM_onEdit hbody]
  exact hrun

def compresses (l : Listing) (filter : AlarmFilter) (x : InstanceKey × AlarmEntry) : Bool :=
  decide (l = Listing.ofShelf x.2.shelf) && filter.matches x.1 x.2

def World.compress (l : Listing) (filter : AlarmFilter) (w : World) (x : InstanceKey × AlarmEntry) : World :=
  if compresses l filter x then w.trim (some 1) x else w

def Slot.compress (l : Listing) (filter : AlarmFilter) (x : InstanceKey × AlarmEntry) (s : Slot) : Slot :=
  if compresses l filter x then s.trim (some 1) x else s

def countCompressed (l : Listing) (filter : AlarmFilter) (n : Nat) (x : InstanceKey × AlarmEntry) : Nat :=
  if compresses l filter x && !(x.2.shrinkStatusChanges (some 1)).2.isEmpty then n + 1 else n

theorem World.slot_compress_self (l : Listing) (filter : AlarmFilter) (w : World) (x : InstanceKey × AlarmEntry) :
    (w.compress l filter x).slot x.1 = (w.slot x.1).compress l filter x := by
  unfold World.compress Slot.compress
  split
  · exact slot_trim_self _ w x
  · rfl

theorem World.slot_compress_of_ne (l : Listing) (filter : AlarmFilter) (w : World) (x : InstanceKey × AlarmEntry)
    (k : InstanceKey) (h : k ≠ x.1) : (w.compress l filter x).slot k = w.slot k := by
  unfold World.compress
  split
  · exact slot_trim_of_ne _ w x k h
  · rfl

theorem compressAlarm_runsTo (filter : AlarmFilter) (n : Nat) (h : RoundOk x (w.slot x.1))
    (ht : Bad .emptyOptional ∨ TrimOk (some 1) x (w.slot x.1)) :
    RunsTo Bad (compressAlarm l filter n x) w (countCompressed l filter n x) (w.compress l filter x) := by
  unfold compressAlarm countCompressed World.compress compresses
  by_cases hc : (decide (l = Listing.ofShelf x.2.shelf) && filter.matches x.1 x.2) = true
  · obtain ⟨hl, hm⟩ := Bool.and_eq_true_iff.1 hc
    have hl : l = Listing.ofShelf x.2.shelf := of_decide_eq_true hl
    have hb : (l.doingShelved == x.2.shelf.isSome) = true := Listing.doingShelved_beq.2 hl
    have hdrop := dropTimes_runsTo h ht
    subst hl
    simp only [hb, hm, Bool.and_self, if_true, decide_true, Bool.true_and]
    refine .bind (.of_eq (exec_modify _ _)) (.bind hdrop ?_)
    cases (x.2.shrinkStatusChanges (some 1)).2.isEmpty <;> exact .of_eq rfl
  · have hb : ((l.doingShelved == x.2.shelf.isSome) && filter.matches x.1 x.2) = false := by
      by_cases hl : l = Listing.ofShelf x.2.shelf
      · rw [decide_eq_true hl, Bool.true_and] at hc
        rw [Bool.eq_false_iff.2 hc, Bool.and_false]
      · rw [Bool.eq_false_iff.2 fun hb => hl (Listing.doingShelved_beq.1 hb), Bool.false_and]
    simp only [hb, hc, Bool.false_and, Bool.false_eq_true, if_false]
    exact .of_eq rfl

theorem shrinkAlarm_runsTo (limit : Option UInt16) (b : Bool) (h : RoundOk x (w.slot x.1))
    (ht : Bad .emptyOptional ∨ TrimOk limit x (w.slot x.1)) :
    RunsTo Bad (shrinkAlarm limit b x) w (b || !(x.2.shrinkStatusChanges limit).2.isEmpty) (w.trim limit x) := by
  have hdrop := dropTimes_runsTo h ht
  have hs : (x.2.shrinkStatusChanges limit).1.shelf = x.2.shelf := by rw [AlarmEntry.shrinkStatusChanges_eq]
  unfold shrinkAlarm
  simp only [hs]
  exact .bind (.of_eq (exec_modify _ _)) (.bind hdrop (.of_eq rfl))

/-! ### Moving between the lists -/

/-- Copy the node of an alarm from one list to the other and remove the original. -/
def Slot.move (src dst : Listing) (e : AlarmEntry) (created : TimePoint) (s : Slot) : Slot :=
  ((s.setEntry e).editNode dst fun n =>
    copyProps ((s.node src).getD Node.empty) (listLeaf e.shelf created n)).unlinkNode src

def World.move (src dst : Listing) (k : InstanceKey) (e : AlarmEntry) (created : TimePoint) (w : World) : World :=
  ((w.setEntry k e).editNode dst k fun n =>
    copyProps (((w.slot k).node src).getD Node.empty) (listLeaf e.shelf created n)).unlinkNode src k

theorem World.slot_move_self (src dst : Listing) (k : InstanceKey) (e : AlarmEntry) (created : TimePoint)
    (w : World) : (w.move src dst k e created).slot k = (w.slot k).move src dst e created := by
  rw [World.move, slot_unlinkNode_self, slot_editNode_self, slot_setEntry_self, Slot.move]

theorem World.slot_move_of_ne (src dst : Listing) {k k' : InstanceKey} (e : AlarmEntry) (created : TimePoint)
    (w : World) (h : k' ≠ k) : (w.move src dst k e created).slot k' = w.slot k' := by
  rw [World.move, slot_unlinkNode_of_ne h, slot_editNode_of_ne h, slot_setEntry_of_ne h]

omit [Libyang] in
@[simp] theorem World.slot_touch (l : Listing) (now : TimePoint) (w : World) (k : InstanceKey) :
    (w.touch l now).slot k = w.slot k := by
  cases l <;> exact slot_congr rfl rfl k

/-- Both lists change when an alarm moves between them. -/
def World.touchBoth (now : TimePoint) (w : World) : World := (w.touch .alarmList now).touch .shelvedAlarms now

omit [Libyang] in
@[simp] theorem World.slot_touchBoth (now : TimePoint) (w : World) (k : InstanceKey) :
    (w.touchBoth now).slot k = w.slot k := by
  rw [touchBoth, slot_touch, slot_touch]

def Slot.reshelve (now : TimePoint) (rules : ShelvingRules) (x : InstanceKey × AlarmEntry) (s : Slot) : Slot :=
  match x.2.shelf, findMatchingShelf x.1 rules with
  | some _, none => s.move .shelvedAlarms .alarmList { x.2 with shelf := none } now
  | none, some name => s.move .alarmList .shelvedAlarms { x.2 with shelf := some name } now
  | some old, some name =>
    if old ≠ name then
      (s.setEntry { x.2 with shelf := some name }).editNode .shelvedAlarms fun n => n.setLeaf .shelfName name
    else s
  | none, none => s

def World.reshelve (now : TimePoint) (rules : ShelvingRules) (w : World) (x : InstanceKey × AlarmEntry) : World :=
  match x.2.shelf, findMatchingShelf x.1 rules with
  | some _, none => (w.touchBoth now).move .shelvedAlarms .alarmList x.1 { x.2 with shelf := none } now
  | none, some name => (w.touchBoth now).move .alarmList .shelvedAlarms x.1 { x.2 with shelf := some name } now
  | some old, some name =>
    if old ≠ name then
      ((w.touch .shelvedAlarms now).setEntry x.1 { x.2 with shelf := some name }).editNode .shelvedAlarms x.1
        fun n => n.setLeaf .shelfName name
    else w
  | none, none => w

/-- The round moves the alarm to another shelf or list. -/
def reshelves (rules : ShelvingRules) (x : InstanceKey × AlarmEntry) : Bool :=
  x.2.shelf != findMatchingShelf x.1 rules

theorem World.slot_reshelve_self (now : TimePoint) (rules : ShelvingRules) (w : World)
    (x : InstanceKey × AlarmEntry) : (w.reshelve now rules x).slot x.1 = (w.slot x.1).reshelve now rules x := by
  unfold World.reshelve Slot.reshelve
  cases x.2.shelf with
  | none =>
    cases findMatchingShelf x.1 rules with
    | none => rfl
    | some name =>
      simp only
      rw [slot_move_self, slot_touchBoth]
  | some old =>
    cases findMatchingShelf x.1 rules with
    | none =>
      simp only
      rw [slot_move_self, slot_touchBoth]
    | some name =>
      simp only
      split
      · rw [slot_editNode_self, slot_setEntry_self, slot_touch]
      · rfl

theorem World.slot_reshelve_of_ne (now : TimePoint) (rules : ShelvingRules) (w : World)
    (x : InstanceKey × AlarmEntry) (k : InstanceKey) (h : k ≠ x.1) :
    (w.reshelve now rules x).slot k = w.slot k := by
  unfold World.reshelve
  cases x.2.shelf with
  | none =>
    cases findMatchingShelf x.1 rules with
    | none => rfl
    | some name =>
      simp only
      rw [slot_move_of_ne _ _ _ _ _ h, slot_touchBoth]
  | some old =>
    cases findMatchingShelf x.1 rules with
    | none =>
      simp only
      rw [slot_move_of_ne _ _ _ _ _ h, slot_touchBoth]
    | some name =>
      simp only
      split
      · rw [slot_editNode_of_ne h, slot_setEntry_of_ne h, slot_touch]
      · rfl

/-- The node can be copied: it has all that `createCommonAlarmNodeProps` reads. -/
structure Copyable (n : Node) : Prop where
  wf : n.WF
  changes : ∃ cs, HasChanges n cs
  leaves : ∀ a ∈ commonLeaves, (n.leaf a).isSome

structure ReshelveOk (x : InstanceKey × AlarmEntry) (s : Slot) : Prop extends RoundOk x s where
  copyable : ∀ n, s.node (Listing.ofShelf x.2.shelf) = some n → Copyable n
  alone : ∀ l, l ≠ Listing.ofShelf x.2.shelf → s.node l = none

omit [Libyang] in
theorem step_lookup (k : InstanceKey) (name : Schema) : ∀ a ∈ commonLeaves, (k.step name).keys.lookup a = none := by
  intro a ha
  simp only [commonLeaves, List.mem_cons, List.not_mem_nil, or_false] at ha
  rcases ha with rfl | rfl | rfl | rfl | rfl <;> rfl

omit [Libyang] in
theorem alarmPath_getLastD (l : Listing) (k : InstanceKey) (s : Step) :
    (alarmPath l k).getLastD s = k.step l.entry := by
  rw [alarmPath, List.getLastD_concat]

/-- What both functions that create a node from an existing one do. -/
theorem createNode_exec {src dst : Listing} {k : InstanceKey} {a : Schema} (v : String) {n : Node} {edit : Node}
    (hn : Copyable n) (hdst : find (alarmPath dst k) edit = none) :
    exec (do
        EditM.newPathUpdate (alarmPath dst k ++ [⟨a, []⟩]) (some v)
        createCommonAlarmNodeProps (k.step src.entry, n) (alarmPath dst k)) edit =
      (.ok (), edit.modify (alarmPath dst k) fun m => copyProps n (m.setLeaf a v)) := by
  obtain ⟨cs, hcs⟩ := hn.changes
  refine (exec_bind_of_ok (exec_newPathUpdate _ _ _) _).trans ?_
  rw [newPath_leaf, createCommonAlarmNodeProps_exec (step_lookup k src.entry) hn.wf hcs hn.leaves
    (find_modify _ _ _) fun c _ => ?_, modify_modify]
  rw [focus_of_not_find hdst]
  exact child_setLeaf_of_ne (leafStep_ne_changeStep a c.time).symm _ _

theorem createShelvedAlarmNode_exec {k : InstanceKey} {y : String} {n edit : Node}
    (hp : ∀ l : Listing, l.alarmNodePath y = .ok (alarmPath l k)) (hn : Copyable n)
    (hdst : find (alarmPath .shelvedAlarms k) edit = none) (name : String) :
    exec (createShelvedAlarmNodeFromExistingNode (k.step Listing.alarmList.entry, n) y name) edit =
      (.ok (), edit.modify (alarmPath .shelvedAlarms k) fun m => copyProps n (m.setLeaf .shelfName name)) := by
  rw [createShelvedAlarmNodeFromExistingNode, hp, exec_ofExcept_ok_bind]
  exact createNode_exec name hn hdst

theorem createAlarmNode_exec {k : InstanceKey} {y : String} {n edit : Node}
    (hp : ∀ l : Listing, l.alarmNodePath y = .ok (alarmPath l k)) (hn : Copyable n)
    (hdst : find (alarmPath .alarmList k) edit = none) (now : TimePoint) :
    exec (createAlarmNodeFromExistingNode (k.step Listing.shelvedAlarms.entry, n) y now) edit =
      (.ok (), edit.modify (alarmPath .alarmList k)
        fun m => copyProps n (m.setLeaf .timeCreated (yangTimeFormat now))) := by
  rw [createAlarmNodeFromExistingNode, hp, exec_ofExcept_ok_bind]
  exact createNode_exec (yangTimeFormat now) hn hdst

omit [Libyang] in
theorem exec_onEdit_findPath {l : Listing} {k : InstanceKey} {n : Node}
    (h : find (alarmPath l k) w.edit = some n) :
    exec (onEdit (EditM.findPath (alarmPath l k))) w = (.ok (k.step l.entry, n), w) := by
  rw [exec_onEdit_of_eq (exec_findPath_of_some h), alarmPath_getLastD]
  rfl

omit [Libyang] in
theorem setShelf_exec {k : InstanceKey} {e : AlarmEntry} (h : (w.slot k).entry = some e) (shelf : Option String) :
    exec (setShelf k shelf) w = (.ok (), w.setEntry k { e with shelf := shelf }) := by
  have h' : w.alarms.lookup k = some e := h
  rw [setShelf, exec_modify, h']
  rfl

theorem reshelveAlarm_exec {now : TimePoint} {rules : ShelvingRules} (b : Bool) (h : ReshelveOk x (w.slot x.1)) :
    exec (reshelveAlarm now rules b x) w = (.ok (b || reshelves rules x), w.reshelve now rules x) := by
  obtain ⟨y, hy, hp⟩ := h.quotable.alarmNodePath
  obtain ⟨n, hn⟩ := Option.isSome_iff_exists.1 h.node
  have hcopy := h.copyable n hn
  unfold reshelveAlarm World.reshelve reshelves shouldBeShelved
  simp only [hy]
  rw [exec_ofExcept_ok_bind]
  cases hs : x.2.shelf with
  | none =>
    have hn : find (alarmPath .alarmList x.1) w.edit = some n := by rw [hs] at hn; exact hn
    have hdst : find (alarmPath .shelvedAlarms x.1) w.edit = none := h.alone .shelvedAlarms (by rw [hs]; decide)
    cases hm : findMatchingShelf x.1 rules with
    | none => simp only [exec_pure, bne_self_eq_false, Bool.or_false]
    | some name =>
      have hne : (none != some name) = true := rfl
      have hsrc : ((w.touchBoth now).slot x.1).node .alarmList = some n := by
        rw [World.slot_touchBoth]
        exact hn
      simp only [hp]
      rw [exec_ofExcept_ok_bind, exec_bind_of_ok (exec_onEdit_findPath hn),
        exec_bind_of_ok (setShelf_exec h.entry (some name)), touchList, exec_modify_bind, touchList, exec_modify_bind]
      have hcreate := exec_onEdit_of_eq (w := (w.setEntry x.1 { x.2 with shelf := some name }).touchBoth now)
        (createShelvedAlarmNode_exec hp hcopy hdst name)
      rw [World.touchBoth] at hcreate
      rw [exec_bind_of_ok hcreate, exec_bind_of_ok (exec_onEdit_of_eq (r := .ok ()) rfl), exec_pure, hne, Bool.or_true, World.move, hsrc]
      rfl
  | some old =>
    have hn : find (alarmPath .shelvedAlarms x.1) w.edit = some n := by rw [hs] at hn; exact hn
    have hdst : find (alarmPath .alarmList x.1) w.edit = none :=
      h.alone .alarmList (by rw [hs]; exact Listing.noConfusion)
    cases hm : findMatchingShelf x.1 rules with
    | none =>
      have hne : (some old != none) = true := rfl
      have hsrc : ((w.touchBoth now).slot x.1).node .shelvedAlarms = some n := by
        rw [World.slot_touchBoth]
        exact hn
      simp only [hp]
      rw [exec_ofExcept_ok_bind, exec_bind_of_ok (exec_onEdit_findPath hn),
        exec_bind_of_ok (setShelf_exec h.entry none), touchList, exec_modify_bind, touchList, exec_modify_bind]
      have hcreate := exec_onEdit_of_eq (w := (w.setEntry x.1 { x.2 with shelf := none }).touchBoth now)
        (createAlarmNode_exec hp hcopy hdst now)
      rw [World.touchBoth] at hcreate
      rw [exec_bind_of_ok hcreate, exec_bind_of_ok (exec_onEdit_of_eq (r := .ok ()) rfl), exec_pure, hne, Bool.or_true, World.move, hsrc]
      rfl
    | some name =>
      by_cases hold : old = name
      · subst hold
        simp only [ne_eq, not_true_eq_false, if_false, exec_pure, bne_self_eq_false, Bool.or_false]
      · have hne : (some old != some name) = true := by simpa using hold
        simp only [ne_eq, hold, not_false_eq_true, if_true, hp, hne, Bool.or_true]
        rw [exec_bind_of_ok (setShelf_exec h.entry (some name)), touchList, exec_modify_bind, exec_ofExcept_ok_bind,
          exec_bind_of_ok (exec_onEdit_of_eq (exec_newPathUpdate _ _ _)), exec_pure, newPath_leaf]
        rfl

end IetfAlarms

import IetfAlarms.Control

/-!
# What the edits do to one alarm node

Each piece of `EditM` code that works below an alarm's path is one `modify` there: `publishLeaves`,
`pushChange`, `dropChanges` and `copyProps` are the functions it applies. Their read-back lemmas say
which leaves and which status changes an alarm node has afterwards.
-/

namespace IetfAlarms
open Program DataTree DataTree.Node

/-! ### The primitives -/

@[simp] theorem exec_newPathUpdate (p : Path) (v : Option String) (n : Node) :
    exec (EditM.newPathUpdate p v) n = (.ok (), n.newPath p v) := rfl

theorem exec_newPath_of_none {p : Path} {n : Node} (h : find p n = none) (v : Option String) :
    exec (EditM.newPath p v) n = (.ok (), n.newPath p v) := by
  rw [EditM.newPath, exec_get_bind, h]
  rfl

theorem exec_newPath_of_some {p : Path} {n m : Node} (h : find p n = some m) (v : Option String) :
    exec (EditM.newPath p v) n = (.error .nodeExists, n) := by
  rw [EditM.newPath, exec_get_bind, h]
  rfl

theorem exec_findPath_of_some {p : Path} {n m : Node} (h : find p n = some m) :
    exec (EditM.findPath p) n = (.ok (p.getLastD ⟨.alarms, []⟩, m), n) := by
  rw [EditM.findPath, exec_get_bind, h]
  rfl

theorem exec_findAndUnlink_of_some {p : Path} {n m : Node} (h : find p n = some m) :
    exec (EditM.findAndUnlink p) n = (.ok (), n.unlink p) := by
  rw [EditM.findAndUnlink, exec_bind_of_ok (exec_findPath_of_some h)]
  rfl

theorem exec_findAndUnlink_of_none {p : Path} {n : Node} (h : find p n = none) :
    exec (EditM.findAndUnlink p) n = (.error .emptyOptional, n) := by
  rw [EditM.findAndUnlink, EditM.findPath, exec_bind, exec_get_bind, h]
  rfl

theorem newPath_leaf (p : Path) (a : Schema) (v : String) (n : Node) :
    n.newPath (p ++ [⟨a, []⟩]) (some v) = n.modify p (fun m => m.setLeaf a v) :=
  modify_append p _ _ n

theorem childValue_leaf {s : Step} {n : Node} {a : Schema} {v : String} (hs : s.keys.lookup a = none)
    (h : n.leaf a = some v) : childValue (s, n) a = .ok v := by
  rw [childValue, hs, h]
  rfl

theorem severityText_value (s : Severity) : severityText s.value = .ok s.name := by
  rw [severityText, severityName_value]

theorem firstExistingChange_eq_none {n : Node} :
    firstExistingChange n = none ↔ n.instances .statusChange = [] := by
  rw [firstExistingChange, Option.map_eq_none_iff, List.head?_eq_none_iff]

/-! ### Status changes -/

def changeNode (severity text : String) : Node :=
  (Node.empty.setLeaf .perceivedSeverity severity).setLeaf .alarmText text

theorem wf_changeNode (severity text : String) : (changeNode severity text).WF :=
  (WF.empty.setLeaf _ _).setLeaf _ _

variable [Libyang] {Bad : Failure → Prop}

theorem changeStep_injective {t t' : TimePoint} (h : changeStep t = changeStep t') : t = t' := by
  simp only [changeStep, Step.mk.injEq, List.cons.injEq, Prod.mk.injEq, true_and, and_true] at h
  exact Libyang.yangTimeFormat_injective h

theorem leafStep_ne_changeStep (a : Schema) (t : TimePoint) : (⟨a, []⟩ : Step) ≠ changeStep t := by
  intro h
  cases congrArg Step.keys h

/-- An entry of `status-change` as it is published. -/
structure PublishedChange where
  time : TimePoint
  severity : String
  text : String
deriving DecidableEq, Repr

def PublishedChange.child (c : PublishedChange) : DataNode := (changeStep c.time, changeNode c.severity c.text)

/-- The leaves of a status change, as a reader of the tree sees them. -/
def readChange (x : DataNode) : Option String × Option String × Option String :=
  (x.1.keys.lookup .time, x.2.leaf .perceivedSeverity, x.2.leaf .alarmText)

@[simp] theorem readChange_child (c : PublishedChange) :
    readChange c.child = (some (yangTimeFormat c.time), some c.severity, some c.text) := by
  simp only [readChange, PublishedChange.child, changeNode, leaf_setLeaf]
  rfl

theorem child_injective {c c' : PublishedChange} (h : c.child = c'.child) : c = c' := by
  have ht := changeStep_injective (congrArg Prod.fst h)
  have hr := congrArg readChange h
  rw [readChange_child, readChange_child] at hr
  simp only [Prod.mk.injEq, Option.some.injEq] at hr
  obtain ⟨t, s, x⟩ := c
  obtain ⟨t', s', x'⟩ := c'
  simp only at ht hr
  rw [ht, hr.2.1, hr.2.2]

/-- The node's status changes are these, in this order. -/
def HasChanges (n : Node) (cs : List PublishedChange) : Prop :=
  n.instances .statusChange = cs.map PublishedChange.child

namespace HasChanges
variable {n : Node} {cs : List PublishedChange}

theorem steps (h : HasChanges n cs) :
    (n.instances .statusChange).map Prod.fst = cs.map fun c => changeStep c.time := by
  rw [h, List.map_map]
  rfl

theorem nodup (hn : n.WF) (h : HasChanges n cs) : (cs.map (·.time)).Nodup := by
  have hd : ((n.instances .statusChange).map Prod.fst).Nodup :=
    hn.children.sublist (List.filter_sublist.map _)
  have hmap : (cs.map fun c => changeStep c.time) = (cs.map (·.time)).map changeStep := by
    rw [List.map_map]
    rfl
  rw [h.steps, hmap] at hd
  exact hd.of_map

theorem child_isSome_iff (hn : n.WF) (h : HasChanges n cs) (t : TimePoint) :
    (n.child (changeStep t)).isSome ↔ t ∈ cs.map (·.time) := by
  constructor
  · intro hs
    obtain ⟨c, hc⟩ := Option.isSome_iff_exists.1 hs
    have hm : (changeStep t, c) ∈ n.instances .statusChange := (mem_instances_iff hn.children).2 ⟨rfl, hc⟩
    rw [h] at hm
    obtain ⟨d, hd, heq⟩ := List.mem_map.1 hm
    exact List.mem_map.2 ⟨d, hd, changeStep_injective (congrArg Prod.fst heq)⟩
  · intro ht
    obtain ⟨c, hc, rfl⟩ := List.mem_map.1 ht
    have hm : c.child ∈ n.instances .statusChange := h ▸ List.mem_map_of_mem hc
    have := ((mem_instances_iff hn.children).1 hm).2
    exact Option.isSome_iff_exists.2 ⟨_, this⟩

end HasChanges

/-! ### Publishing -/

/-- The leaf that says where an alarm is listed and why. -/
def listLeaf (shelf : Option String) (created : TimePoint) (n : Node) : Node :=
  match shelf with
  | some shelf => n.setLeaf .shelfName shelf
  | none => n.setLeaf .timeCreated (yangTimeFormat created)

def publishLeaves (e : AlarmEntry) (n : Node) : Node :=
  listLeaf e.shelf e.created <| (((((n.setLeaf .isCleared (boolText e.isCleared)).setLeaf .lastRaised
    (yangTimeFormat e.lastRaised)).setLeaf .lastChanged (yangTimeFormat e.lastChanged)).setLeaf
    .perceivedSeverity ((severityName e.lastSeverity).getD "")).setLeaf .alarmText e.text)

theorem leaf_listLeaf (shelf : Option String) (created : TimePoint) (n : Node) (a : Schema) :
    (listLeaf shelf created n).leaf a =
      match shelf with
      | some shelf => if a = .shelfName then some shelf else n.leaf a
      | none => if a = .timeCreated then some (yangTimeFormat created) else n.leaf a := by
  cases shelf with
  | some shelf => exact leaf_setLeaf _ _ _ _
  | none => exact leaf_setLeaf _ _ _ _

theorem instances_listLeaf (shelf : Option String) (created : TimePoint) (n : Node) :
    (listLeaf shelf created n).instances .statusChange = n.instances .statusChange := by
  cases shelf with
  | some shelf => exact instances_setLeaf (by decide) _ _
  | none => exact instances_setLeaf (by decide) _ _

theorem HasChanges.publishLeaves {n : Node} {cs : List PublishedChange} (h : HasChanges n cs) (e : AlarmEntry) :
    HasChanges (publishLeaves e n) cs := by
  rw [HasChanges, IetfAlarms.publishLeaves, instances_listLeaf, instances_setLeaf (by decide),
    instances_setLeaf (by decide), instances_setLeaf (by decide), instances_setLeaf (by decide),
    instances_setLeaf (by decide)]
  exact h

theorem wf_listLeaf {n : Node} (h : n.WF) (shelf : Option String) (created : TimePoint) :
    (listLeaf shelf created n).WF := by
  cases shelf with
  | some shelf => exact h.setLeaf _ _
  | none => exact h.setLeaf _ _

theorem wf_publishLeaves {n : Node} (h : n.WF) (e : AlarmEntry) : (publishLeaves e n).WF :=
  wf_listLeaf (((((h.setLeaf _ _).setLeaf _ _).setLeaf _ _).setLeaf _ _).setLeaf _ _) _ _

theorem exec_publishAlarm {e : AlarmEntry} {s : Severity} (hs : e.lastSeverity = s.value) (p : Path) (n : Node) :
    exec (publishAlarm p e) n = (.ok (), n.modify p (publishLeaves e)) := by
  have hname : (severityName e.lastSeverity).getD "" = s.name := by rw [hs, severityName_value]; rfl
  rw [publishAlarm, exec_bind_of_ok (exec_newPathUpdate _ _ _), exec_bind_of_ok (exec_newPathUpdate _ _ _),
    exec_bind_of_ok (exec_newPathUpdate _ _ _), hs, severityText_value, exec_ofExcept_ok_bind,
    exec_bind_of_ok (exec_newPathUpdate _ _ _), exec_bind_of_ok (exec_newPathUpdate _ _ _)]
  simp only [newPath_leaf, modify_modify]
  unfold publishLeaves
  rw [hname]
  cases e.shelf with
  | some shelf => simp only [exec_newPathUpdate, newPath_leaf, modify_modify, listLeaf]
  | none => simp only [exec_newPathUpdate, newPath_leaf, modify_modify, listLeaf]

/-! ### The newest change -/

def pushChange (c : PublishedChange) (n : Node) : Node :=
  match firstExistingChange n with
  | some first => (n.setChild c.child.1 c.child.2).moveBefore c.child.1 first
  | none => n.setChild c.child.1 c.child.2

theorem leaf_pushChange (c : PublishedChange) (n : Node) (a : Schema) : (pushChange c n).leaf a = n.leaf a := by
  have hset := leaf_setChild_of_ne (leafStep_ne_changeStep a c.time) c.child.2 n
  unfold pushChange
  cases firstExistingChange n with
  | none => exact hset
  | some first => exact (leaf_moveBefore_of_ne (leafStep_ne_changeStep a c.time) first _).trans hset

theorem wf_pushChange {n : Node} (h : n.WF) (c : PublishedChange) : (pushChange c n).WF := by
  have hset := h.setChild (s := c.child.1) (wf_changeNode c.severity c.text)
  unfold pushChange
  cases firstExistingChange n with
  | none => exact hset
  | some first => exact hset.moveBefore

theorem HasChanges.pushChange {n : Node} {cs : List PublishedChange} (hn : n.WF) (h : HasChanges n cs)
    {c : PublishedChange} (hc : c.time ∉ cs.map (·.time)) : HasChanges (pushChange c n) (c :: cs) := by
  have hnone : n.child c.child.1 = none := by
    rw [← Option.not_isSome_iff_eq_none]
    exact fun hs => hc ((h.child_isSome_iff hn c.time).1 hs)
  have happ : (n.setChild c.child.1 c.child.2).instances .statusChange =
      n.instances .statusChange ++ [c.child] := instances_setChild_of_child_none rfl hnone c.child.2
  unfold HasChanges IetfAlarms.pushChange
  cases hcs : cs with
  | nil =>
    rw [hcs] at h
    rw [firstExistingChange_eq_none.2 h, happ, h]
    rfl
  | cons d ds =>
    rw [hcs] at h
    have hfirst : firstExistingChange n = some d.child.1 := by
      rw [firstExistingChange, h]
      rfl
    rw [hfirst]
    have herase : (Assoc.erase c.child.1 (n.setChild c.child.1 c.child.2).children).filter
        (fun x => x.1.name = .statusChange) = (d.child.1, d.child.2) :: ds.map PublishedChange.child := by
      have hinst := instances_eraseChild Schema.statusChange c.child.1 (n.setChild c.child.1 c.child.2)
      rw [happ, h] at hinst
      refine hinst.trans ?_
      rw [List.filter_append, List.filter_eq_self.2, List.filter_cons]
      · simp [PublishedChange.child]
      · intro x hx
        obtain ⟨d', hd', rfl⟩ := List.mem_map.1 hx
        refine decide_eq_true fun heq => hc ?_
        rw [hcs]
        exact List.mem_map.2 ⟨d', hd', changeStep_injective heq⟩
    exact instances_moveBefore (hn.setChild (wf_changeNode c.severity c.text)).children rfl
      (child_setChild_self _ _ _) herase

/-! ### Dropping changes -/

def dropChanges (times : List TimePoint) (n : Node) : Node :=
  times.foldl (fun n t => n.eraseChild (changeStep t)) n

theorem leaf_dropChanges (times : List TimePoint) (n : Node) (a : Schema) :
    (dropChanges times n).leaf a = n.leaf a := by
  induction times generalizing n with
  | nil => rfl
  | cons t times ih =>
    rw [dropChanges, List.foldl_cons]
    exact (ih _).trans (leaf_eraseChild_of_ne (leafStep_ne_changeStep a t) n)

theorem wf_dropChanges {n : Node} (h : n.WF) (times : List TimePoint) : (dropChanges times n).WF := by
  induction times generalizing n with
  | nil => exact h
  | cons t times ih => exact ih h.eraseChild

theorem HasChanges.dropChanges {n : Node} {cs : List PublishedChange} (h : HasChanges n cs)
    (times : List TimePoint) : HasChanges (dropChanges times n) (cs.filter fun c => c.time ∉ times) := by
  induction times generalizing n cs with
  | nil =>
    rw [List.filter_eq_self.2 fun c _ => decide_eq_true List.not_mem_nil]
    exact h
  | cons t times ih =>
    have ht : HasChanges (n.eraseChild (changeStep t)) (cs.filter fun c => c.time ≠ t) := by
      rw [HasChanges, instances_eraseChild, h, List.filter_map]
      congr 1
      refine List.filter_congr fun c _ => ?_
      have : changeStep c.time = changeStep t ↔ c.time = t := ⟨changeStep_injective, congrArg _⟩
      simp [PublishedChange.child, this]
    have := ih ht
    rw [List.filter_filter] at this
    refine (congrArg (HasChanges _) ?_).mp this
    refine List.filter_congr fun c _ => ?_
    simp [List.mem_cons, not_or, Bool.and_comm]

/-- All these changes are there to be removed, once each. -/
def Droppable (n : Node) (times : List TimePoint) : Prop :=
  times.Nodup ∧ ∀ t ∈ times, (n.child (changeStep t)).isSome

theorem dropChanges_runsTo {p : Path} {n m : Node} {times : List TimePoint} (hp : find p n = some m)
    (h : Bad .emptyOptional ∨ Droppable m times) :
    RunsTo Bad (times.forM fun t => EditM.findAndUnlink (statusChangePath p t)) n ()
      (n.modify p (dropChanges times)) := by
  have hfold := foldl_modify (fun m t => m.eraseChild (changeStep t)) times (hp ▸ rfl : (find p n).isSome)
  have : n.modify p (dropChanges times) =
      times.foldl (fun n t => n.modify p fun m => m.eraseChild (changeStep t)) n := hfold.symm
  rw [this]
  refine forM_runsTo (P := fun n times => ∃ m, find p n = some m ∧ (Bad .emptyOptional ∨ Droppable m times))
    ?_ ⟨m, hp, h⟩
  rintro n t times ⟨m, hm, hd⟩
  refine ⟨?_, m.eraseChild (changeStep t), ?_, ?_⟩
  · have hchild : find (statusChangePath p t) n = m.child (changeStep t) := by
      rw [statusChangePath, find_append_cons, focus_of_find hm]
      cases m.child (changeStep t) <;> rfl
    cases hc : m.child (changeStep t) with
    | none =>
      rcases hd with hd | hd
      · exact .bad (exec_findAndUnlink_of_none (hchild.trans hc)) hd
      · have := hd.2 t List.mem_cons_self
        rw [hc] at this
        cases this
    | some c =>
      have hex := exec_findAndUnlink_of_some (hchild.trans hc)
      rw [statusChangePath, unlink_append_singleton] at hex
      exact .of_eq hex
  · rw [find_modify, focus_of_find hm]
  · rcases hd with hd | ⟨hnd, hall⟩
    · exact .inl hd
    · rw [List.nodup_cons] at hnd
      refine .inr ⟨hnd.2, fun t' ht' => ?_⟩
      have hne : changeStep t' ≠ changeStep t := fun heq => hnd.1 (changeStep_injective heq ▸ ht')
      rw [child_eraseChild, if_neg hne]
      exact hall t' (List.mem_cons_of_mem t ht')

/-! ### `updateStatusChangeList` -/

/-- The change that an entry's current fields amount to. -/
def AlarmEntry.publishedChange (e : AlarmEntry) : PublishedChange :=
  ⟨e.lastChanged, if e.isCleared then "cleared" else (severityName e.lastSeverity).getD "", e.text⟩

omit [Libyang] in
theorem severityText_published {e : AlarmEntry} {s : Severity} (hs : e.lastSeverity = s.value) :
    severityText (if e.isCleared then clearedSeverity else e.lastSeverity) = .ok e.publishedChange.severity := by
  unfold AlarmEntry.publishedChange
  rw [hs, severityName_value]
  cases e.isCleared with
  | true => rfl
  | false => exact severityText_value s

/-- A time that is in the list already is refused before anything is changed. -/
theorem exec_updateStatusChangeList_of_some {p : Path} {e : AlarmEntry} {removed : List TimePoint}
    {n m c : Node} (hp : find p n = some m) (hc : m.child (changeStep e.lastChanged) = some c) :
    exec (updateStatusChangeList p e removed) n = (.error .nodeExists, n) := by
  have hfind : find (statusChangePath p e.lastChanged) n = some c := by
    rw [statusChangePath, find_append_cons, focus_of_find hp, hc]
    rfl
  rw [updateStatusChangeList, exec_bind_of_ok (exec_findPath_of_some hp)]
  exact exec_bind_of_error (exec_newPath_of_some hfind none) _

omit [Libyang] in
/-- Two leaves written into a child that is not there yet. -/
theorem modify_changeNode {p : Path} {n m : Node} {s : Step} (hp : find p n = some m) (hc : m.child s = none)
    (severity text : String) :
    ((n.modify (p ++ [s]) fun m => m.setLeaf .perceivedSeverity severity).modify (p ++ [s])
      fun m => m.setLeaf .alarmText text) = n.modify p fun m => m.setChild s (changeNode severity text) := by
  rw [modify_modify, modify_append]
  refine modify_congr ?_
  rw [focus_of_find hp]
  show m.setChild s (((m.child s).getD Node.empty |>.setLeaf .perceivedSeverity severity).setLeaf .alarmText text) = _
  rw [hc]
  rfl

theorem updateStatusChangeList_runsTo {p : Path} {e : AlarmEntry} {removed : List TimePoint} {s : Severity}
    {n m : Node} (hs : e.lastSeverity = s.value) (hp : find p n = some m)
    (hc : m.child (changeStep e.lastChanged) = none)
    (h : Bad .emptyOptional ∨ Droppable (pushChange e.publishedChange m) removed) :
    RunsTo Bad (updateStatusChangeList p e removed) n ()
      (n.modify p fun m => dropChanges removed (pushChange e.publishedChange m)) := by
  have hfind : find (statusChangePath p e.lastChanged) n = none := by
    rw [statusChangePath, find_append_cons, focus_of_find hp, hc]
    rfl
  have hempty : focus (statusChangePath p e.lastChanged) n = Node.empty := focus_of_not_find hfind
  rw [updateStatusChangeList]
  refine .bind (.of_eq (exec_findPath_of_some hp)) (.bind (.of_eq (exec_newPath_of_none hfind none)) ?_)
  rw [severityText_published hs]
  refine .bind (.of_eq (exec_ofExcept _ _)) (.bind (.of_eq (exec_newPath_of_none ?_ _)) ?_)
  · rw [newPath, find_modify_append, hempty]
    rfl
  refine .bind (.of_eq (exec_newPath_of_none ?_ _)) ?_
  · rw [newPath_leaf, newPath_none_modify, find_modify_append, hempty]
    rfl
  rw [newPath_leaf, newPath_leaf, newPath_none_modify, statusChangePath, modify_changeNode hp hc]
  have hpush : RunsTo Bad (moveToFront p (changeStep e.lastChanged) (firstExistingChange m))
      (n.modify p fun m => m.setChild (changeStep e.lastChanged) (changeNode e.publishedChange.severity e.text)) ()
      (n.modify p (pushChange e.publishedChange)) := by
    cases hf : firstExistingChange m with
    | none =>
      refine .of_eq (congrArg (Prod.mk _) (modify_congr ?_))
      rw [focus_of_find hp, pushChange, hf]
      rfl
    | some first =>
      refine .of_eq (congrArg (Prod.mk _) ((modify_modify _ _ _ _).trans (modify_congr ?_)))
      rw [focus_of_find hp, pushChange, hf]
      rfl
  have hdrop := dropChanges_runsTo (n := n.modify p (pushChange e.publishedChange))
    (by rw [find_modify, focus_of_find hp]) h
  rw [modify_modify] at hdrop
  exact .bind hpush hdrop

/-! ### Copying a node to the other list -/

def copyProps (src dst : Node) : Node :=
  (src.instances .statusChange).foldl (fun m x => m.setChild x.1 x.2)
    (commonLeaves.foldl (fun m a => m.setLeaf a ((src.leaf a).getD "")) dst)

omit [Libyang] in
theorem leaf_foldl_setLeaf {src : Node} {l : List Schema} (a : Schema) (dst : Node)
    (h : ∀ b ∈ l, (src.leaf b).isSome) :
    (l.foldl (fun m b => m.setLeaf b ((src.leaf b).getD "")) dst).leaf a =
      if a ∈ l then src.leaf a else dst.leaf a := by
  induction l generalizing dst with
  | nil => rfl
  | cons b l ih =>
    obtain ⟨v, hv⟩ := Option.isSome_iff_exists.1 (h b List.mem_cons_self)
    rw [List.foldl_cons, ih _ fun b hb => h b (List.mem_cons_of_mem _ hb), leaf_setLeaf]
    by_cases hl : a ∈ l
    · rw [if_pos hl, if_pos (List.mem_cons_of_mem b hl)]
    · by_cases hab : a = b
      · subst hab
        rw [if_neg hl, if_pos rfl, if_pos List.mem_cons_self, hv]
        rfl
      · rw [if_neg hl, if_neg hab, if_neg (List.not_mem_cons_of_ne_of_not_mem hab hl)]

omit [Libyang] in
theorem instances_foldl_setLeaf (src : Node) {l : List Schema} (dst : Node) (h : .statusChange ∉ l) :
    (l.foldl (fun m b => m.setLeaf b ((src.leaf b).getD "")) dst).instances .statusChange =
      dst.instances .statusChange := by
  induction l generalizing dst with
  | nil => rfl
  | cons b l ih =>
    rw [List.mem_cons, not_or] at h
    rw [List.foldl_cons, ih _ h.2, instances_setLeaf (Ne.symm h.1)]

theorem leaf_foldl_setChild (cs : List PublishedChange) (m : Node) (a : Schema) :
    ((cs.map PublishedChange.child).foldl (fun m x => m.setChild x.1 x.2) m).leaf a = m.leaf a := by
  induction cs generalizing m with
  | nil => rfl
  | cons c cs ih =>
    rw [List.map_cons, List.foldl_cons, ih]
    exact leaf_setChild_of_ne (leafStep_ne_changeStep a c.time) _ _

theorem instances_foldl_setChild {cs : List PublishedChange} {m : Node} (hn : (cs.map (·.time)).Nodup)
    (h : ∀ c ∈ cs, m.child c.child.1 = none) :
    ((cs.map PublishedChange.child).foldl (fun m x => m.setChild x.1 x.2) m).instances .statusChange =
      m.instances .statusChange ++ cs.map PublishedChange.child := by
  induction cs generalizing m with
  | nil => simp
  | cons c cs ih =>
    rw [List.map_cons, List.nodup_cons] at hn
    have hinst : (m.setChild c.child.1 c.child.2).instances .statusChange =
        m.instances .statusChange ++ [c.child] :=
      instances_setChild_of_child_none rfl (h c List.mem_cons_self) c.child.2
    rw [List.map_cons, List.foldl_cons, ih hn.2 fun d hd => ?_, hinst, List.append_assoc]
    · rfl
    · have hne : d.child.1 ≠ c.child.1 := fun heq =>
        hn.1 (List.mem_map.2 ⟨d, hd, changeStep_injective heq⟩)
      rw [child_setChild, if_neg hne]
      exact h d (List.mem_cons_of_mem _ hd)

theorem wf_foldl_setChild {m : Node} (h : m.WF) (cs : List PublishedChange) :
    ((cs.map PublishedChange.child).foldl (fun m x => m.setChild x.1 x.2) m).WF := by
  induction cs generalizing m with
  | nil => exact h
  | cons c cs ih => exact ih (h.setChild (wf_changeNode c.severity c.text))

theorem wf_copyProps {src dst : Node} {cs : List PublishedChange} (h : dst.WF) (hc : HasChanges src cs) :
    (copyProps src dst).WF := by
  rw [copyProps, hc]
  refine wf_foldl_setChild ?_ cs
  have : ∀ l : List Schema, (l.foldl (fun m a => m.setLeaf a ((src.leaf a).getD "")) dst).WF := fun l => by
    induction l generalizing dst with
    | nil => exact h
    | cons a l ih => exact ih (h.setLeaf _ _)
  exact this _

theorem leaf_copyProps {src : Node} {cs : List PublishedChange} (hc : HasChanges src cs) (a : Schema)
    (dst : Node) (h : ∀ b ∈ commonLeaves, (src.leaf b).isSome) :
    (copyProps src dst).leaf a = if a ∈ commonLeaves then src.leaf a else dst.leaf a := by
  rw [copyProps, hc, leaf_foldl_setChild, leaf_foldl_setLeaf a dst h]

/-- The copy has the status changes of the original, in the same order. -/
theorem HasChanges.copyProps {src dst : Node} {cs : List PublishedChange} (hsrc : src.WF) (hdst : dst.WF)
    (hc : HasChanges src cs) (hd : HasChanges dst []) : HasChanges (copyProps src dst) cs := by
  have hinst := instances_foldl_setLeaf src dst (l := commonLeaves) (by decide)
  have hnone : ∀ m : Node, m.WF → m.instances .statusChange = [] →
      ∀ c ∈ cs, m.child c.child.1 = none := fun m hm hi c _ => by
    rw [← Option.not_isSome_iff_eq_none]
    intro hs
    obtain ⟨x, hx⟩ := Option.isSome_iff_exists.1 hs
    have hmem : (c.child.1, x) ∈ m.instances .statusChange := (mem_instances_iff hm.children).2 ⟨rfl, hx⟩
    rw [hi] at hmem
    cases hmem
  have hwf : (commonLeaves.foldl (fun m a => m.setLeaf a ((src.leaf a).getD "")) dst).WF := by
    simp only [commonLeaves, List.foldl_cons, List.foldl_nil]
    exact ((((hdst.setLeaf _ _).setLeaf _ _).setLeaf _ _).setLeaf _ _).setLeaf _ _
  have hd' : dst.instances .statusChange = [] := hd
  rw [HasChanges, IetfAlarms.copyProps, hc,
    instances_foldl_setChild (hc.nodup hsrc) (hnone _ hwf (hinst.trans hd')), hinst, hd', List.nil_append]

theorem copyStatusChange_runsTo {p : Path} {n m : Node} {c : PublishedChange} (hp : find p n = some m)
    (hc : m.child c.child.1 = none) :
    exec (copyStatusChange p c.child) n = (.ok (), n.modify p fun m => m.setChild c.child.1 c.child.2) := by
  have htime : childValue c.child .time = .ok (yangTimeFormat c.time) := rfl
  have hsev : childValue c.child .perceivedSeverity = .ok c.severity :=
    childValue_leaf rfl (by simp only [changeNode, leaf_setLeaf]; rfl)
  have htext : childValue c.child .alarmText = .ok c.text :=
    childValue_leaf rfl (by simp only [changeNode, leaf_setLeaf]; rfl)
  have hfind : find (p ++ [c.child.1]) n = none := by
    rw [find_append_cons, focus_of_find hp, hc]
    rfl
  have hempty : focus (p ++ [c.child.1]) n = Node.empty := focus_of_not_find hfind
  have hleaf : find ((p ++ [c.child.1]) ++ [⟨.perceivedSeverity, []⟩]) n = none := by
    rw [find_append, hfind]
    rfl
  have hleaf' : find ((p ++ [c.child.1]) ++ [⟨.alarmText, []⟩])
      (n.newPath ((p ++ [c.child.1]) ++ [⟨.perceivedSeverity, []⟩]) (some c.severity)) = none := by
    rw [newPath_leaf, find_modify_append, hempty]
    rfl
  rw [copyStatusChange, htime, exec_ofExcept_ok_bind, hsev, exec_ofExcept_ok_bind]
  refine (exec_bind_of_ok (exec_newPath_of_none hleaf _) _).trans ?_
  rw [htext, exec_ofExcept_ok_bind]
  refine (exec_newPath_of_none hleaf' _).trans ?_
  rw [newPath_leaf, newPath_leaf, modify_changeNode hp hc]
  rfl

theorem createCommonAlarmNodeProps_exec {p : Path} {n m src : Node} {s : Step} {cs : List PublishedChange}
    (hs : ∀ a ∈ commonLeaves, s.keys.lookup a = none) (hsrc : src.WF) (hc : HasChanges src cs)
    (hl : ∀ a ∈ commonLeaves, (src.leaf a).isSome) (hp : find p n = some m)
    (hm : ∀ c ∈ cs, m.child c.child.1 = none) :
    exec (createCommonAlarmNodeProps (s, src) p) n = (.ok (), n.modify p (copyProps src)) := by
  have hleaves : ∀ (l : List Schema) (n m : Node), find p n = some m → (∀ a ∈ l, a ∈ commonLeaves) →
      exec (l.forM fun leafName => do
        let value ← ofExcept (childValue (s, src) leafName)
        EditM.newPathUpdate (p ++ [⟨leafName, []⟩]) (some value)) n =
      (.ok (), n.modify p fun m => l.foldl (fun m a => m.setLeaf a ((src.leaf a).getD "")) m) := by
    intro l
    induction l with
    | nil =>
      intro n m hp _
      exact congrArg (Prod.mk _) (modify_of_find hp rfl).symm
    | cons a l ih =>
      intro n m hp ha
      obtain ⟨v, hv⟩ := Option.isSome_iff_exists.1 (hl a (ha a List.mem_cons_self))
      have hround : exec (do
          let value ← ofExcept (childValue (s, src) a)
          EditM.newPathUpdate (p ++ [⟨a, []⟩]) (some value)) n =
          (.ok (), n.modify p fun m => m.setLeaf a v) := by
        rw [childValue_leaf (hs a (ha a List.mem_cons_self)) hv, exec_ofExcept_ok_bind, exec_newPathUpdate,
          newPath_leaf]
      refine (exec_bind_of_ok hround _).trans ?_
      rw [ih _ _ (find_modify _ _ _) fun b hb => ha b (List.mem_cons_of_mem a hb), modify_modify]
      simp only [List.foldl_cons, hv, Option.getD_some]
  have hnone : ∀ c ∈ cs, ((commonLeaves.foldl (fun m a => m.setLeaf a ((src.leaf a).getD "")) m).child
      c.child.1) = none := fun c hcc => by
    have : ∀ (l : List Schema) (m : Node), m.child c.child.1 = none →
        (l.foldl (fun m a => m.setLeaf a ((src.leaf a).getD "")) m).child c.child.1 = none := by
      intro l
      induction l with
      | nil => exact fun m h => h
      | cons a l ih =>
        refine fun m h => ih _ ?_
        exact (child_setLeaf_of_ne (leafStep_ne_changeStep a c.time).symm _ _).trans h
    exact this _ _ (hm c hcc)
  have hchanges : ∀ (cs : List PublishedChange) (n m : Node), find p n = some m →
      (cs.map (·.time)).Nodup → (∀ c ∈ cs, m.child c.child.1 = none) →
      exec ((cs.map PublishedChange.child).forM (copyStatusChange p)) n =
        (.ok (), n.modify p fun m => (cs.map PublishedChange.child).foldl (fun m x => m.setChild x.1 x.2) m) := by
    intro cs
    induction cs with
    | nil =>
      intro n m hp _ _
      exact congrArg (Prod.mk _) (modify_of_find hp rfl).symm
    | cons c cs ih =>
      intro n m hp hn hm
      rw [List.map_cons, List.nodup_cons] at hn
      refine (exec_bind_of_ok (copyStatusChange_runsTo hp (hm c List.mem_cons_self)) _).trans ?_
      rw [ih _ (m.setChild c.child.1 c.child.2) (by rw [find_modify, focus_of_find hp]) hn.2 fun d hd => ?_,
        modify_modify]
      · rfl
      · have hne : d.child.1 ≠ c.child.1 := fun heq =>
          hn.1 (List.mem_map.2 ⟨d, hd, changeStep_injective heq⟩)
        rw [child_setChild, if_neg hne]
        exact hm d (List.mem_cons_of_mem c hd)
  rw [createCommonAlarmNodeProps]
  refine (exec_bind_of_ok (hleaves commonLeaves n m hp fun _ h => h) _).trans ?_
  rw [hc, hchanges cs _ _ (find_modify _ _ _) (hc.nodup hsrc) (by rw [focus_of_find hp]; exact hnone), modify_modify]
  unfold copyProps
  rw [hc]

end IetfAlarms

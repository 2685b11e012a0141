import IetfAlarms.AlarmNode

/-!
# One alarm at a time

The slot of a key is everything the daemon holds of that alarm: its entry and its node in either list.
Every round of every loop is a composition of the four edits below, each of which changes one slot
(`slot_editNode_self` and its likes) and leaves the others alone (`slot_editNode_of_ne`).
-/

namespace IetfAlarms
open Program DataTree DataTree.Node

/-! ### Alarm paths -/

def alarmPath (l : Listing) (k : InstanceKey) : Path := l.path ++ [k.step l.entry]

theorem Listing.entry_injective {l l' : Listing} (h : l.entry = l'.entry) : l = l' := by
  cases l <;> cases l' <;> first | rfl | cases h

theorem Listing.container_injective {l l' : Listing} (h : l.container = l'.container) : l = l' := by
  cases l <;> cases l' <;> first | rfl | cases h

/-- The text of a storable key is read as the path of its alarm. -/
theorem InstanceKey.Quotable.alarmNodePath {k : InstanceKey} (hk : k.Quotable) :
    ∃ x, k.keyXPath = .ok x ∧ ∀ l : Listing, l.alarmNodePath x = .ok (alarmPath l k) := by
  obtain ⟨x, hx⟩ := hk.xpathIndex
  refine ⟨x, by rw [InstanceKey.keyXPath, hx]; rfl, fun l => ?_⟩
  rw [Listing.alarmNodePath, listEntry_xpathIndex hx, if_pos hk]
  rfl

theorem alarmNodePath_of_xpathIndex {k : InstanceKey} {x : String} (hx : k.xpathIndex = .ok x) (l : Listing) :
    l.alarmNodePath x = if k.Quotable then .ok (alarmPath l k) else .error .badPath := by
  rw [Listing.alarmNodePath, listEntry_xpathIndex hx]
  by_cases hk : k.Quotable
  · rw [if_pos hk, if_pos hk]
    rfl
  · rw [if_neg hk, if_neg hk]

/-- Entries of different lists, or of one list with different steps, lie apart. -/
theorem apart_listEntry {l l' : Listing} {s s' : Step} (h : l ≠ l' ∨ s ≠ s') (p q : Path) :
    Apart (l.path ++ s :: p) (l'.path ++ s' :: q) := by
  by_cases hl : l = l'
  · subst hl
    have hs : s ≠ s' := h.resolve_left fun h => h rfl
    exact apart_append_cons hs l.path p q
  · have hc : (⟨l.container, []⟩ : Step) ≠ ⟨l'.container, []⟩ := fun heq =>
      hl (Listing.container_injective (congrArg Step.name heq))
    exact apart_append_cons hc [⟨.alarms, []⟩] (s :: p) (s' :: q)

/-! ### Slots -/

structure Slot where
  entry : Option AlarmEntry
  node : Listing → Option Node

namespace Slot

def setEntry (s : Slot) (e : AlarmEntry) : Slot := { s with entry := some e }

def eraseEntry (s : Slot) : Slot := { s with entry := none }

def editNode (s : Slot) (l : Listing) (f : Node → Node) : Slot :=
  { s with node := fun l' => if l' = l then some (f ((s.node l).getD Node.empty)) else s.node l' }

def unlinkNode (s : Slot) (l : Listing) : Slot :=
  { s with node := fun l' => if l' = l then none else s.node l' }

end Slot

namespace World
variable {w : World} {k k' : InstanceKey} {l : Listing} {e : AlarmEntry} {f : Node → Node}

def slot (w : World) (k : InstanceKey) : Slot :=
  ⟨w.alarms.lookup k, fun l => w.edit.find (alarmPath l k)⟩

def withEdit (w : World) (edit : Node) : World := { w with edit := edit }

def setEntry (w : World) (k : InstanceKey) (e : AlarmEntry) : World := { w with alarms := w.alarms.set k e }

def eraseEntry (w : World) (k : InstanceKey) : World := { w with alarms := w.alarms.erase k }

def editNode (w : World) (l : Listing) (k : InstanceKey) (f : Node → Node) : World :=
  w.withEdit (w.edit.modify (alarmPath l k) f)

def unlinkNode (w : World) (l : Listing) (k : InstanceKey) : World := w.withEdit (w.edit.unlink (alarmPath l k))

theorem slot_eq {w' : World} (ha : w'.alarms = w.alarms)
    (hn : ∀ l, w'.edit.find (alarmPath l k) = w.edit.find (alarmPath l k)) : w'.slot k = w.slot k := by
  rw [slot, slot, ha, funext hn]

theorem slot_congr {w' : World} (ha : w'.alarms = w.alarms) (he : w'.edit = w.edit) (k : InstanceKey) :
    w'.slot k = w.slot k :=
  slot_eq ha fun _ => by rw [he]

@[simp] theorem slot_setEntry_self : (w.setEntry k e).slot k = (w.slot k).setEntry e := by
  rw [slot, Slot.setEntry]
  simp only [setEntry, AssocMap.lookup_set_self]
  rfl

theorem slot_setEntry_of_ne (h : k' ≠ k) : (w.setEntry k e).slot k' = w.slot k' := by
  rw [slot, slot]
  simp only [setEntry, AssocMap.lookup_set, if_neg h]

@[simp] theorem slot_eraseEntry_self : (w.eraseEntry k).slot k = (w.slot k).eraseEntry := by
  rw [slot, Slot.eraseEntry]
  simp only [eraseEntry, AssocMap.lookup_erase]
  rfl

theorem slot_eraseEntry_of_ne (h : k' ≠ k) : (w.eraseEntry k).slot k' = w.slot k' := by
  rw [slot, slot]
  simp only [eraseEntry, AssocMap.lookup_erase, if_neg h]

/-- Editing an alarm's node leaves the other entries of the lists alone. -/
theorem find_editNode_of_ne {l' : Listing} {s : Step} (h : l ≠ l' ∨ k.step l.entry ≠ s) (q : Path) :
    (w.editNode l k f).edit.find (l'.path ++ s :: q) = w.edit.find (l'.path ++ s :: q) :=
  find_modify_of_apart (apart_listEntry h [] q) f w.edit

theorem unlinkNode_edit : (w.unlinkNode l k).edit = w.edit.modify l.path (eraseChild (k.step l.entry)) :=
  unlink_append_singleton l.path (k.step l.entry) w.edit

theorem find_unlinkNode_of_ne {l' : Listing} {s : Step} (h : l ≠ l' ∨ k.step l.entry ≠ s) (q : Path) :
    (w.unlinkNode l k).edit.find (l'.path ++ s :: q) = w.edit.find (l'.path ++ s :: q) := by
  rw [unlinkNode_edit]
  by_cases hl : l = l'
  · subst hl
    have hs : k.step l.entry ≠ s := h.resolve_left fun h => h rfl
    rw [find_modify_eraseChild, if_neg hs.symm]
  · have hc : (⟨l.container, []⟩ : Step) ≠ ⟨l'.container, []⟩ := fun heq =>
      hl (Listing.container_injective (congrArg Step.name heq))
    exact find_modify_of_apart (apart_append_cons hc [⟨.alarms, []⟩] [] (s :: q)) _ _

@[simp] theorem slot_editNode_self : (w.editNode l k f).slot k = (w.slot k).editNode l f := by
  rw [slot, Slot.editNode]
  congr 1
  funext l'
  by_cases hl : l' = l
  · subst hl
    rw [if_pos rfl, editNode, withEdit]
    show find (alarmPath l' k) (w.edit.modify (alarmPath l' k) f) = _
    rw [find_modify, focus_eq_getD]
    rfl
  · rw [if_neg hl]
    exact find_editNode_of_ne (.inl (Ne.symm hl)) []

theorem slot_editNode_of_ne (h : k' ≠ k) : (w.editNode l k f).slot k' = w.slot k' :=
  slot_eq rfl fun _ => find_editNode_of_ne (.inr fun heq => h (InstanceKey.step_injective heq).1.symm) []

@[simp] theorem slot_unlinkNode_self : (w.unlinkNode l k).slot k = (w.slot k).unlinkNode l := by
  rw [slot, Slot.unlinkNode]
  congr 1
  funext l'
  by_cases hl : l' = l
  · subst hl
    rw [if_pos rfl, unlinkNode_edit]
    show find (l'.path ++ [k.step l'.entry]) _ = _
    rw [find_modify_eraseChild, if_pos rfl]
  · rw [if_neg hl]
    exact find_unlinkNode_of_ne (.inl (Ne.symm hl)) []

theorem slot_unlinkNode_of_ne (h : k' ≠ k) : (w.unlinkNode l k).slot k' = w.slot k' :=
  slot_eq rfl fun _ => find_unlinkNode_of_ne (.inr fun heq => h (InstanceKey.step_injective heq).1.symm) []

/-- Editing a node that is there with a function that does nothing to it. -/
theorem editNode_of_slot {n : Node} (h : (w.slot k).node l = some n) (hf : f n = n) : w.editNode l k f = w := by
  rw [editNode, modify_of_find h hf]
  rfl

/-- A fold over the alarms changes every slot by its own round. -/
theorem slot_foldl {f : World → InstanceKey × AlarmEntry → World} {T : InstanceKey × AlarmEntry → Slot → Slot}
    (hself : ∀ w x, (f w x).slot x.1 = T x (w.slot x.1)) (hne : ∀ w x k, k ≠ x.1 → (f w x).slot k = w.slot k)
    (k : InstanceKey) :
    (w.alarms.entries.foldl f w).slot k =
      match w.alarms.lookup k with
      | some e => T (k, e) (w.slot k)
      | none => w.slot k := by
  cases h : w.alarms.lookup k with
  | some e =>
    have hm : (k, e) ∈ w.alarms.entries := AssocMap.mem_entries_iff.2 h
    exact foldl_slot (v := slot) w.alarms.nodup hself hne hm
  | none =>
    refine foldl_view (v := fun w => w.slot k) fun x hx w' => hne w' x k fun heq => ?_
    have hx' := AssocMap.mem_entries_iff.1 (show (x.1, x.2) ∈ w.alarms.entries from hx)
    rw [← heq, h] at hx'
    cases hx'

end World

/-! ### Running on the tree -/

theorem exec_onEdit {α : Type} (m : EditM α) (w : World) :
    exec (onEdit m) w = ((exec m w.edit).1, w.withEdit (exec m w.edit).2) := by
  unfold exec onEdit
  simp only [EStateM.run]
  cases m w.edit <;> rfl

theorem onEdit_runsTo {α : Type} {Bad : Failure → Prop} {m : EditM α} {w : World} {a : α} {edit : Node}
    (h : RunsTo Bad m w.edit a edit) : RunsTo Bad (onEdit m) w a (w.withEdit edit) := by
  rcases h with h | ⟨e, edit', h, he⟩
  · refine .of_eq ?_
    rw [exec_onEdit, h]
  · have hex : exec (onEdit m) w = (.error e, w.withEdit edit') := by rw [exec_onEdit, h]
    exact .bad hex he

theorem exec_onEdit_of_eq {α : Type} {m : EditM α} {w : World} {r : Except Failure α} {edit : Node}
    (h : exec m w.edit = (r, edit)) : exec (onEdit m) w = (r, w.withEdit edit) := by
  rw [exec_onEdit, h]

/-- Rounds that only edit the tree, one after the other. -/
theorem exec_forM_onEdit {ι : Type} {body : ι → DaemonM PUnit} {m : ι → EditM PUnit}
    (h : ∀ x w, exec (body x) w = exec (onEdit (m x)) w) (l : List ι) (w : World) :
    exec (l.forM body) w = exec (onEdit (l.forM m)) w := by
  induction l generalizing w with
  | nil => rfl
  | cons x l ih =>
    have hx := h x w
    rw [exec_onEdit] at hx ⊢
    show exec (body x >>= fun _ => l.forM body) w =
      ((exec (m x >>= fun _ => l.forM m) w.edit).1, w.withEdit (exec (m x >>= fun _ => l.forM m) w.edit).2)
    rw [exec_bind, hx, exec_bind]
    cases hm : exec (m x) w.edit with
    | mk r edit =>
      cases r with
      | error e => rfl
      | ok u =>
        have := ih (w.withEdit edit)
        rw [exec_onEdit] at this
        exact this

end IetfAlarms

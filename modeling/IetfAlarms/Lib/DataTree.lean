import IetfAlarms.Lib.Assoc

/-!
# Keyed data trees

An instance tree of a schema: a node has an optional value and its children in order, each under a
`Step` (the schema node and, for a list entry, the values of its keys). Siblings have distinct steps
(`WF`). `modify` is the one writer: it creates what is missing on the way to a path, as
insert-or-update does, and applies a function there; `find` and `focus` read.

The read-after-write lemmas are `find_modify_append` (below the written path) and
`find_modify_of_not_prefix` (off it).
-/

namespace DataTree
variable {ν : Type}

/-- A schema node, with the key values when it is a list. -/
structure Step (ν : Type) where
  name : ν
  keys : List (ν × String) := []
deriving DecidableEq, Repr

abbrev Path (ν : Type) := List (Step ν)

/-- Neither path lies on the way to the other. -/
def Apart (p q : Path ν) : Prop := ¬ p <+: q ∧ ¬ q <+: p

instance [DecidableEq ν] (p q : Path ν) : Decidable (Apart p q) := inferInstanceAs (Decidable (_ ∧ _))

theorem Apart.symm {p q : Path ν} (h : Apart p q) : Apart q p := ⟨h.2, h.1⟩

theorem apart_append_cons {s t : Step ν} (h : s ≠ t) (r p q : Path ν) : Apart (r ++ s :: p) (r ++ t :: q) := by
  constructor <;> rw [List.prefix_append_right_inj, List.cons_prefix_cons]
  · exact fun h' => h h'.1
  · exact fun h' => h h'.1.symm

inductive Node (ν : Type) where
  | mk (value : Option String) (children : List (Step ν × Node ν))

namespace Node

def value : Node ν → Option String
  | mk v _ => v

def children : Node ν → List (Step ν × Node ν)
  | mk _ cs => cs

def empty : Node ν := mk none []

instance : Inhabited (Node ν) := ⟨empty⟩

/-- Give the node a value; a container or a list entry is created without one. -/
def withValue (v : Option String) : Node ν → Node ν
  | mk v₀ cs => mk (v <|> v₀) cs

@[simp] theorem value_mk (v : Option String) (cs : List (Step ν × Node ν)) : (mk v cs).value = v := rfl
@[simp] theorem children_mk (v : Option String) (cs : List (Step ν × Node ν)) :
    (mk v cs).children = cs := rfl
@[simp] theorem mk_eta (n : Node ν) : mk n.value n.children = n := by cases n; rfl

@[simp] theorem value_withValue_some (v : String) (n : Node ν) : (n.withValue (some v)).value = some v := by
  cases n; rfl

@[simp] theorem children_withValue (v : Option String) (n : Node ν) :
    (n.withValue v).children = n.children := by
  cases n; rfl

@[simp] theorem withValue_none (n : Node ν) : n.withValue none = n := by cases n; rfl

variable [DecidableEq ν]

def child (s : Step ν) (n : Node ν) : Option (Node ν) := n.children.lookup s

def setChild (s : Step ν) (n c : Node ν) : Node ν := mk n.value (Assoc.set s c n.children)

def eraseChild (s : Step ν) (n : Node ν) : Node ν := mk n.value (Assoc.erase s n.children)

/-- Put the child `s` right before the child `t`. -/
def moveBefore (s t : Step ν) (n : Node ν) : Node ν :=
  match n.child s with
  | none => n
  | some c => mk n.value ((Assoc.erase s n.children).flatMap fun x =>
      if x.1 = t then [(s, c), x] else [x])

def find : Path ν → Node ν → Option (Node ν)
  | [], n => some n
  | s :: p, n => (n.child s).bind (find p)

/-- The node at a path, as it would be created if it is missing. -/
def focus : Path ν → Node ν → Node ν
  | [], n => n
  | s :: p, n => focus p ((n.child s).getD empty)

def modify : Path ν → (Node ν → Node ν) → Node ν → Node ν
  | [], f, n => f n
  | s :: p, f, n => n.setChild s (modify p f ((n.child s).getD empty))

/-- Insert or update the node at a path. -/
def newPath (p : Path ν) (v : Option String) (n : Node ν) : Node ν := n.modify p (withValue v)

/-- Remove the node at a path. -/
def unlink (p : Path ν) (n : Node ν) : Node ν :=
  match p.getLast? with
  | some s => n.modify p.dropLast (eraseChild s)
  | none => n

/-- The children that are entries of the list `name`, in order. -/
def instances (name : ν) (n : Node ν) : List (Step ν × Node ν) :=
  n.children.filter fun x => x.1.name = name

def leaf (name : ν) (n : Node ν) : Option String := (n.child ⟨name, []⟩).bind value

def setLeaf (name : ν) (v : String) (n : Node ν) : Node ν := n.newPath [⟨name, []⟩] (some v)

/-! ### Children -/

@[simp] theorem child_empty (s : Step ν) : child s empty = none := rfl

theorem child_setChild (s t : Step ν) (c n : Node ν) :
    (n.setChild s c).child t = if t = s then some c else n.child t :=
  Assoc.lookup_set s t c n.children

@[simp] theorem child_setChild_self (s : Step ν) (c n : Node ν) : (n.setChild s c).child s = some c := by
  rw [child_setChild, if_pos rfl]

theorem child_eraseChild (s t : Step ν) (n : Node ν) :
    (n.eraseChild s).child t = if t = s then none else n.child t :=
  Assoc.lookup_erase s t n.children

@[simp] theorem child_withValue (s : Step ν) (v : Option String) (n : Node ν) :
    (n.withValue v).child s = n.child s := by
  rw [child, child, children_withValue]

theorem setChild_of_child {s : Step ν} {c n : Node ν} (h : n.child s = some c) : n.setChild s c = n := by
  rw [setChild, Assoc.set_of_lookup h, mk_eta]

/-! ### Reading back -/

@[simp] theorem find_nil (n : Node ν) : find [] n = some n := rfl

theorem find_cons (s : Step ν) (p : Path ν) (n : Node ν) :
    find (s :: p) n = (n.child s).bind (find p) := rfl

theorem find_append (p q : Path ν) (n : Node ν) : find (p ++ q) n = (find p n).bind (find q) := by
  induction p generalizing n with
  | nil => rfl
  | cons s p ih =>
    rw [List.cons_append, find_cons, find_cons]
    cases n.child s with
    | none => rfl
    | some c => exact ih c

theorem find_empty {p : Path ν} (h : p ≠ []) : find p empty = none := by
  cases p with
  | nil => exact absurd rfl h
  | cons s p => rfl

theorem focus_of_find {p : Path ν} {n m : Node ν} (h : find p n = some m) : focus p n = m := by
  induction p generalizing n with
  | nil => exact Option.some.inj h
  | cons s p ih =>
    rw [find_cons] at h
    obtain ⟨c, hc, h⟩ := Option.bind_eq_some_iff.1 h
    rw [focus, hc]
    exact ih h

theorem focus_of_not_find {p : Path ν} {n : Node ν} (h : find p n = none) : focus p n = empty := by
  induction p generalizing n with
  | nil => cases h
  | cons s p ih =>
    rw [find_cons] at h
    rw [focus]
    cases hc : n.child s with
    | none =>
      cases p with
      | nil => rfl
      | cons t p => exact ih rfl
    | some c => rw [hc] at h; exact ih h

theorem focus_eq_getD (p : Path ν) (n : Node ν) : focus p n = (find p n).getD empty := by
  cases h : find p n with
  | none => exact focus_of_not_find h
  | some m => exact focus_of_find h

theorem find_append_cons (p q : Path ν) (s : Step ν) (n : Node ν) :
    find (p ++ s :: q) n = ((focus p n).child s).bind (find q) := by
  rw [find_append, focus_eq_getD]
  cases find p n with
  | none => rfl
  | some m => rfl

theorem find_modify (p : Path ν) (f : Node ν → Node ν) (n : Node ν) :
    find p (n.modify p f) = some (f (focus p n)) := by
  induction p generalizing n with
  | nil => rfl
  | cons s p ih => rw [find_cons, modify, child_setChild_self]; exact ih _

theorem find_modify_append (p q : Path ν) (f : Node ν → Node ν) (n : Node ν) :
    find (p ++ q) (n.modify p f) = find q (f (focus p n)) := by
  rw [find_append, find_modify]; rfl

theorem focus_modify (p : Path ν) (f : Node ν → Node ν) (n : Node ν) :
    focus p (n.modify p f) = f (focus p n) := focus_of_find (find_modify p f n)

/-- A write leaves alone what is neither above nor below its path. -/
theorem find_modify_of_not_prefix {p q : Path ν} (f : Node ν → Node ν) (n : Node ν)
    (hpq : ¬ p <+: q) (hqp : ¬ q <+: p) : find q (n.modify p f) = find q n := by
  induction p generalizing q n with
  | nil => exact absurd List.nil_prefix hpq
  | cons s p ih =>
    cases q with
    | nil => exact absurd List.nil_prefix hqp
    | cons t q =>
      rw [modify, find_cons, find_cons, child_setChild]
      split
      · rename_i h
        subst h
        rw [List.cons_prefix_cons] at hpq hqp
        have hpq' : ¬ p <+: q := fun h => hpq ⟨rfl, h⟩
        have hqp' : ¬ q <+: p := fun h => hqp ⟨rfl, h⟩
        show find q _ = _
        rw [ih _ hpq' hqp']
        cases n.child t with
        | none => exact find_empty fun h => hqp' (h ▸ List.nil_prefix)
        | some c => rfl
      · rfl

theorem find_modify_ne {s t : Step ν} (h : s ≠ t) (p q r : Path ν) (f : Node ν → Node ν) (n : Node ν) :
    find (r ++ t :: q) (n.modify (r ++ s :: p) f) = find (r ++ t :: q) n := by
  refine find_modify_of_not_prefix f n ?_ ?_ <;>
    rw [List.prefix_append_right_inj, List.cons_prefix_cons]
  · exact fun h' => h h'.1
  · exact fun h' => h h'.1.symm

theorem unlink_append_singleton (p : Path ν) (s : Step ν) (n : Node ν) :
    n.unlink (p ++ [s]) = n.modify p (eraseChild s) := by
  rw [unlink, List.getLast?_concat, List.dropLast_concat]

/-- Removing one child of a node leaves its other children and what is below them. -/
theorem find_modify_eraseChild (p q : Path ν) (s t : Step ν) (n : Node ν) :
    find (p ++ t :: q) (n.modify p (eraseChild s)) = if t = s then none else find (p ++ t :: q) n := by
  rw [find_append_cons, find_append_cons, focus_modify, child_eraseChild]
  split <;> rfl

/-! ### Composing writes -/

theorem modify_append (p q : Path ν) (f : Node ν → Node ν) (n : Node ν) :
    n.modify (p ++ q) f = n.modify p (fun m => m.modify q f) := by
  induction p generalizing n with
  | nil => rfl
  | cons s p ih => rw [List.cons_append, modify, modify, ih]

theorem setChild_setChild (s : Step ν) (c c' n : Node ν) :
    (n.setChild s c).setChild s c' = n.setChild s c' := by
  have h : ∀ l : List (Step ν × Node ν), Assoc.set s c' (Assoc.set s c l) = Assoc.set s c' l := by
    intro l
    induction l with
    | nil => simp [Assoc.set]
    | cons x l ih =>
      obtain ⟨t, d⟩ := x
      by_cases ht : t = s
      · simp [Assoc.set, ht]
      · simp [Assoc.set, ht, ih]
  simp [setChild, h]

theorem modify_modify (p : Path ν) (f g : Node ν → Node ν) (n : Node ν) :
    (n.modify p f).modify p g = n.modify p (fun m => g (f m)) := by
  induction p generalizing n with
  | nil => rfl
  | cons s p ih =>
    rw [modify, modify, child_setChild_self, Option.getD_some, setChild_setChild, ih, modify]

theorem modify_of_find {p : Path ν} {f : Node ν → Node ν} {n m : Node ν} (h : find p n = some m)
    (hf : f m = m) : n.modify p f = n := by
  induction p generalizing n with
  | nil => rw [modify, Option.some.inj h, hf]
  | cons s p ih =>
    rw [find_cons] at h
    obtain ⟨c, hc, h⟩ := Option.bind_eq_some_iff.1 h
    rw [modify, hc, Option.getD_some, ih h]
    exact setChild_of_child hc

theorem modify_congr {p : Path ν} {f g : Node ν → Node ν} {n : Node ν}
    (h : f (focus p n) = g (focus p n)) : n.modify p f = n.modify p g := by
  induction p generalizing n with
  | nil => exact h
  | cons s p ih => rw [modify, modify, ih h]

theorem newPath_none (p : Path ν) (n : Node ν) : n.newPath p none = n.modify p id := modify_congr (withValue_none _)

/-- Creating a node without a value before writing to it changes nothing. -/
theorem newPath_none_modify (p : Path ν) (f : Node ν → Node ν) (n : Node ν) :
    (n.newPath p none).modify p f = n.modify p f := by
  rw [newPath, modify_modify]
  simp only [withValue_none]

theorem child_setLeaf_of_ne {a : ν} {s : Step ν} (h : s ≠ ⟨a, []⟩) (v : String) (n : Node ν) :
    (n.setLeaf a v).child s = n.child s := by
  show (n.setChild ⟨a, []⟩ _).child s = _
  rw [child_setChild, if_neg h]

/-- Writing item by item at one path is one write there. -/
theorem foldl_modify {ι : Type} {p : Path ν} {n : Node ν} (f : Node ν → ι → Node ν) (l : List ι)
    (h : (find p n).isSome) : l.foldl (fun n x => n.modify p fun m => f m x) n = n.modify p (l.foldl f) := by
  induction l generalizing n with
  | nil =>
    obtain ⟨m, hm⟩ := Option.isSome_iff_exists.1 h
    exact (modify_of_find hm rfl).symm
  | cons x l ih =>
    rw [List.foldl_cons, ih (by rw [find_modify]; rfl), modify_modify]
    rfl

/-! ### Writing many leaves -/

theorem find_modify_of_apart {p q : Path ν} (h : Apart p q) (f : Node ν → Node ν) (n : Node ν) :
    find q (n.modify p f) = find q n :=
  find_modify_of_not_prefix f n h.1 h.2

def write (ws : List (Path ν × String)) (n : Node ν) : Node ν :=
  ws.foldl (fun n x => n.newPath x.1 (some x.2)) n

theorem write_append (ws ws' : List (Path ν × String)) (n : Node ν) :
    n.write (ws ++ ws') = (n.write ws).write ws' := List.foldl_append

theorem find_write_of_apart {ws : List (Path ν × String)} {q : Path ν} (h : ∀ p ∈ ws.map Prod.fst, Apart p q)
    (n : Node ν) : find q (n.write ws) = find q n := by
  induction ws generalizing n with
  | nil => rfl
  | cons x ws ih =>
    rw [List.map_cons, List.forall_mem_cons] at h
    exact (ih h.2 _).trans (find_modify_of_apart h.1 _ _)

theorem value_newPath (p : Path ν) (v : String) (n : Node ν) :
    (find p (n.newPath p (some v))).bind value = some v := by
  rw [newPath, find_modify]
  exact value_withValue_some _ _

/-- Leaves written apart from each other all read back. -/
theorem value_write {ws : List (Path ν × String)} (h : (ws.map Prod.fst).Pairwise Apart) {p : Path ν}
    {v : String} (hm : (p, v) ∈ ws) (n : Node ν) : (find p (n.write ws)).bind value = some v := by
  induction ws generalizing n with
  | nil => cases hm
  | cons x ws ih =>
    rw [List.map_cons, List.pairwise_cons] at h
    rcases List.mem_cons.1 hm with rfl | hm
    · have := find_write_of_apart (fun q hq => (h.1 q hq).symm) (n.newPath p (some v))
      rw [write, List.foldl_cons]
      exact (congrArg (·.bind value) this).trans (value_newPath p v n)
    · exact ih h.2 hm _

/-! ### Leaves -/

theorem leaf_setLeaf (a b : ν) (v : String) (n : Node ν) :
    (n.setLeaf a v).leaf b = if b = a then some v else n.leaf b := by
  show (((n.setChild ⟨a, []⟩ _).child ⟨b, []⟩).bind value) = _
  rw [child_setChild]
  by_cases h : b = a
  · subst h; simp [modify]
  · simp [h, leaf]

@[simp] theorem leaf_setLeaf_self (a : ν) (v : String) (n : Node ν) : (n.setLeaf a v).leaf a = some v := by
  rw [leaf_setLeaf, if_pos rfl]

theorem leaf_setChild_of_ne {a : ν} {s : Step ν} (h : ⟨a, []⟩ ≠ s) (c n : Node ν) :
    (n.setChild s c).leaf a = n.leaf a := by
  rw [leaf, leaf, child_setChild, if_neg h]

theorem leaf_eraseChild_of_ne {a : ν} {s : Step ν} (h : ⟨a, []⟩ ≠ s) (n : Node ν) :
    (n.eraseChild s).leaf a = n.leaf a := by
  rw [leaf, leaf, child_eraseChild, if_neg h]

theorem leaf_of_find {p : Path ν} {n m : Node ν} (a : ν) (h : find p n = some m) :
    (find (p ++ [⟨a, []⟩]) n).bind value = m.leaf a := by
  rw [find_append, h]
  show ((m.child ⟨a, []⟩).bind some).bind value = _
  rw [Option.bind_fun_some]; rfl

/-! ### List entries -/

theorem instances_setChild_of_ne {name : ν} {s : Step ν} (h : s.name ≠ name) (c n : Node ν) :
    (n.setChild s c).instances name = n.instances name := by
  have key : ∀ l : List (Step ν × Node ν), (Assoc.set s c l).filter (fun x => x.1.name = name) =
      l.filter (fun x => x.1.name = name) := by
    intro l
    induction l with
    | nil => simp [Assoc.set, h]
    | cons x l ih =>
      obtain ⟨t, d⟩ := x
      by_cases ht : t = s
      · subst ht; simp [Assoc.set, h]
      · simp [Assoc.set, ht, List.filter_cons, ih]
  exact key n.children

theorem instances_setChild_of_child_none {name : ν} {s : Step ν} {n : Node ν} (hs : s.name = name)
    (h : n.child s = none) (c : Node ν) : (n.setChild s c).instances name = n.instances name ++ [(s, c)] := by
  have key : ∀ l : List (Step ν × Node ν), l.lookup s = none → Assoc.set s c l = l ++ [(s, c)] := by
    intro l hl
    induction l with
    | nil => rfl
    | cons x l ih =>
      obtain ⟨t, d⟩ := x
      rw [Assoc.lookup_cons] at hl
      split at hl
      · cases hl
      · rename_i ht
        rw [Assoc.set, if_neg (Ne.symm ht), ih hl, List.cons_append]
  rw [instances, setChild, children_mk, key _ h, List.filter_append, instances]
  simp [hs]

theorem instances_eraseChild (name : ν) (s : Step ν) (n : Node ν) :
    (n.eraseChild s).instances name = (n.instances name).filter (·.1 ≠ s) := by
  rw [instances, eraseChild, children_mk, Assoc.erase, instances, List.filter_filter, List.filter_filter]
  exact List.filter_congr fun _ _ => Bool.and_comm _ _

theorem instances_setLeaf {name a : ν} (h : a ≠ name) (v : String) (n : Node ν) :
    (n.setLeaf a v).instances name = n.instances name :=
  instances_setChild_of_ne h _ _

theorem mem_instances_iff {name : ν} {n c : Node ν} {s : Step ν}
    (hn : (n.children.map Prod.fst).Nodup) :
    (s, c) ∈ n.instances name ↔ s.name = name ∧ n.child s = some c := by
  rw [instances, List.mem_filter]
  constructor
  · rintro ⟨hm, h⟩
    exact ⟨of_decide_eq_true h, Assoc.lookup_of_mem hn hm⟩
  · rintro ⟨h, hc⟩
    exact ⟨Assoc.mem_of_lookup hc, decide_eq_true h⟩

/-! ### Moving a list entry to the front -/

/-- The children once `s` stands right before `t`. -/
theorem children_moveBefore {s t : Step ν} {n c : Node ν} (h : n.child s = some c) :
    (n.moveBefore s t).children =
      (Assoc.erase s n.children).flatMap fun x => if x.1 = t then [(s, c), x] else [x] := by
  rw [moveBefore, h]
  rfl

theorem child_moveBefore_of_ne {s t u : Step ν} (hu : u ≠ s) (n : Node ν) :
    (n.moveBefore s t).child u = n.child u := by
  cases h : n.child s with
  | none => rw [moveBefore, h]
  | some c =>
    have key : ∀ l : List (Step ν × Node ν),
        (l.flatMap fun x => if x.1 = t then [(s, c), x] else [x]).lookup u = l.lookup u := by
      intro l
      induction l with
      | nil => rfl
      | cons x l ih =>
        obtain ⟨v, d⟩ := x
        rw [List.flatMap_cons]
        split
        · rw [List.cons_append, List.cons_append, List.nil_append, Assoc.lookup_cons, if_neg hu,
            Assoc.lookup_cons, Assoc.lookup_cons, ih]
        · rw [List.singleton_append, Assoc.lookup_cons, Assoc.lookup_cons, ih]
    rw [child, children_moveBefore h, key, Assoc.lookup_erase, if_neg hu, child]

theorem leaf_moveBefore_of_ne {a : ν} {s : Step ν} (h : ⟨a, []⟩ ≠ s) (t : Step ν) (n : Node ν) :
    (n.moveBefore s t).leaf a = n.leaf a := by
  rw [leaf, leaf, child_moveBefore_of_ne h]

theorem flatMap_ne {s t : Step ν} {c : Node ν} {l : List (Step ν × Node ν)} (h : ∀ x ∈ l, x.1 ≠ t) :
    (l.flatMap fun x => if x.1 = t then [(s, c), x] else [x]) = l := by
  induction l with
  | nil => rfl
  | cons x l ih =>
    rw [List.flatMap_cons, if_neg (h x List.mem_cons_self), ih fun y hy => h y (List.mem_cons_of_mem x hy),
      List.singleton_append]

/-- A new entry moved before the first one of its list is the first one. -/
theorem instances_moveBefore {name : ν} {s t : Step ν} {n c d : Node ν} {rest : List (Step ν × Node ν)}
    (hn : (n.children.map Prod.fst).Nodup) (hs : s.name = name) (hc : n.child s = some c)
    (ht : (Assoc.erase s n.children).filter (fun x => x.1.name = name) = (t, d) :: rest) :
    (n.moveBefore s t).instances name = (s, c) :: (t, d) :: rest := by
  have key : ∀ l : List (Step ν × Node ν), (l.map Prod.fst).Nodup →
      l.filter (fun x => x.1.name = name) = (t, d) :: rest →
      (l.flatMap fun x => if x.1 = t then [(s, c), x] else [x]).filter (fun x => x.1.name = name) =
        (s, c) :: (t, d) :: rest := by
    intro l hl hf
    induction l with
    | nil => cases hf
    | cons x l ih =>
      rw [List.map_cons, List.nodup_cons] at hl
      rw [List.flatMap_cons, List.filter_append]
      by_cases hx : x.1 = t
      · have hne : ∀ y ∈ l, y.1 ≠ t := fun y hy h => hl.1 (List.mem_map.2 ⟨y, hy, h.trans hx.symm⟩)
        have htn : t.name = name := by
          have : (t, d) ∈ (x :: l).filter fun x => x.1.name = name := hf ▸ List.mem_cons_self
          exact of_decide_eq_true (List.mem_filter.1 this).2
        rw [flatMap_ne hne, if_pos hx, ← hf]
        simp [hs, hx, htn]
      · have hxn : x.1.name ≠ name := fun h => by
          rw [List.filter_cons, if_pos (decide_eq_true h)] at hf
          exact hx (congrArg Prod.fst (List.cons.inj hf).1)
        rw [List.filter_cons, if_neg (by simpa using hxn)] at hf
        rw [ih hl.2 hf, if_neg hx]
        simp [hxn]
  rw [instances, children_moveBefore hc]
  exact key _ (Assoc.nodup_erase hn) ht

/-! ### Well-formed trees -/

/-- Siblings have distinct steps, at every node. -/
def WF (n : Node ν) : Prop := ∀ p m, find p n = some m → (m.children.map Prod.fst).Nodup

namespace WF
variable {n c : Node ν} {s t : Step ν}

theorem children (h : n.WF) : (n.children.map Prod.fst).Nodup := h [] n rfl

theorem empty : (Node.empty : Node ν).WF := by
  intro p m h
  cases p with
  | nil => cases h; exact List.nodup_nil
  | cons s p => cases h

theorem find {p : Path ν} (h : n.WF) (hc : find p n = some c) : c.WF := fun q m hm =>
  h (p ++ q) m (by rw [find_append, hc]; exact hm)

theorem of_children (hn : (n.children.map Prod.fst).Nodup) (h : ∀ s c, n.child s = some c → c.WF) : n.WF := by
  intro p m hm
  cases p with
  | nil => cases hm; exact hn
  | cons s p =>
    obtain ⟨c, hc, hm⟩ := Option.bind_eq_some_iff.1 hm
    exact h s c hc p m hm

theorem child (h : n.WF) (hc : n.child s = some c) : c.WF := fun q m hm =>
  h (s :: q) m (by rw [find_cons, hc]; exact hm)

theorem setChild (h : n.WF) (hc : c.WF) : (n.setChild s c).WF := by
  refine of_children (Assoc.nodup_set h.children) fun t d hd => ?_
  rw [child_setChild] at hd
  split at hd
  · cases hd; exact hc
  · exact h.child hd

theorem eraseChild (h : n.WF) : (n.eraseChild s).WF := by
  refine of_children (Assoc.nodup_erase h.children) fun t d hd => ?_
  rw [child_eraseChild] at hd
  split at hd
  · cases hd
  · exact h.child hd

theorem moveBefore (h : n.WF) : (n.moveBefore s t).WF := by
  cases hc : n.child s with
  | none => rw [Node.moveBefore, hc]; exact h
  | some c =>
    refine of_children ?_ fun u d hd => ?_
    · have key : ∀ l : List (Step ν × Node ν), (l.map Prod.fst).Nodup → s ∉ l.map Prod.fst →
          ((l.flatMap fun x => if x.1 = t then [(s, c), x] else [x]).map Prod.fst).Nodup := by
        intro l hl hsl
        induction l with
        | nil => exact List.nodup_nil
        | cons x l ih =>
          rw [List.map_cons, List.nodup_cons] at hl
          rw [List.map_cons, List.mem_cons, not_or] at hsl
          rw [List.flatMap_cons]
          have hx : ∀ y ∈ l.flatMap fun x => if x.1 = t then [(s, c), x] else [x], y.1 ≠ x.1 := by
            intro y hy heq
            obtain ⟨z, hz, hy⟩ := List.mem_flatMap.1 hy
            have hzx : z.1 ≠ x.1 := fun h => hl.1 (List.mem_map.2 ⟨z, hz, h⟩)
            split at hy
            · rcases List.mem_cons.1 hy with rfl | hy
              · exact hsl.1 heq
              · exact hzx (List.mem_singleton.1 hy ▸ heq)
            · exact hzx (List.mem_singleton.1 hy ▸ heq)
          have hrest := ih hl.2 hsl.2
          have hx' : x.1 ∉ (l.flatMap fun x => if x.1 = t then [(s, c), x] else [x]).map Prod.fst := fun hm => by
            obtain ⟨y, hy, heq⟩ := List.mem_map.1 hm
            exact hx y hy heq
          split
          · rename_i hxt
            have hne : ∀ y ∈ l, y.1 ≠ t := fun y hy h => hl.1 (List.mem_map.2 ⟨y, hy, h.trans hxt.symm⟩)
            rw [flatMap_ne hne]
            exact List.nodup_cons.2 ⟨by simpa using ⟨hsl.1, fun a ha => hsl.2 (List.mem_map.2 ⟨_, ha, rfl⟩)⟩,
              List.nodup_cons.2 ⟨hl.1, hl.2⟩⟩
          · exact List.nodup_cons.2 ⟨hx', hrest⟩
      rw [children_moveBefore hc]
      refine key _ (Assoc.nodup_erase h.children) (Assoc.lookup_eq_none.1 ?_)
      rw [Assoc.lookup_erase, if_pos rfl]
    · by_cases hu : u = s
      · subst hu
        have hm := Assoc.mem_of_lookup hd
        rw [children_moveBefore hc] at hm
        obtain ⟨z, hz, hm⟩ := List.mem_flatMap.1 hm
        have hz' : z ∈ n.children := (List.mem_filter.1 hz).1
        have hcz : ∀ v e, (v, e) ∈ n.children → e.WF := fun v e he =>
          h.child (s := v) (Assoc.lookup_of_mem h.children he)
        split at hm
        · rcases List.mem_cons.1 hm with hm | hm
          · obtain ⟨-, rfl⟩ := Prod.mk.inj hm
            exact h.child hc
          · exact hcz u d (List.mem_singleton.1 hm ▸ hz')
        · exact hcz u d (List.mem_singleton.1 hm ▸ hz')
      · rw [child_moveBefore_of_ne hu] at hd
        exact h.child hd

theorem withValue (h : n.WF) (v : Option String) : (n.withValue v).WF := by
  refine of_children (by rw [children_withValue]; exact h.children) fun t d hd => ?_
  rw [child_withValue] at hd
  exact h.child hd

theorem focus (h : n.WF) (p : Path ν) : (n.focus p).WF := by
  induction p generalizing n with
  | nil => exact h
  | cons s p ih =>
    rw [Node.focus]
    cases hc : n.child s with
    | none => exact ih empty
    | some c => exact ih (h.child hc)

theorem modify {f : Node ν → Node ν} (h : n.WF) (hf : ∀ m, m.WF → (f m).WF) (p : Path ν) :
    (n.modify p f).WF := by
  induction p generalizing n with
  | nil => exact hf n h
  | cons s p ih =>
    rw [Node.modify]
    cases hc : n.child s with
    | none => exact h.setChild (ih empty)
    | some c => exact h.setChild (ih (h.child hc))

theorem newPath (h : n.WF) (p : Path ν) (v : Option String) : (n.newPath p v).WF :=
  h.modify (fun _ hm => hm.withValue v) p

theorem write (h : n.WF) (ws : List (Path ν × String)) : (n.write ws).WF := by
  induction ws generalizing n with
  | nil => exact h
  | cons x ws ih => exact ih (h.newPath _ _)

theorem unlink (h : n.WF) (p : Path ν) : (n.unlink p).WF := by
  unfold Node.unlink
  split
  · exact h.modify (fun _ hm => hm.eraseChild) _
  · exact h

theorem setLeaf (h : n.WF) (a : ν) (v : String) : (n.setLeaf a v).WF := h.newPath _ _

end WF
end Node
end DataTree

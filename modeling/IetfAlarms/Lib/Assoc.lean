import Mathlib.Data.List.Nodup

/-!
# Association lists in a stable order

`set` overwrites in place and appends what is new, `erase` keeps the order of the rest, so a list
that is read back in order keeps it across updates (Mathlib's `AList.insert` moves the key to the
front). `AssocMap` is such a list with its keys distinct.
-/

namespace Assoc
variable {κ α : Type} [DecidableEq κ]

/-- Overwrite the value of `k` where it stands, or append it. -/
def set (k : κ) (a : α) : List (κ × α) → List (κ × α)
  | [] => [(k, a)]
  | (k', a') :: l => if k' = k then (k, a) :: l else (k', a') :: set k a l

/-- Drop every entry of `k`. -/
def erase (k : κ) (l : List (κ × α)) : List (κ × α) := l.filter fun x => x.1 ≠ k

theorem lookup_cons (k k' : κ) (a : α) (l : List (κ × α)) :
    ((k', a) :: l).lookup k = if k = k' then some a else l.lookup k := by
  by_cases h : k = k'
  · simp [h]
  · rw [List.lookup_cons, beq_false_of_ne h, if_neg h]

theorem lookup_set (k k' : κ) (a : α) (l : List (κ × α)) :
    (set k a l).lookup k' = if k' = k then some a else l.lookup k' := by
  induction l with
  | nil => rw [set, lookup_cons]
  | cons x l ih =>
    obtain ⟨k'', a'⟩ := x
    rw [set]
    split
    · rename_i h
      subst h
      simp only [lookup_cons]
      split <;> rfl
    · rename_i h
      rw [lookup_cons, lookup_cons, ih]
      split
      · rename_i h'
        rw [if_neg (h' ▸ h)]
      · rfl

theorem lookup_erase (k k' : κ) (l : List (κ × α)) :
    (erase k l).lookup k' = if k' = k then none else l.lookup k' := by
  induction l with
  | nil => simp [erase]
  | cons x l ih =>
    obtain ⟨k'', a⟩ := x
    by_cases h : k'' = k
    · subst h
      have he : erase k'' ((k'', a) :: l) = erase k'' l := by simp [erase]
      rw [he, ih, lookup_cons]
      split <;> rfl
    · have he : erase k ((k'', a) :: l) = (k'', a) :: erase k l := by simp [erase, h]
      rw [he, lookup_cons, lookup_cons, ih]
      split
      · rename_i h'
        rw [if_neg (h' ▸ h)]
      · rfl

theorem keys_set (k : κ) (a : α) (l : List (κ × α)) :
    (set k a l).map Prod.fst =
      if k ∈ l.map Prod.fst then l.map Prod.fst else l.map Prod.fst ++ [k] := by
  induction l with
  | nil => simp [set]
  | cons x l ih =>
    obtain ⟨k', a'⟩ := x
    rw [set]
    split
    · rename_i h
      simp [h]
    · rename_i h
      simp only [List.map_cons, ih, List.mem_cons, Ne.symm h, false_or]
      split <;> rfl

theorem nodup_set {k : κ} {a : α} {l : List (κ × α)} (h : (l.map Prod.fst).Nodup) :
    ((set k a l).map Prod.fst).Nodup := by
  rw [keys_set]
  split
  · exact h
  · rename_i hk
    exact List.nodup_append.2 ⟨h, List.nodup_singleton k,
      fun x hx y hy hxy => hk (by rw [List.mem_singleton.1 hy] at hxy; exact hxy ▸ hx)⟩

theorem nodup_erase {k : κ} {l : List (κ × α)} (h : (l.map Prod.fst).Nodup) :
    ((erase k l).map Prod.fst).Nodup :=
  h.sublist (List.filter_sublist.map _)

/-- Writing back the value that is there changes nothing. -/
theorem set_of_lookup {k : κ} {a : α} {l : List (κ × α)} (h : l.lookup k = some a) : set k a l = l := by
  induction l with
  | nil => simp at h
  | cons x l ih =>
    obtain ⟨k', a'⟩ := x
    rw [lookup_cons] at h
    rw [set]
    split
    · rename_i hk
      rw [if_pos hk.symm] at h
      rw [Option.some.inj h, hk]
    · rename_i hk
      rw [if_neg (Ne.symm hk)] at h
      rw [ih h]

theorem mem_of_lookup {k : κ} {a : α} {l : List (κ × α)} (h : l.lookup k = some a) : (k, a) ∈ l := by
  induction l with
  | nil => simp at h
  | cons x l ih =>
    obtain ⟨k', a'⟩ := x
    rw [lookup_cons] at h
    split at h
    · rename_i hk
      rw [hk, Option.some.inj h]
      exact List.mem_cons_self
    · exact List.mem_cons_of_mem _ (ih h)

theorem lookup_of_mem {k : κ} {a : α} {l : List (κ × α)} (hn : (l.map Prod.fst).Nodup)
    (h : (k, a) ∈ l) : l.lookup k = some a := by
  induction l with
  | nil => simp at h
  | cons x l ih =>
    obtain ⟨k', a'⟩ := x
    rw [List.map_cons, List.nodup_cons] at hn
    rw [lookup_cons]
    rcases List.mem_cons.1 h with h | h
    · rw [if_pos (congrArg Prod.fst h), (Prod.mk.inj h).2]
    · have hm : k ∈ l.map Prod.fst := List.mem_map.2 ⟨_, h, rfl⟩
      have hk : k ≠ k' := fun hk => hn.1 (hk ▸ hm)
      rw [if_neg hk, ih hn.2 h]

theorem lookup_eq_none {k : κ} {l : List (κ × α)} : l.lookup k = none ↔ k ∉ l.map Prod.fst := by
  induction l with
  | nil => simp
  | cons x l ih =>
    obtain ⟨k', a⟩ := x
    rw [lookup_cons]
    split
    · rename_i hk
      simp [hk]
    · rename_i hk
      rw [ih]
      simp [hk]

theorem lookup_filter {p : κ → Bool} {k : κ} {l : List (κ × α)} :
    (l.filter fun x => p x.1).lookup k = if p k then l.lookup k else none := by
  induction l with
  | nil => simp
  | cons x l ih =>
    obtain ⟨k', a⟩ := x
    rw [List.filter_cons]
    by_cases hk : k = k'
    · subst hk
      by_cases hp : p k = true
      · simp [hp]
      · simp only [hp] at ih ⊢
        simpa using ih
    · split
      · rw [lookup_cons, if_neg hk, lookup_cons, if_neg hk, ih]
      · rw [lookup_cons, if_neg hk, ih]

end Assoc

/-- A finite map kept as an association list with distinct keys. -/
structure AssocMap (κ α : Type) where
  entries : List (κ × α)
  nodup : (entries.map Prod.fst).Nodup

namespace AssocMap
variable {κ α : Type}

@[ext] theorem ext {m m' : AssocMap κ α} (h : m.entries = m'.entries) : m = m' := by
  cases m; cases m'; cases h; rfl

def empty : AssocMap κ α := ⟨[], List.nodup_nil⟩

variable [DecidableEq κ]

def lookup (k : κ) (m : AssocMap κ α) : Option α := m.entries.lookup k

def set (k : κ) (a : α) (m : AssocMap κ α) : AssocMap κ α :=
  ⟨Assoc.set k a m.entries, Assoc.nodup_set m.nodup⟩

def erase (k : κ) (m : AssocMap κ α) : AssocMap κ α :=
  ⟨Assoc.erase k m.entries, Assoc.nodup_erase m.nodup⟩

variable {k k' : κ} {a : α} {m : AssocMap κ α}

@[simp] theorem lookup_empty : (empty : AssocMap κ α).lookup k = none := rfl

theorem lookup_set : (m.set k a).lookup k' = if k' = k then some a else m.lookup k' :=
  Assoc.lookup_set k k' a m.entries

@[simp] theorem lookup_set_self : (m.set k a).lookup k = some a := by rw [lookup_set, if_pos rfl]

theorem lookup_erase : (m.erase k).lookup k' = if k' = k then none else m.lookup k' :=
  Assoc.lookup_erase k k' m.entries

theorem set_of_lookup (h : m.lookup k = some a) : m.set k a = m :=
  ext (Assoc.set_of_lookup h)

theorem mem_entries_iff : (k, a) ∈ m.entries ↔ m.lookup k = some a :=
  ⟨Assoc.lookup_of_mem m.nodup, Assoc.mem_of_lookup⟩

/-- Maps that agree on a view of their values have the same entries in that view. -/
theorem perm_map {β : Type} {f : α → β} {m m' : AssocMap κ α} (h : ∀ k, (m'.lookup k).map f = (m.lookup k).map f) :
    (m'.entries.map fun x => (x.1, f x.2)).Perm (m.entries.map fun x => (x.1, f x.2)) := by
  have hnodup : ∀ m : AssocMap κ α, (m.entries.map fun x => (x.1, f x.2)).Nodup := fun m => by
    refine List.Nodup.of_map Prod.fst ?_
    rw [List.map_map]
    exact m.nodup
  have hmem : ∀ (m : AssocMap κ α) k b, (k, b) ∈ (m.entries.map fun x => (x.1, f x.2)) ↔ (m.lookup k).map f = some b := by
    intro m k b
    rw [List.mem_map, Option.map_eq_some_iff]
    constructor
    · rintro ⟨⟨k, a⟩, hx, heq⟩
      obtain ⟨rfl, rfl⟩ := Prod.mk.inj heq
      exact ⟨a, mem_entries_iff.1 hx, rfl⟩
    · rintro ⟨a, hl, rfl⟩
      exact ⟨(k, a), mem_entries_iff.2 hl, rfl⟩
  refine (List.perm_ext_iff_of_nodup (hnodup m') (hnodup m)).2 ?_
  rintro ⟨k, b⟩
  rw [hmem, hmem, h]

/-- Two maps are the same but for the order of their entries when they agree on every key. -/
theorem perm_iff {m m' : AssocMap κ α} : m'.entries.Perm m.entries ↔ ∀ k, m'.lookup k = m.lookup k := by
  constructor
  · intro h k
    ext a
    rw [← mem_entries_iff, ← mem_entries_iff, h.mem_iff]
  · intro h
    have hperm := perm_map (f := id) fun k => congrArg (Option.map id) (h k)
    simpa using hperm

end AssocMap

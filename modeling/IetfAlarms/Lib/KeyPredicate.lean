import Mathlib.Data.List.TakeWhile

/-!
# XPath key predicates

`predicates` reads a text `[name=literal]…[name=literal]`. A literal is written between two single
or two double quotes and ends at the next quote of its kind; there is no other escaping.
-/

namespace KeyPredicate

def singleQuote : Char := '\''
def doubleQuote : Char := '\"'

def isQuote (c : Char) : Bool := c = singleQuote || c = doubleQuote

def isNameChar (c : Char) : Bool := c.isAlphanum || c = '-' || c = '_' || c = '.' || c = ':'

/-- The value of the literal a text starts with, and what follows it. -/
def literal : List Char → Option (List Char × List Char)
  | [] => none
  | q :: cs =>
    if isQuote q then
      match cs.dropWhile (· ≠ q) with
      | [] => none
      | _ :: rest => some (cs.takeWhile (· ≠ q), rest)
    else none

/-- The name and the value of the predicate a text starts with, and what follows it. -/
def predicate : List Char → Option ((List Char × List Char) × List Char)
  | '[' :: cs =>
    match cs.dropWhile isNameChar with
    | '=' :: lit =>
      match literal lit with
      | some (v, ']' :: rest) => some ((cs.takeWhile isNameChar, v), rest)
      | _ => none
    | _ => none
  | _ => none

/-- At most `n` predicates. -/
def predicatesUpTo : Nat → List Char → Option (List (List Char × List Char))
  | _, [] => some []
  | 0, _ :: _ => none
  | n + 1, c :: cs =>
    match predicate (c :: cs) with
    | some (p, rest) => (predicatesUpTo n rest).map (p :: ·)
    | none => none

/-- The names and values of a text of key predicates. -/
def predicates (text : String) : Option (List (String × String)) :=
  (predicatesUpTo text.toList.length text.toList).map fun ps =>
    ps.map fun p => (String.ofList p.1, String.ofList p.2)

/-- The text of one predicate, its literal between two `q`. -/
def render (name : List Char) (q : Char) (value : List Char) : List Char :=
  '[' :: (name ++ '=' :: q :: (value ++ [q, ']']))

theorem isQuote_iff {c : Char} : isQuote c = true ↔ c = singleQuote ∨ c = doubleQuote := by
  simp [isQuote]

theorem not_isNameChar_of_isQuote {c : Char} (h : isQuote c = true) : isNameChar c = false := by
  rcases isQuote_iff.1 h with rfl | rfl <;> decide

theorem takeWhile_stop {p : Char → Bool} {l : List Char} (hl : ∀ c ∈ l, p c = true) {c : Char}
    (hc : p c = false) (rest : List Char) : (l ++ c :: rest).takeWhile p = l := by
  rw [List.takeWhile_append_of_pos hl, List.takeWhile_cons_of_neg (by simp [hc]), List.append_nil]

theorem dropWhile_stop {p : Char → Bool} {l : List Char} (hl : ∀ c ∈ l, p c = true) {c : Char}
    (hc : p c = false) (rest : List Char) : (l ++ c :: rest).dropWhile p = c :: rest := by
  rw [List.dropWhile_append_of_pos hl, List.dropWhile_cons_of_neg (by simp [hc])]

theorem literal_quoted {q : Char} (hq : isQuote q = true) {v : List Char} (hv : q ∉ v) (rest : List Char) :
    literal (q :: (v ++ q :: rest)) = some (v, rest) := by
  have hv' : ∀ c ∈ v, (decide (c ≠ q)) = true := fun c hc =>
    decide_eq_true fun h => hv (h ▸ hc)
  rw [literal, if_pos hq, dropWhile_stop hv' (by simp), takeWhile_stop hv' (by simp)]

/-- What `literal` accepts is a quoted value without its own quote. -/
theorem literal_inv {cs v rest : List Char} (h : literal cs = some (v, rest)) :
    ∃ q, isQuote q = true ∧ q ∉ v ∧ cs = q :: (v ++ q :: rest) := by
  cases cs with
  | nil => cases h
  | cons q cs =>
    rw [literal] at h
    split at h
    · rename_i hq
      refine ⟨q, hq, ?_⟩
      have happ := List.takeWhile_append_dropWhile (p := (fun c => decide (c ≠ q))) (l := cs)
      split at h
      · cases h
      · rename_i c rest' hd
        have hc : c = q := by
          have := List.head?_dropWhile_not (fun c => decide (c ≠ q)) cs
          rw [hd] at this
          simpa using this
        simp only [Option.some.injEq, Prod.mk.injEq] at h
        obtain ⟨rfl, rfl⟩ := h
        refine ⟨fun hm => ?_, ?_⟩
        · simpa using List.mem_takeWhile_imp hm
        · rw [hd, hc] at happ
          rw [happ]
    · cases h

theorem predicate_render {name v : List Char} {q : Char} (hn : ∀ c ∈ name, isNameChar c = true)
    (hq : isQuote q = true) (hv : q ∉ v) (rest : List Char) :
    predicate (render name q v ++ rest) = some ((name, v), rest) := by
  have h : render name q v ++ rest = '[' :: (name ++ '=' :: (q :: (v ++ q :: (']' :: rest)))) := by
    simp [render]
  rw [h, predicate, dropWhile_stop hn (by decide)]
  simp only [literal_quoted hq hv, takeWhile_stop hn (show isNameChar '=' = false by decide)]

theorem predicate_inv {cs name v rest : List Char} (h : predicate cs = some ((name, v), rest)) :
    ∃ q, isQuote q = true ∧ q ∉ v ∧ (∀ c ∈ name, isNameChar c = true) ∧ cs = render name q v ++ rest := by
  unfold predicate at h
  split at h
  · rename_i cs
    split at h
    · rename_i lit hd
      split at h
      · rename_i v' rest' hl
        simp only [Option.some.injEq, Prod.mk.injEq] at h
        obtain ⟨⟨rfl, rfl⟩, rfl⟩ := h
        obtain ⟨q, hq, hv, rfl⟩ := literal_inv hl
        refine ⟨q, hq, hv, fun c hc => List.mem_takeWhile_imp hc, ?_⟩
        have happ := List.takeWhile_append_dropWhile (p := isNameChar) (l := cs)
        rw [hd] at happ
        simp only [render, List.cons_append, List.append_assoc, List.nil_append]
        rw [happ]
      · cases h
    · cases h
  · cases h

theorem predicatesUpTo_render {name v : List Char} {q : Char} (hn : ∀ c ∈ name, isNameChar c = true)
    (hq : isQuote q = true) (hv : q ∉ v) (n : Nat) (rest : List Char) :
    predicatesUpTo (n + 1) (render name q v ++ rest) = (predicatesUpTo n rest).map ((name, v) :: ·) := by
  have h := predicate_render hn hq hv rest
  show (match predicate (render name q v ++ rest) with
    | some (p, rest) => (predicatesUpTo n rest).map (p :: ·)
    | none => none) = _
  rw [h]

theorem predicatesUpTo_nil {n : Nat} : predicatesUpTo n [] = some [] := by
  cases n <;> rfl

theorem predicatesUpTo_eq_nil {n : Nat} {cs : List Char} (h : predicatesUpTo n cs = some []) : cs = [] := by
  cases cs with
  | nil => rfl
  | cons c cs =>
    cases n with
    | zero => cases h
    | succ n =>
      rw [predicatesUpTo] at h
      split at h
      · obtain ⟨_, _, h⟩ := Option.map_eq_some_iff.1 h
        cases h
      · cases h

theorem predicatesUpTo_cons_inv {n : Nat} {cs name v : List Char} {ps : List (List Char × List Char)}
    (h : predicatesUpTo n cs = some ((name, v) :: ps)) :
    ∃ q rest m, isQuote q = true ∧ q ∉ v ∧ (∀ c ∈ name, isNameChar c = true) ∧
      cs = render name q v ++ rest ∧ predicatesUpTo m rest = some ps := by
  cases cs with
  | nil => rw [predicatesUpTo_nil] at h; cases h
  | cons c cs =>
    cases n with
    | zero => cases h
    | succ n =>
      rw [predicatesUpTo] at h
      split at h
      · rename_i p rest hp
        obtain ⟨ps', hps, h⟩ := Option.map_eq_some_iff.1 h
        obtain ⟨rfl, rfl⟩ := List.cons.inj h
        obtain ⟨q, hq, hv, hn, hcs⟩ := predicate_inv hp
        exact ⟨q, rest, n, hq, hv, hn, hcs, hps⟩
      · cases h

/-! ### Counting quotes -/

theorem count_name {name : List Char} (hn : ∀ c ∈ name, isNameChar c = true) {q : Char}
    (hq : isQuote q = true) : name.count q = 0 :=
  List.count_eq_zero.2 fun h => by
    have := hn q h
    rw [not_isNameChar_of_isQuote hq] at this
    cases this

theorem count_render {name v : List Char} {q : Char} (hn : ∀ c ∈ name, isNameChar c = true)
    (hq : isQuote q = true) (hv : q ∉ v) : (render name q v).count q = 2 := by
  have h1 : ('[' : Char) ≠ q := by rcases isQuote_iff.1 hq with rfl | rfl <;> decide
  have h2 : ('=' : Char) ≠ q := by rcases isQuote_iff.1 hq with rfl | rfl <;> decide
  have h3 : (']' : Char) ≠ q := by rcases isQuote_iff.1 hq with rfl | rfl <;> decide
  simp [render, List.count_append, count_name hn hq, List.count_eq_zero.2 hv, h1, h2, h3]

theorem filter_quotes_render {name v : List Char} {q : Char} (hn : ∀ c ∈ name, isNameChar c = true)
    (hq : isQuote q = true) : ((render name q v).filter isQuote).head? = some q := by
  have h1 : name.filter isQuote = [] := List.filter_eq_nil_iff.2 fun c hc hcq => by
    have := hn c hc
    rw [not_isNameChar_of_isQuote hcq] at this
    cases this
  have h2 : isQuote '[' = false := by decide
  have h3 : isQuote '=' = false := by decide
  simp [render, List.filter_append, h1, h2, h3, hq]

/-- A quoted tail after a stray single quote never reads as one predicate. -/
theorem not_render_of_stray {a name name' v v' : List Char} {q q' : Char}
    (hn : ∀ c ∈ name, isNameChar c = true) (hq : isQuote q = true) (hv : q ∉ v)
    (hn' : ∀ c ∈ name', isNameChar c = true) (hq' : isQuote q' = true) (hv' : q' ∉ v') :
    a ++ singleQuote :: ']' :: render name q v ≠ render name' q' v' := by
  intro h
  have hqq : q = q' := by
    have h1 : (a ++ singleQuote :: ']' :: render name q v) =
        (a ++ singleQuote :: ']' :: '[' :: (name ++ '=' :: q :: v)) ++ [q, ']'] := by simp [render]
    have h2 : render name' q' v' = ('[' :: (name' ++ '=' :: q' :: v')) ++ [q', ']'] := by simp [render]
    rw [h1, h2] at h
    exact (List.cons.inj (List.append_inj' h rfl).2).1
  subst hqq
  have hcount := congrArg (List.count q) h
  have h3 : (']' : Char) ≠ q := by rcases isQuote_iff.1 hq with rfl | rfl <;> decide
  rw [List.count_append, List.count_cons, List.count_cons, count_render hn hq hv, count_render hn' hq hv'] at hcount
  have hs : singleQuote ≠ q := by
    rintro rfl
    rw [beq_self_eq_true, if_pos rfl] at hcount
    omega
  have ha : q ∉ a := List.count_eq_zero.1 (by omega)
  have hhead := congrArg (fun l => (List.filter isQuote l).head?) h
  simp only [filter_quotes_render hn' hq, List.filter_append] at hhead
  cases hf : a.filter isQuote with
  | nil =>
    rw [hf, List.nil_append, List.filter_cons, if_pos (by decide)] at hhead
    exact hs (Option.some.inj hhead)
  | cons c l =>
    rw [hf] at hhead
    have hc : c ∈ a := (List.mem_filter.1 (hf ▸ List.mem_cons_self : c ∈ a.filter isQuote)).1
    exact ha (Option.some.inj hhead ▸ hc)

/-- A value with its own quote inside ends early. -/
theorem predicate_early {name v₁ v₂ rest : List Char} {q : Char} {p : List Char × List Char}
    {rest' : List Char} (hn : ∀ c ∈ name, isNameChar c = true) (hq : isQuote q = true) (hv : q ∉ v₁)
    (h : predicate (render name q (v₁ ++ q :: v₂) ++ rest) = some (p, rest')) :
    v₂ ++ q :: ']' :: rest = ']' :: rest' := by
  have hr : render name q (v₁ ++ q :: v₂) ++ rest =
      '[' :: (name ++ '=' :: (q :: (v₁ ++ q :: (v₂ ++ q :: ']' :: rest)))) := by simp [render]
  rw [hr, predicate, dropWhile_stop hn (by decide)] at h
  simp only [literal_quoted hq hv] at h
  split at h
  · rename_i v r hl
    simp only [Option.some.injEq, Prod.mk.injEq] at hl h
    rw [hl.2, h.2]
  · cases h

/-- Two predicates are not read where the first value has a single quote between single quotes. -/
theorem predicatesUpTo_ne_two {name name' v v' : List Char} {q : Char} {n : Nat}
    {p p' : List Char × List Char} (hn : ∀ c ∈ name, isNameChar c = true)
    (hn' : ∀ c ∈ name', isNameChar c = true) (hs : singleQuote ∈ v) (hq : isQuote q = true) (hv' : q ∉ v') :
    predicatesUpTo n (render name singleQuote v ++ render name' q v') ≠ some [p, p'] := by
  intro h
  obtain ⟨v₁, v₂, rfl, hv₁⟩ := List.eq_append_cons_of_mem hs
  obtain ⟨p', w'⟩ := p'
  cases n with
  | zero => cases h
  | succ n =>
    change (match predicate (render name singleQuote (v₁ ++ singleQuote :: v₂) ++ render name' q v') with
      | some (p, rest) => (predicatesUpTo n rest).map (p :: ·)
      | none => none) = some [p, (p', w')] at h
    split at h
    · rename_i p₁ rest hp
      obtain ⟨ps, hps, h⟩ := Option.map_eq_some_iff.1 h
      obtain ⟨-, rfl⟩ := List.cons.inj h
      have he := predicate_early hn (by decide) hv₁ hp
      obtain ⟨q', rest', m, hq', hw', hp', rfl, hm⟩ := predicatesUpTo_cons_inv hps
      rw [predicatesUpTo_eq_nil hm, List.append_nil] at he
      cases v₂ with
      | nil => exact absurd (List.cons.inj he).1 (by decide)
      | cons c a => exact not_render_of_stray hn' hq hv' hp' hq' hw' (List.cons.inj he).2
    · cases h

end KeyPredicate

import IetfAlarms.Lib.KeyPredicate
import IetfAlarms.Schema

/-!
# Alarm keys and their XPath predicates

`src/alarms/Key.cpp`. `xpathIndex` writes a key as text; `listEntry` is how libyang reads that text
as an entry of one of the two alarm lists. `listEntry_xpathIndex` says what comes back: the key
itself, or nothing when the qualifier has a single quote, which `AlarmType.xpathIndex` does not escape.
-/

namespace IetfAlarms
open KeyPredicate

/-- A module-qualified identity name, as the value of an `identityref`. -/
structure IdentityName where
  text : String
  noQuote : ∀ c ∈ text.toList, isQuote c = false
deriving DecidableEq

/-- `alarms::Type`. -/
structure AlarmType where
  id : IdentityName
  qualifier : String
deriving DecidableEq

structure InstanceKey where
  type : AlarmType
  resource : String
deriving DecidableEq

/-- The text, between the other type of quotes than found in it. -/
def escapeListKey (str : String) : Except String String :=
  let singleQuotes := str.toList.contains singleQuote
  let doubleQuotes := str.toList.contains doubleQuote
  if singleQuotes && doubleQuotes then
    .error "Encountered mixed single and double quotes in XPath; can't properly escape."
  else if singleQuotes then .ok ("\"" ++ str ++ "\"")
  else .ok ("'" ++ str ++ "'")

def AlarmType.xpathIndex (t : AlarmType) : String :=
  "[alarm-type-id='" ++ t.id.text ++ "'][alarm-type-qualifier='" ++ t.qualifier ++ "']"

def InstanceKey.xpathIndex (k : InstanceKey) : Except String String :=
  (escapeListKey k.resource).map fun resource => k.type.xpathIndex ++ "[resource=" ++ resource ++ "]"

/-- The entry of the list `name` that a text of predicates selects; `none` when libyang rejects the
text. libyang takes the keys in any order, `xpathIndex` writes them in this one. -/
def listEntry (name : Schema) (keyXPath : String) : Option Step :=
  match predicates keyXPath with
  | some ps =>
    if ps.map Prod.fst = ["alarm-type-id", "alarm-type-qualifier", "resource"] then
      some ⟨name, [Schema.alarmTypeId, .alarmTypeQualifier, .resource].zip (ps.map Prod.snd)⟩
    else none
  | none => none

/-- The entry of the list `name` with the key `k`. -/
def InstanceKey.step (k : InstanceKey) (name : Schema) : Step :=
  ⟨name, [(.alarmTypeId, k.type.id.text), (.alarmTypeQualifier, k.type.qualifier), (.resource, k.resource)]⟩

theorem InstanceKey.step_injective {k k' : InstanceKey} {name name' : Schema}
    (h : k.step name = k'.step name') : k = k' ∧ name = name' := by
  obtain ⟨⟨⟨i, _⟩, q⟩, r⟩ := k
  obtain ⟨⟨⟨i', _⟩, q'⟩, r'⟩ := k'
  simp only [step, DataTree.Step.mk.injEq, List.cons.injEq, Prod.mk.injEq, true_and, and_true] at h
  obtain ⟨rfl, rfl, rfl, rfl⟩ := h
  exact ⟨rfl, rfl⟩

/-- The keys libyang can be asked for: the resource does not mix quotes and the qualifier has no
single quote. -/
def InstanceKey.Quotable (k : InstanceKey) : Prop :=
  ¬ (singleQuote ∈ k.resource.toList ∧ doubleQuote ∈ k.resource.toList) ∧
    singleQuote ∉ k.type.qualifier.toList

instance (k : InstanceKey) : Decidable k.Quotable := inferInstanceAs (Decidable (_ ∧ _))

/-- What `escapeListKey` returns is a literal of its argument. -/
theorem escapeListKey_ok {str r : String} (h : escapeListKey str = .ok r) :
    ∃ q, isQuote q = true ∧ q ∉ str.toList ∧ r.toList = q :: (str.toList ++ [q]) := by
  simp only [escapeListKey, Bool.and_eq_true, List.contains_iff_mem] at h
  split at h
  · cases h
  · rename_i hmix
    split at h
    · rename_i hs
      cases h
      exact ⟨doubleQuote, by decide, fun hd => hmix ⟨hs, hd⟩, by
        simp only [String.toList_append]; rfl⟩
    · rename_i hs
      cases h
      exact ⟨singleQuote, by decide, hs, by simp only [String.toList_append]; rfl⟩

theorem escapeListKey_isOk (str : String) :
    (∃ r, escapeListKey str = .ok r) ↔ ¬ (singleQuote ∈ str.toList ∧ doubleQuote ∈ str.toList) := by
  simp only [escapeListKey, Bool.and_eq_true, List.contains_iff_mem]
  split
  · rename_i h
    simp [h]
  · rename_i h
    split <;> simp [h]

/-- The pieces of a key's text, with the literal parts left as variables. -/
theorem toList_pieces {a b c d e i t r : String} {n₁ n₂ n₃ v : List Char} {s q : Char}
    (ha : a.toList = '[' :: (n₁ ++ ['=', s])) (hb : b.toList = s :: ']' :: '[' :: (n₂ ++ ['=', s]))
    (hc : c.toList = [s, ']']) (hd : d.toList = '[' :: (n₃ ++ ['='])) (he : e.toList = [']'])
    (hr : r.toList = q :: (v ++ [q])) :
    (a ++ i ++ b ++ t ++ c ++ d ++ r ++ e).toList =
      render n₁ s i.toList ++ (render n₂ s t.toList ++ render n₃ q v) := by
  simp only [String.toList_append, ha, hb, hc, hd, he, hr, render, List.append_assoc,
    List.cons_append, List.nil_append]

/-- The text of a key is three rendered predicates; the first two are always in single quotes. -/
theorem InstanceKey.xpathIndex_ok {k : InstanceKey} {x : String} (h : k.xpathIndex = .ok x) :
    ∃ q, isQuote q = true ∧ q ∉ k.resource.toList ∧
      x.toList = render "alarm-type-id".toList singleQuote k.type.id.text.toList ++
        (render "alarm-type-qualifier".toList singleQuote k.type.qualifier.toList ++
          render "resource".toList q k.resource.toList) := by
  unfold InstanceKey.xpathIndex at h
  cases hr : escapeListKey k.resource with
  | error e => simp [hr, Except.map] at h
  | ok r =>
    simp only [hr, Except.map, Except.ok.injEq] at h
    subst h
    obtain ⟨q, hq, hm, hrl⟩ := escapeListKey_ok hr
    refine ⟨q, hq, hm, ?_⟩
    exact toList_pieces (by decide) (by decide) (by decide) (by decide) (by decide) hrl

theorem nameChars : (∀ c ∈ "alarm-type-id".toList, isNameChar c = true) ∧
    (∀ c ∈ "alarm-type-qualifier".toList, isNameChar c = true) ∧
    ∀ c ∈ "resource".toList, isNameChar c = true := by
  have hall : ∀ name : String, name.toList.all isNameChar = true → ∀ c ∈ name.toList, isNameChar c = true :=
    fun _ h => List.all_eq_true.1 h
  exact ⟨hall _ (by decide), hall _ (by decide), hall _ (by decide)⟩

theorem InstanceKey.singleQuote_not_mem_id (k : InstanceKey) : singleQuote ∉ k.type.id.text.toList :=
  fun h => by
    have := k.type.id.noQuote _ h
    cases this

/-- The text of a storable key parses into its three predicates. -/
theorem predicates_of_quotable {k : InstanceKey} (hk : k.Quotable) {x : String} (hx : k.xpathIndex = .ok x) :
    predicates x = some [("alarm-type-id", k.type.id.text), ("alarm-type-qualifier", k.type.qualifier),
      ("resource", k.resource)] := by
  obtain ⟨q, hq, hm, hl⟩ := InstanceKey.xpathIndex_ok hx
  obtain ⟨h1, h2, h3⟩ := nameChars
  have hlen : ∃ n, x.toList.length = n + 3 := by
    refine ⟨x.toList.length - 3, ?_⟩
    rw [hl]
    simp only [List.length_append]
    simp [render]
    omega
  obtain ⟨n, hn⟩ := hlen
  unfold predicates
  rw [hn, hl, predicatesUpTo_render h1 (by decide) k.singleQuote_not_mem_id, predicatesUpTo_render h2 (by decide) hk.2,
    ← List.append_nil (render "resource".toList q k.resource.toList),
    predicatesUpTo_render h3 hq hm, predicatesUpTo_nil]
  simp

theorem listEntry_of_quotable {k : InstanceKey} (hk : k.Quotable) {x : String} (hx : k.xpathIndex = .ok x)
    (name : Schema) : listEntry name x = some (k.step name) := by
  rw [listEntry, predicates_of_quotable hk hx]
  rfl

/-- A stray single quote in the qualifier never reads as some other key: libyang rejects the text. -/
theorem listEntry_of_stray {k : InstanceKey} (hs : singleQuote ∈ k.type.qualifier.toList) {x : String}
    (hx : k.xpathIndex = .ok x) (name : Schema) : listEntry name x = none := by
  obtain ⟨q, hq, hm, hl⟩ := InstanceKey.xpathIndex_ok hx
  obtain ⟨h1, h2, h3⟩ := nameChars
  unfold listEntry
  split
  · rename_i ps hps
    split
    · rename_i hnames
      exfalso
      unfold predicates at hps
      obtain ⟨cs, hcs, rfl⟩ := Option.map_eq_some_iff.1 hps
      have hlen : cs.length = 3 := by simpa using congrArg List.length hnames
      obtain ⟨p₁, p₂, p₃, rfl⟩ := List.length_eq_three.1 hlen
      cases hn : x.toList.length with
      | zero => rw [hl] at hn; simp [render] at hn
      | succ n =>
        rw [hn, hl, predicatesUpTo_render h1 (by decide) k.singleQuote_not_mem_id] at hcs
        obtain ⟨ps, hps, hcs⟩ := Option.map_eq_some_iff.1 hcs
        obtain ⟨-, rfl⟩ := List.cons.inj hcs
        exact predicatesUpTo_ne_two h2 h3 hs hq hm hps
    · rfl
  · rfl

/-- What libyang finds under the text of a key is that key. -/
theorem listEntry_xpathIndex {k : InstanceKey} {x : String} (hx : k.xpathIndex = .ok x) (name : Schema) :
    listEntry name x = if k.Quotable then some (k.step name) else none := by
  split
  · rename_i hk
    exact listEntry_of_quotable hk hx name
  · rename_i hk
    have hmix := (escapeListKey_isOk k.resource).1 (by
      unfold InstanceKey.xpathIndex at hx
      cases hr : escapeListKey k.resource with
      | error e => simp [hr, Except.map] at hx
      | ok r => exact ⟨r, rfl⟩)
    exact listEntry_of_stray (Classical.not_not.1 fun h => hk ⟨hmix, h⟩) hx name

theorem InstanceKey.Quotable.xpathIndex {k : InstanceKey} (hk : k.Quotable) :
    ∃ x, k.xpathIndex = .ok x := by
  obtain ⟨r, hr⟩ := (escapeListKey_isOk k.resource).2 hk.1
  exact ⟨_, by rw [InstanceKey.xpathIndex, hr]; rfl⟩

/-! ### Faithful texts -/

/-- `xpathIndex` throws, or its text parses into the three predicates of the key. -/
def InstanceKey.Faithful (k : InstanceKey) : Prop :=
  (∃ message, k.xpathIndex = .error message) ∨
    ∃ x, k.xpathIndex = .ok x ∧ predicates x = some [("alarm-type-id", k.type.id.text),
      ("alarm-type-qualifier", k.type.qualifier), ("resource", k.resource)]

theorem InstanceKey.Faithful.not_stray {k : InstanceKey} (h : k.Faithful) :
    singleQuote ∈ k.resource.toList ∧ doubleQuote ∈ k.resource.toList ∨
      singleQuote ∉ k.type.qualifier.toList := by
  rcases h with ⟨message, he⟩ | ⟨x, hx, hps⟩
  · refine .inl ?_
    by_contra hmix
    obtain ⟨r, hr⟩ := (escapeListKey_isOk k.resource).2 hmix
    rw [InstanceKey.xpathIndex, hr] at he
    cases he
  · refine .inr fun hs => ?_
    have hnone := listEntry_of_stray hs hx .alarm
    rw [listEntry, hps] at hnone
    cases hnone

/-- Only a single quote in the qualifier, which is not escaped, makes a wrong text. -/
theorem faithful_iff (k : InstanceKey) :
    k.Faithful ↔ singleQuote ∈ k.resource.toList ∧ doubleQuote ∈ k.resource.toList ∨
      singleQuote ∉ k.type.qualifier.toList := by
  constructor
  · exact InstanceKey.Faithful.not_stray
  · intro h
    by_cases hmix : singleQuote ∈ k.resource.toList ∧ doubleQuote ∈ k.resource.toList
    · refine .inl ?_
      cases hx : k.xpathIndex with
      | error message => exact ⟨message, rfl⟩
      | ok x =>
        obtain ⟨r, hr⟩ : ∃ r, escapeListKey k.resource = .ok r := by
          unfold InstanceKey.xpathIndex at hx
          cases hr : escapeListKey k.resource with
          | error e => simp [hr, Except.map] at hx
          | ok r => exact ⟨r, rfl⟩
        exact absurd hmix ((escapeListKey_isOk k.resource).1 ⟨r, hr⟩)
    · have hk : k.Quotable := ⟨hmix, h.resolve_left hmix⟩
      obtain ⟨x, hx⟩ := hk.xpathIndex
      exact .inr ⟨x, hx, predicates_of_quotable hk hx⟩

/-- An identity of the module that the tests use. -/
def AlarmsTest.alarm1Name : IdentityName where
  text := "alarms-test:alarm-1"
  noQuote c hc := by
    have hall : ("alarms-test:alarm-1".toList.all fun c => !isQuote c) = true := by decide
    exact Bool.not_eq_true' _ |>.mp (List.all_eq_true.1 hall c hc)

/-- An alarm with an apostrophe in its qualifier. -/
def apostropheKey : InstanceKey := ⟨⟨AlarmsTest.alarm1Name, "it's hot"⟩, "edfa"⟩

theorem not_faithful_apostrophe : ¬ ∀ k : InstanceKey, k.Faithful := by
  intro hall
  rcases (hall apostropheKey).not_stray with ⟨hs, -⟩ | hq
  · revert hs
    decide +kernel
  · revert hq
    decide +kernel

end IetfAlarms

import IetfAlarms.Schema

/-!
# Identities from their base statements

`derivedRecursive` computed from the `base` statements of a module, one generation after the other.
`alarmsTest` is the libyang of the tests: the module `tests/yang/alarms-test.yang`, and a format that
prints the first nanoseconds of the clock.
-/

namespace IetfAlarms
open Relation

/-- The `base` statements of a module: base first. -/
abbrev Bases := List (Identity × Identity)

namespace Bases
variable {bases : Bases} {height : Identity → Nat}

def Derives (bases : Bases) (i d : Identity) : Prop := (i, d) ∈ bases

/-- The identity and what derives from it in at most this many steps. -/
def descendants (bases : Bases) : Nat → Identity → List Identity
  | 0, i => [i]
  | n + 1, i => i :: bases.flatMap fun p => if p.1 = i then descendants bases n p.2 else []

theorem reflTransGen_of_mem {n : Nat} {i d : Identity} (h : d ∈ bases.descendants n i) :
    ReflTransGen bases.Derives i d := by
  induction n generalizing i with
  | zero =>
    rw [descendants, List.mem_singleton] at h
    exact h ▸ .refl
  | succ n ih =>
    rw [descendants, List.mem_cons] at h
    rcases h with rfl | h
    · exact .refl
    · obtain ⟨p, hp, hd⟩ := List.mem_flatMap.1 h
      split at hd
      · rename_i hi
        subst hi
        exact .head hp (ih hd)
      · cases hd

/-- As many generations as an identity is high reach everything derived from it. -/
theorem mem_of_reflTransGen (hh : ∀ p ∈ bases, height p.2 < height p.1) {n : Nat} {i d : Identity}
    (hn : height i ≤ n) (h : ReflTransGen bases.Derives i d) : d ∈ bases.descendants n i := by
  induction n generalizing i with
  | zero =>
    rcases h.cases_head with rfl | ⟨c, hc, -⟩
    · exact List.mem_singleton.2 rfl
    · have hlt : height c < height i := hh (i, c) hc
      omega
  | succ n ih =>
    rw [descendants, List.mem_cons]
    rcases h.cases_head with rfl | ⟨c, hc, hd⟩
    · exact .inl rfl
    · have hlt : height c < height i := hh (i, c) hc
      refine .inr (List.mem_flatMap.2 ⟨(i, c), hc, ?_⟩)
      rw [if_pos rfl]
      have hle : height c ≤ n := by omega
      exact ih hle hd

theorem mem_descendants (hh : ∀ p ∈ bases, height p.2 < height p.1) {n : Nat} (hn : ∀ i, height i ≤ n)
    (i d : Identity) : d ∈ bases.descendants n i ↔ ReflTransGen bases.Derives i d :=
  ⟨reflTransGen_of_mem, mem_of_reflTransGen hh (hn i)⟩

end Bases

/-! ### Times -/

/-- The first nanoseconds of the clock as they print, and some other text for the rest. -/
def epochFormat (t : Int) : String :=
  if 0 ≤ t ∧ t < 10 then
    "1970-01-01T00:00:00.00000000" ++ String.singleton (Nat.digitChar t.toNat) ++ "+00:00"
  else String.ofList ((if t < 0 then '-' else '+') :: List.replicate t.natAbs '0')

theorem epochFormat_toList (t : Int) : (epochFormat t).toList =
    if 0 ≤ t ∧ t < 10 then
      "1970-01-01T00:00:00.00000000".toList ++ (Nat.digitChar t.toNat :: "+00:00".toList)
    else (if t < 0 then '-' else '+') :: List.replicate t.natAbs '0' := by
  unfold epochFormat
  split
  · simp [String.toList_append]
  · simp

theorem digitChar_injective {m n : Nat} (hm : m < 10) (hn : n < 10) (h : Nat.digitChar m = Nat.digitChar n) :
    m = n := by
  have hall : ∀ m < 10, ∀ n < 10, Nat.digitChar m = Nat.digitChar n → m = n := by decide
  exact hall m hm n hn h

theorem epochFormat_injective : Function.Injective epochFormat := by
  intro t u h
  have hl := congrArg String.toList h
  rw [epochFormat_toList, epochFormat_toList] at hl
  by_cases ht : 0 ≤ t ∧ t < 10
  · by_cases hu : 0 ≤ u ∧ u < 10
    · rw [if_pos ht, if_pos hu] at hl
      have hc := (List.cons.inj (List.append_cancel_left hl)).1
      have := digitChar_injective (by omega) (by omega) hc
      omega
    · rw [if_pos ht, if_neg hu] at hl
      have hc := congrArg List.head? hl
      by_cases hneg : u < 0 <;> simp [hneg] at hc
  · by_cases hu : 0 ≤ u ∧ u < 10
    · rw [if_neg ht, if_pos hu] at hl
      have hc := congrArg List.head? hl
      by_cases hneg : t < 0 <;> simp [hneg] at hc
    · rw [if_neg ht, if_neg hu] at hl
      obtain ⟨hsign, hrest⟩ := List.cons.inj hl
      have hlen := congrArg List.length hrest
      rw [List.length_replicate, List.length_replicate] at hlen
      by_cases h1 : t < 0 <;> by_cases h2 : u < 0 <;> simp [h1, h2] at hsign <;> omega

/-! ### The module of the tests -/

namespace AlarmsTest

def alarmTypeId : Identity := ⟨"ietf-alarms", "alarm-type-id"⟩
def baseAlarm : Identity := ⟨"alarms-test", "base-alarm"⟩
def alarm1 : Identity := ⟨"alarms-test", "alarm-1"⟩
def alarm2 : Identity := ⟨"alarms-test", "alarm-2"⟩
def alarm21 : Identity := ⟨"alarms-test", "alarm-2-1"⟩
def alarm22 : Identity := ⟨"alarms-test", "alarm-2-2"⟩

def bases : Bases :=
  [(alarmTypeId, baseAlarm), (baseAlarm, alarm1), (baseAlarm, alarm2), (alarm2, alarm21), (alarm2, alarm22)]

def height (i : Identity) : Nat :=
  if i = alarmTypeId then 3 else if i = baseAlarm then 2 else if i = alarm2 then 1 else 0

theorem height_lt : ∀ p ∈ bases, height p.2 < height p.1 := by decide

theorem height_le (i : Identity) : height i ≤ 3 := by
  unfold height
  split
  · omega
  · split
    · omega
    · split <;> omega

end AlarmsTest

@[reducible] def alarmsTest : Libyang where
  yangTimeFormat := epochFormat
  yangTimeFormat_injective := epochFormat_injective
  derived := AlarmsTest.bases.Derives
  derivedRecursive := AlarmsTest.bases.descendants 3
  mem_derivedRecursive := Bases.mem_descendants AlarmsTest.height_lt AlarmsTest.height_le

end IetfAlarms

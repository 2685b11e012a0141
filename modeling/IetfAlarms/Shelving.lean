import IetfAlarms.Identities
import IetfAlarms.Runs

/-!
# Alarms are where the shelving rules put them

What it means for a key to be matched by a shelf, in the terms of the YANG model, and that every alarm
is on the first shelf that matches it, at every point of every run.
-/

namespace IetfAlarms
open Program Trace DataTree Relation

section
variable [Libyang] {b : Boot} {w w' : World} {ev : Event} {k : InstanceKey} {shelf : Shelf} {rules : ShelvingRules}

/-! ### Matching -/

/-- The identity of the entry is that of the alarm type or one it derives from. -/
def Covers (i : Identity) (type : AlarmType) : Prop :=
  ∃ d, ReflTransGen Libyang.derived i d ∧ qualifiedName d = type.id.text

/-- The key satisfies the criteria of the shelf; an empty list is no criterion. -/
structure Satisfies (shelf : Shelf) (k : InstanceKey) : Prop where
  resource : shelf.resource = [] ∨ k.resource ∈ shelf.resource
  alarmType : shelf.alarmType = [] ∨ ∃ t ∈ shelf.alarmType,
    t.alarmTypeQualifierMatch = k.type.qualifier ∧ Covers t.alarmTypeId k.type

/-- The first shelf, in user order, that the key satisfies has this name. -/
def FirstMatch (rules : ShelvingRules) (k : InstanceKey) (name : String) : Prop :=
  ∃ before shelf after, rules = before ++ shelf :: after ∧ shelf.name = name ∧ Satisfies shelf k ∧
    ∀ s ∈ before, ¬ Satisfies s k

theorem matchesIdentity_iff {i : Identity} {type : AlarmType} : matchesIdentity i type = true ↔ Covers i type := by
  rw [matchesIdentity, List.any_eq_true]
  constructor
  · rintro ⟨d, hd, heq⟩
    exact ⟨d, (Libyang.mem_derivedRecursive i d).1 hd, beq_iff_eq.1 heq⟩
  · rintro ⟨d, hd, heq⟩
    exact ⟨d, (Libyang.mem_derivedRecursive i d).2 hd, beq_iff_eq.2 heq⟩

theorem matchesType_iff {nodes : List ShelfAlarmType} {type : AlarmType} :
    matchesType nodes type = true ↔
      ∃ t ∈ nodes, t.alarmTypeQualifierMatch = type.qualifier ∧ Covers t.alarmTypeId type := by
  rw [matchesType, List.any_eq_true]
  constructor
  · rintro ⟨t, ht, hm⟩
    obtain ⟨hq, hi⟩ := Bool.and_eq_true_iff.1 hm
    exact ⟨t, ht, (beq_iff_eq.1 hq).symm, matchesIdentity_iff.1 hi⟩
  · rintro ⟨t, ht, hq, hi⟩
    exact ⟨t, ht, Bool.and_eq_true_iff.2 ⟨beq_iff_eq.2 hq.symm, matchesIdentity_iff.2 hi⟩⟩

theorem matchesShelf_iff : matchesShelf shelf k = true ↔ Satisfies shelf k := by
  have hresource : (!shelf.resource.isEmpty && !shelf.resource.any (· == k.resource)) = false ↔
      (shelf.resource = [] ∨ k.resource ∈ shelf.resource) := by
    rw [Bool.and_eq_false_iff, Bool.not_eq_false', Bool.not_eq_false', List.isEmpty_iff, List.any_beq']
    exact or_congr_right List.contains_iff_mem
  have htype : (!shelf.alarmType.isEmpty && !matchesType shelf.alarmType k.type) = false ↔
      (shelf.alarmType = [] ∨ ∃ t ∈ shelf.alarmType,
        t.alarmTypeQualifierMatch = k.type.qualifier ∧ Covers t.alarmTypeId k.type) := by
    rw [Bool.and_eq_false_iff, Bool.not_eq_false', Bool.not_eq_false', List.isEmpty_iff, matchesType_iff]
  unfold matchesShelf
  split
  · rename_i h
    refine ⟨fun hf => absurd hf Bool.false_ne_true, fun hs => ?_⟩
    rw [hresource.2 hs.resource] at h
    cases h
  · rename_i hr
    split
    · rename_i h
      refine ⟨fun hf => absurd hf Bool.false_ne_true, fun hs => ?_⟩
      rw [htype.2 hs.alarmType] at h
      cases h
    · rename_i ht
      exact ⟨fun _ => ⟨hresource.1 (Bool.eq_false_iff.2 hr), htype.1 (Bool.eq_false_iff.2 ht)⟩, fun _ => rfl⟩

theorem findMatchingShelf_eq_some {name : String} :
    findMatchingShelf k rules = some name ↔ FirstMatch rules k name := by
  rw [findMatchingShelf, Option.map_eq_some_iff]
  constructor
  · rintro ⟨shelf, hfind, hname⟩
    obtain ⟨hm, before, after, hrules, hbefore⟩ := List.find?_eq_some_iff_append.1 hfind
    refine ⟨before, shelf, after, hrules, hname, matchesShelf_iff.1 hm, fun s hs hsat => ?_⟩
    have := hbefore s hs
    rw [matchesShelf_iff.2 hsat] at this
    cases this
  · rintro ⟨before, shelf, after, hrules, hname, hsat, hbefore⟩
    refine ⟨shelf, List.find?_eq_some_iff_append.2 ⟨matchesShelf_iff.2 hsat, before, after, hrules, ?_⟩, hname⟩
    intro s hs
    rw [Bool.eq_false_iff.2 fun hm => hbefore s hs (matchesShelf_iff.1 hm)]
    rfl

theorem findMatchingShelf_eq_none :
    findMatchingShelf k rules = none ↔ ∀ s ∈ rules, ¬ Satisfies s k := by
  rw [findMatchingShelf, Option.map_eq_none_iff, List.find?_eq_none]
  exact forall₂_congr fun s _ => not_congr matchesShelf_iff

/-! ### The rules last loaded -/

omit [Libyang] in
theorem needsReshelve_iff {changes : List ControlChange} :
    needsReshelve changes w = true ↔ ControlChange.alarmShelving ∈ changes := by
  refine ⟨fun h => ?_, fun h => scanChanges_needsReshelve h _ _⟩
  have hall : ∀ (changes : List ControlChange) (d : Daemon) (shrink : Bool),
      (scanChanges changes d shrink).needsReshelve = true → ControlChange.alarmShelving ∈ changes := by
    intro changes
    induction changes with
    | nil =>
      intro d shrink h
      cases h
    | cons c changes ih =>
      intro d shrink h
      cases c with
      | alarmShelving => exact List.mem_cons_self
      | notifyStatusChanges value => exact List.mem_cons_of_mem _ (ih _ _ h)
      | notifySeverityLevel value => exact List.mem_cons_of_mem _ (ih _ _ h)
      | maxAlarmStatusChanges value => exact List.mem_cons_of_mem _ (ih _ _ h)
      | other => exact List.mem_cons_of_mem _ (ih _ _ h)
  exact hall changes _ _ h

/-- The rules that `reshelve` last got from the running datastore; the constructor runs it first. -/
def loadedRules (b : Boot) : History → ShelvingRules
  | [] => b.shelving
  | t :: tr =>
    match t.label.call with
    | .controlChanged changes shelving =>
      if ControlChange.alarmShelving ∈ changes ∧ t.label.env.getDataThrows = false then shelving
      else loadedRules b tr
    | _ => loadedRules b tr

theorem World.controlled_shelvingRules (now : TimePoint) (changes : List ControlChange) (shelving : ShelvingRules)
    (w : World) : (w.controlled now changes shelving).shelvingRules =
      if ControlChange.alarmShelving ∈ changes then some shelving else w.shelvingRules := by
  have hshrunk : ∀ w : World, w.shrunk.shelvingRules = w.shelvingRules := fun w => by
    have := congrArg (fun w : World => w.shelvingRules) w.shrunk_frame
    exact this
  have hscanned : (w.scanned changes).shelvingRules = w.shelvingRules := by rw [World.scanned_eq]
  have hreshelved : ((w.scanned changes).reshelved now shelving).shelvingRules = some shelving := by
    have := congrArg (fun w : World => w.shelvingRules) (World.reshelved_frame now shelving (w.scanned changes))
    exact this
  have hcontrol : (w.controlReshelved now changes shelving).shelvingRules =
      if ControlChange.alarmShelving ∈ changes then some shelving else w.shelvingRules := by
    unfold World.controlReshelved
    by_cases hc : ControlChange.alarmShelving ∈ changes
    · rw [if_pos hc, if_pos (needsReshelve_iff.2 hc)]
      exact hreshelved
    · rw [if_neg hc, if_neg fun h => hc (needsReshelve_iff.1 h)]
      exact hscanned
  unfold World.controlled
  split
  · rw [hshrunk]
    exact hcontrol
  · exact hcontrol

theorem Effect.shelvingRules {w₁ : World} (h : Effect w ev w₁) (tr : History)
    (hw : w.shelvingRules = some (loadedRules b tr)) :
    w₁.shelvingRules = some (loadedRules b (⟨w, ev, w'⟩ :: tr)) := by
  cases h with
  | none _ hc =>
    rw [loadedRules]
    split
    · rename_i changes shelving heq
      exact absurd heq (hc changes shelving)
    · exact hw
  | submitted => exact hw
  | submittedPartly => exact hw
  | purged filter hz =>
    rename_i l input env r
    have hframe := congrArg (fun w : World => w.shelvingRules) (w.purged_frame l filter env.now)
    exact hframe.trans hw
  | compressed =>
    rename_i l input env r
    have hframe := congrArg (fun w : World => w.shelvingRules) (w.compressed_frame l (compressFilter input))
    exact hframe.trans hw
  | scanned hg =>
    rw [loadedRules, World.scanned_eq]
    simp only
    rw [if_neg fun h => Bool.false_ne_true (h.2.symm.trans (Bool.and_eq_true_iff.1 hg).2)]
    exact hw
  | controlled hg =>
    rename_i changes shelving env r
    rw [World.controlled_shelvingRules, loadedRules]
    simp only
    by_cases hc : ControlChange.alarmShelving ∈ changes
    · rw [needsReshelve_iff.2 hc, Bool.true_and] at hg
      rw [if_pos hc, if_pos ⟨hc, hg⟩]
    · rw [if_neg hc, if_neg fun h => hc h.1]
      exact hw

theorem shelvingRules_of_run {tr : History} (h : DaemonRun b tr w) :
    w.shelvingRules = some (loadedRules b tr) := by
  refine h.invariant (I := fun tr w => w.shelvingRules = some (loadedRules b tr))
    (fun w hs => hs.boots.shelvingRules) fun tr w ev w' hr hi hp => ?_
  obtain ⟨w₁, he, hs⟩ := (hp.ends (Inv.of_run hr)).effect
  exact hs.shelvingRules.trans (he.shelvingRules tr hi)

/-! ### The shelf of an alarm -/

/-- In every run, whatever is edited, submitted, purged or compressed and whatever fails, every alarm is on
the first shelf of the rules last loaded that its key satisfies, and on none if it satisfies none. -/
theorem shelf_of_run {tr : History} (h : DaemonRun b tr w) {e : AlarmEntry} (he : w.alarms.lookup k = some e) :
    w.shelvingRules = some (loadedRules b tr) ∧
      (∀ name, e.shelf = some name ↔ FirstMatch (loadedRules b tr) k name) ∧
      (e.shelf = none ↔ ∀ s ∈ loadedRules b tr, ¬ Satisfies s k) := by
  have hrules := shelvingRules_of_run h
  have hshelf : e.shelf = findMatchingShelf k (loadedRules b tr) := by
    have := ((Inv.of_run h).slots k).present e he
    rw [World.rules, hrules] at this
    exact this.shelf
  refine ⟨hrules, fun name => ?_, ?_⟩
  · rw [hshelf]
    exact findMatchingShelf_eq_some
  · rw [hshelf]
    exact findMatchingShelf_eq_none

end

namespace AlarmsTest

/-- The second shelf takes everything of the types below `base-alarm`. -/
def twoShelves : ShelvingRules := [⟨"other", ["edfa"], []⟩, ⟨"shelf", [], [⟨baseAlarm, "high"⟩]⟩]

def wssCalls : List (Call × Env) := [(submit "wss" (.active .warning) "Hey, I'm overheating.", atTime 1)]

def wssEntry : AlarmEntry where
  created := 1
  lastRaised := 1
  lastChanged := 1
  text := "Hey, I'm overheating."
  shelf := some "shelf"
  lastSeverity := 3
  isCleared := false
  statusChanges := [⟨1, 3, "Hey, I'm overheating."⟩]

theorem shelf_of_run_wss :
    FirstMatch (loadedRules (boot twoShelves) (scenario twoShelves wssCalls).1) (key "wss") "shelf" := by
  have hrun : DaemonRun (boot twoShelves) (scenario twoShelves wssCalls).1 (scenario twoShelves wssCalls).2 :=
    daemonRun_scenario (by decide +kernel)
  have he : (scenario twoShelves wssCalls).2.alarms.lookup (key "wss") = some wssEntry := by decide +kernel
  exact ((shelf_of_run hrun he).2.1 "shelf").1 rfl

end AlarmsTest
end IetfAlarms

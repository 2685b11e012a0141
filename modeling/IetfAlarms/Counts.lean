import IetfAlarms.History
import Mathlib.Algebra.GroupWithZero.Nat

/-!
# The published statistics count the published lists

The statistics are recomputed only where an alarm was changed, removed or moved. Whatever else happens
leaves what they count alone, so that after every call they are a recount of the lists in the datastore.
A submission that finds its time in the history of the alarm breaks this: it publishes the alarm without
recounting.
-/

namespace IetfAlarms
open Program Trace DataTree DataTree.Node

/-! ### What is counted -/

/-- The entries of a list in this tree. -/
def listed (l : Listing) (tree : Node) : List DataNode := (tree.focus l.path).instances l.entry

def hasSeverity (s : Severity) (alarm : DataNode) : Bool := alarm.2.leaf .perceivedSeverity == some s.name

def hasCleared (isCleared : Bool) (alarm : DataNode) : Bool := alarm.2.leaf .isCleared == some (boolText isCleared)

/-- The alarms of this severity that are in `alarm-list`. -/
def published (tree : Node) (s : Severity) : Nat := (listed .alarmList tree).countP (hasSeverity s)

def publishedCleared (tree : Node) (s : Severity) (isCleared : Bool) : Nat :=
  (listed .alarmList tree).countP fun alarm => hasSeverity s alarm && hasCleared isCleared alarm

/-- The statistics in the tree are those of the lists in the tree. -/
structure Recounts (tree : Node) : Prop where
  numberOfAlarms : World.statistic tree (Listing.alarmList.path ++ [⟨.numberOfAlarms, []⟩]) =
    some (toString (listed .alarmList tree).length)
  numberOfShelvedAlarms : World.statistic tree (Listing.shelvedAlarms.path ++ [⟨.numberOfShelvedAlarms, []⟩]) =
    some (toString (listed .shelvedAlarms tree).length)
  total : ∀ s : Severity, World.statistic tree (summaryPath s.name ++ [⟨.total, []⟩]) =
    some (toString (published tree s))
  cleared : ∀ s : Severity, World.statistic tree (summaryPath s.name ++ [⟨.cleared, []⟩]) =
    some (toString (publishedCleared tree s true))
  notCleared : ∀ s : Severity, World.statistic tree (summaryPath s.name ++ [⟨.notCleared, []⟩]) =
    some (toString (publishedCleared tree s false))
  split : ∀ s, published tree s = publishedCleared tree s true + publishedCleared tree s false
  sum : (allSeverities.map (published tree)).sum = (listed .alarmList tree).length

section
variable [Libyang] {b : Boot} {w w₁ w' : World} {ev : Event} {l : Listing} {tr : History}

/-! ### The lists and the alarms -/

theorem mem_listed (hi : Inv w) {s : Step} {n : Node} :
    (s, n) ∈ listed l w.edit ↔ ∃ k e, w.alarms.lookup k = some e ∧ Listing.ofShelf e.shelf = l ∧
      s = k.step l.entry ∧ (w.slot k).node l = some n := by
  have hfind : ∀ s, (w.edit.focus l.path).child s = w.edit.find (l.path ++ [s]) := fun s => by
    rw [find_append_cons]
    cases (w.edit.focus l.path).child s <;> rfl
  rw [listed, mem_instances_iff (hi.wf.focus l.path).children, hfind]
  constructor
  · rintro ⟨hs, hn⟩
    obtain ⟨k, rfl⟩ := hi.keyed l s hs (by rw [hn]; rfl)
    obtain ⟨e, he, hl⟩ := (hi.slots k).entry_of_node hn
    exact ⟨k, e, he, hl.symm, rfl, hn⟩
  · rintro ⟨k, e, -, -, rfl, hn⟩
    exact ⟨rfl, hn⟩

/-- The list has the alarms that belong to it. -/
theorem listed_perm (hi : Inv w) (l : Listing) :
    (listed l w.edit).Perm ((w.alarms.entries.filter fun x => Listing.ofShelf x.2.shelf == l).map fun x =>
      (x.1.step l.entry, ((w.slot x.1).node l).getD Node.empty)) := by
  have hlisted : (listed l w.edit).Nodup :=
    List.Nodup.of_map Prod.fst ((hi.wf.focus l.path).children.sublist (List.filter_sublist.map _))
  have htable : ((w.alarms.entries.filter fun x => Listing.ofShelf x.2.shelf == l).map fun x =>
      (x.1.step l.entry, ((w.slot x.1).node l).getD Node.empty)).Nodup := by
    have hkeys := w.alarms.nodup.sublist ((List.filter_sublist
      (p := fun x => Listing.ofShelf x.2.shelf == l)).map Prod.fst)
    have hsteps := List.Nodup.map (f := fun k : InstanceKey => k.step l.entry)
      (fun k k' hk => (InstanceKey.step_injective hk).1) hkeys
    refine List.Nodup.of_map Prod.fst ?_
    rw [List.map_map] at hsteps ⊢
    exact hsteps
  refine (List.perm_ext_iff_of_nodup hlisted htable).2 ?_
  rintro ⟨s, n⟩
  rw [mem_listed hi, List.mem_map]
  constructor
  · rintro ⟨k, e, he, hl, rfl, hn⟩
    refine ⟨(k, e), List.mem_filter.2 ⟨AssocMap.mem_entries_iff.2 he, beq_iff_eq.2 hl⟩, ?_⟩
    rw [hn]
    rfl
  · rintro ⟨⟨k, e⟩, hx, heq⟩
    obtain ⟨rfl, rfl⟩ := Prod.mk.inj heq
    obtain ⟨hx, hl⟩ := List.mem_filter.1 hx
    have he := AssocMap.mem_entries_iff.1 hx
    have hl := beq_iff_eq.1 hl
    obtain ⟨n, hn, -⟩ := ((hi.slots k).present e he).mirrored
    rw [hl] at hn
    refine ⟨k, e, he, hl, rfl, ?_⟩
    simp only [hn, Option.getD_some]

theorem length_listed (hi : Inv w) (l : Listing) : (listed l w.edit).length = countListed w.alarms.entries l := by
  rw [(listed_perm hi l).length_eq, List.length_map, ← List.countP_eq_length_filter, countListed]

/-- Counting nodes is counting the alarms whose nodes they are. -/
theorem countP_listed (hi : Inv w) {p : DataNode → Bool} {q : AlarmEntry → Bool}
    (hpq : ∀ s e n, (∃ sev : Severity, e.lastSeverity = sev.value) → Mirrors e n → p (s, n) = q e) :
    (listed .alarmList w.edit).countP p = w.alarms.entries.countP fun x => x.2.shelf.isNone && q x.2 := by
  rw [(listed_perm hi .alarmList).countP_eq p, List.countP_map, List.countP_filter]
  refine List.countP_congr ?_
  rintro ⟨k, e⟩ hx
  have he := AssocMap.mem_entries_iff.1 hx
  have hl := (hi.slots k).present e he
  obtain ⟨n, hn, hm⟩ := hl.mirrored
  cases hs : e.shelf with
  | some shelf => simp [Listing.ofShelf]
  | none =>
    rw [hs] at hn
    have hn' : (w.slot k).node .alarmList = some n := hn
    simp only [Function.comp_apply, hn', Option.getD_some, Option.isNone_none, Bool.true_and]
    rw [hpq _ e n hl.severity hm]
    simp [Listing.ofShelf]

theorem hasSeverity_eq (sev : Severity) {s : Step} {e : AlarmEntry} {n : Node}
    (hs : ∃ sev : Severity, e.lastSeverity = sev.value) (hm : Mirrors e n) :
    hasSeverity sev (s, n) = (e.lastSeverity == sev.value) := by
  obtain ⟨sev', hsev'⟩ := hs
  have hleaf : n.leaf .perceivedSeverity = some sev'.name := by rw [hm.perceivedSeverity, hsev', severityName_value]
  rw [hasSeverity, hleaf, hsev', Bool.eq_iff_iff, beq_iff_eq, beq_iff_eq, Option.some_inj]
  exact ⟨fun h => by rw [Severity.name_injective h], fun h => by rw [Severity.value_injective h]⟩

theorem hasCleared_eq (isCleared : Bool) {s : Step} {e : AlarmEntry} {n : Node} (hm : Mirrors e n) :
    hasCleared isCleared (s, n) = (e.isCleared == isCleared) := by
  rw [hasCleared, hm.isCleared]
  cases e.isCleared <;> cases isCleared <;> rfl

theorem published_eq (hi : Inv w) (s : Severity) : published w.edit s = countSeverity w.alarms.entries s :=
  countP_listed hi fun _ _ _ hs hm => hasSeverity_eq s hs hm

theorem publishedCleared_eq (hi : Inv w) (s : Severity) (isCleared : Bool) :
    publishedCleared w.edit s isCleared = w.alarms.entries.countP fun x =>
      x.2.shelf.isNone && (x.2.lastSeverity == s.value && x.2.isCleared == isCleared) :=
  countP_listed (q := fun e => e.lastSeverity == s.value && e.isCleared == isCleared) hi fun _ _ _ hs hm => by
    rw [hasSeverity_eq s hs hm, hasCleared_eq isCleared hm]

omit [Libyang] in
theorem countCleared_eq (alarms : AlarmTable) (s : Severity) :
    (alarms.countP fun x => x.2.shelf.isNone && (x.2.lastSeverity == s.value && x.2.isCleared == true)) =
      countCleared alarms s := by
  refine List.countP_congr fun x _ => ?_
  cases x.2.isCleared <;> simp

omit [Libyang] in
/-- Every alarm of a severity is cleared or not. -/
theorem countSeverity_split (alarms : AlarmTable) (s : Severity) :
    countSeverity alarms s = countCleared alarms s + alarms.countP fun x =>
      x.2.shelf.isNone && (x.2.lastSeverity == s.value && x.2.isCleared == false) := by
  induction alarms with
  | nil => rfl
  | cons x alarms ih =>
    unfold countSeverity countCleared at ih ⊢
    rw [List.countP_cons, List.countP_cons, List.countP_cons, ih]
    cases x.2.isCleared <;> cases x.2.shelf.isNone <;> cases x.2.lastSeverity == s.value <;> simp <;> omega

omit [Libyang] in
/-- Every alarm has one of the five severities. -/
theorem countSeverity_sum {alarms : AlarmTable} (h : RealSeverities alarms) :
    (allSeverities.map (countSeverity alarms)).sum = countListed alarms .alarmList := by
  induction alarms with
  | nil => rfl
  | cons x alarms ih =>
    have ih := ih fun y hy => h y (List.mem_cons_of_mem x hy)
    obtain ⟨s, hs⟩ := h x List.mem_cons_self
    unfold countSeverity countListed at ih ⊢
    simp only [List.countP_cons, hs]
    cases hsh : x.2.shelf with
    | some shelf => simpa [Listing.ofShelf] using ih
    | none =>
      cases s <;> simp [allSeverities, Listing.ofShelf, Severity.value] at ih ⊢ <;> omega

/-- Right statistics of a tree that mirrors the alarms are a recount of its lists. -/
theorem Recounts.of_right (hi : Inv w) (h : World.StatisticsRight w) : Recounts w.edit := by
  have hcleared := fun s => (publishedCleared_eq hi s true).trans (countCleared_eq w.alarms.entries s)
  have hsplit : ∀ s, published w.edit s = publishedCleared w.edit s true + publishedCleared w.edit s false := fun s => by
    rw [published_eq hi, hcleared, publishedCleared_eq hi, countSeverity_split]
  constructor
  · rw [length_listed hi]
    exact h.numberOfAlarms
  · rw [length_listed hi]
    exact h.numberOfShelvedAlarms
  · intro s
    rw [published_eq hi]
    exact h.total s
  · intro s
    rw [hcleared]
    exact h.cleared s
  · intro s
    have hnat : (countSeverity w.alarms.entries s : Int) - countCleared w.alarms.entries s =
        (publishedCleared w.edit s false : Nat) := by
      have hs := hsplit s
      rw [published_eq hi, hcleared] at hs
      omega
    rw [h.notCleared, hnat]
    rfl
  · exact hsplit
  · rw [length_listed hi, ← countSeverity_sum hi.realSeverities]
    exact congrArg List.sum (List.map_congr_left fun s _ => published_eq hi s)

/-! ### What leaves the counts alone -/

/-- What the statistics look at of an alarm. -/
def AlarmEntry.counted (e : AlarmEntry) : Option String × Int × Bool := (e.shelf, e.lastSeverity, e.isCleared)

/-- The alarms are the same so far as the statistics can tell, and the statistics are. -/
structure SameCounts (w w' : World) : Prop where
  alarms : ∀ k, (w'.alarms.lookup k).map AlarmEntry.counted = (w.alarms.lookup k).map AlarmEntry.counted
  statistics : ∀ p ∈ statisticsPaths, w'.edit.find p = w.edit.find p

omit [Libyang] in
theorem SameCounts.countP (h : SameCounts w w') (q : Option String × Int × Bool → Bool) :
    (w'.alarms.entries.countP fun x => q x.2.counted) = w.alarms.entries.countP fun x => q x.2.counted := by
  have hperm := (AssocMap.perm_map h.alarms).countP_eq fun x => q x.2
  rw [List.countP_map, List.countP_map] at hperm
  exact hperm

omit [Libyang] in
theorem SameCounts.of_same (ha : w'.alarms = w.alarms) (he : w'.edit = w.edit) : SameCounts w w' :=
  ⟨fun k => by rw [ha], fun p _ => by rw [he]⟩

omit [Libyang] in
theorem SameCounts.right (hs : SameCounts w w') (h : World.StatisticsRight w) : World.StatisticsRight w' := by
  have hstat : ∀ p ∈ statisticsPaths, World.statistic w'.edit p = World.statistic w.edit p := fun p hp => by
    rw [World.statistic, hs.statistics p hp]
    rfl
  have hseverity : ∀ s : Severity, ∀ p ∈ [summaryPath s.name ++ [⟨.total, []⟩],
      summaryPath s.name ++ [⟨.notCleared, []⟩], summaryPath s.name ++ [⟨.cleared, []⟩]], p ∈ statisticsPaths :=
    fun s p hp => List.mem_append_left _ (List.mem_flatMap.2 ⟨s, mem_allSeverities s, hp⟩)
  have htotals : ∀ p ∈ [Listing.alarmList.path ++ [⟨.numberOfAlarms, []⟩],
      Listing.shelvedAlarms.path ++ [⟨.numberOfShelvedAlarms, []⟩]], p ∈ statisticsPaths := fun p hp => by
    simp only [List.mem_cons, List.not_mem_nil, or_false] at hp
    rcases hp with rfl | rfl <;> simp [statisticsPaths]
  have hcount : ∀ s, countSeverity w'.alarms.entries s = countSeverity w.alarms.entries s :=
    fun s => hs.countP fun x => x.1.isNone && x.2.1 == s.value
  have hcleared : ∀ s, countCleared w'.alarms.entries s = countCleared w.alarms.entries s :=
    fun s => hs.countP fun x => x.1.isNone && x.2.1 == s.value && x.2.2
  have hlisted : ∀ l, countListed w'.alarms.entries l = countListed w.alarms.entries l :=
    fun l => hs.countP fun x => Listing.ofShelf x.1 == l
  constructor
  · intro s
    rw [hstat _ (hseverity s _ (by simp)), hcount]
    exact h.total s
  · intro s
    rw [hstat _ (hseverity s _ (by simp)), hcount, hcleared]
    exact h.notCleared s
  · intro s
    rw [hstat _ (hseverity s _ (by simp)), hcleared]
    exact h.cleared s
  · rw [hstat _ (htotals _ (by simp)), hlisted]
    exact h.numberOfAlarms
  · rw [hstat _ (htotals _ (by simp)), hlisted]
    exact h.numberOfShelvedAlarms

omit [Libyang] in
theorem statisticsRight_congr (h : World.StatisticsRight w) (ha : w'.alarms = w.alarms) (he : w'.edit = w.edit) :
    World.StatisticsRight w' :=
  (SameCounts.of_same ha he).right h

omit [Libyang] in
/-- A loop that changes nothing of an alarm that is counted. -/
theorem SameCounts.foldl {f : World → InstanceKey × AlarmEntry → World}
    {T : InstanceKey × AlarmEntry → Slot → Slot} (hself : ∀ w x, (f w x).slot x.1 = T x (w.slot x.1))
    (hne : ∀ w x k, k ≠ x.1 → (f w x).slot k = w.slot k)
    (hT : ∀ k e s, s.entry = some e → (T (k, e) s).entry.map AlarmEntry.counted = some e.counted)
    (hfind : ∀ p ∈ statisticsPaths, ∀ w x, (f w x).edit.find p = w.edit.find p) :
    SameCounts w (w.alarms.entries.foldl f w) := by
  refine ⟨fun k => ?_, fun p hp => foldl_view (v := fun w : World => w.edit.find p) fun x _ w => hfind p hp w x⟩
  have hslot := congrArg Slot.entry (World.slot_foldl (w := w) hself hne k)
  have hlookup : ((w.alarms.entries.foldl f w).slot k).entry = (w.alarms.entries.foldl f w).alarms.lookup k := rfl
  rw [← hlookup, hslot]
  cases he : w.alarms.lookup k with
  | none => exact congrArg (Option.map AlarmEntry.counted) he
  | some e => exact hT k e (w.slot k) he

theorem counted_trim (limit : Option UInt16) (k : InstanceKey) (e : AlarmEntry) (s : Slot) :
    (s.trim limit (k, e)).entry.map AlarmEntry.counted = some e.counted := by
  show some (e.shrinkStatusChanges limit).1.counted = some e.counted
  rw [AlarmEntry.shrinkStatusChanges_eq]
  rfl

theorem sameCounts_compressed (l : Listing) (filter : AlarmFilter) (w : World) :
    SameCounts w (w.compressed l filter) := by
  refine SameCounts.foldl (World.slot_compress_self l filter) (World.slot_compress_of_ne l filter)
    (fun k e s he => ?_) fun p hp w x => World.find_compress hp l filter w x
  unfold Slot.compress
  split
  · exact counted_trim _ k e s
  · rw [he]
    rfl

theorem sameCounts_shrunk (w : World) : SameCounts w w.shrunk := by
  unfold World.shrunk
  split
  · exact .of_same rfl rfl
  · exact .foldl (World.slot_trim_self _) (World.slot_trim_of_ne _) (fun k e s _ => counted_trim _ k e s)
      fun p hp w x => World.find_trim hp _ w x

/-! ### Runs -/

theorem statisticsRight_reshelved (h : World.StatisticsRight w) (now : TimePoint) (rules : ShelvingRules) :
    World.StatisticsRight (w.reshelved now rules) := by
  cases hany : w.alarms.entries.any (reshelves rules) with
  | true =>
    unfold World.reshelved
    rw [hany]
    exact World.statisticsRight_recount
  | false =>
    rw [World.reshelved_eq_self hany]
    exact statisticsRight_congr h rfl rfl

theorem statisticsRight_controlled (h : World.StatisticsRight w) (now : TimePoint) (changes : List ControlChange)
    (shelving : ShelvingRules) : World.StatisticsRight (w.controlled now changes shelving) := by
  have hscanned : World.StatisticsRight (w.scanned changes) := by
    rw [World.scanned_eq]
    exact statisticsRight_congr h rfl rfl
  have hreshelved : World.StatisticsRight (w.controlReshelved now changes shelving) := by
    unfold World.controlReshelved
    split
    · exact statisticsRight_reshelved hscanned now shelving
    · exact hscanned
  unfold World.controlled
  split
  · exact (sameCounts_shrunk _).right hreshelved
  · exact hreshelved

theorem Effect.statisticsRight (he : Effect w ev w₁) (hf : ¬ ReusesTime ⟨w, ev, w'⟩)
    (h : World.StatisticsRight w) : World.StatisticsRight w₁ := by
  cases he with
  | none => exact h
  | submitted => exact World.statisticsRight_recount
  | submittedPartly ho he hn => exact absurd ⟨_, _, rfl, ho, he, hn⟩ hf
  | purged filter => exact World.statisticsRight_recount
  | compressed => exact (sameCounts_compressed _ _ w).right h
  | scanned =>
    rw [World.scanned_eq]
    exact statisticsRight_congr h rfl rfl
  | controlled => exact statisticsRight_controlled h _ _ _

theorem statisticsRight_of_run (h : DaemonRun b tr w) (hr : ∀ t ∈ tr, ¬ ReusesTime t) : World.StatisticsRight w := by
  refine h.invariant (I := fun tr w => (∀ t ∈ tr, ¬ ReusesTime t) → World.StatisticsRight w)
    (fun w hs _ => hs.boots.statisticsRight) (fun tr w ev w' hrun hi hp hr => ?_) hr
  have hright := hi fun t ht => hr t (List.mem_cons_of_mem _ ht)
  obtain ⟨w₁, he, hs⟩ := (hp.ends (Inv.of_run hrun)).effect
  exact statisticsRight_congr (he.statisticsRight (hr _ List.mem_cons_self) hright) hs.alarms hs.edit

/-- With a working sysrepo the published statistics are a recount of the published lists after every call, as
long as no time is used twice. -/
theorem recounts_of_run (h : DaemonRun b tr w) (hworks : Works tr) (hr : ∀ t ∈ tr, ¬ ReusesTime t) :
    Recounts w.operational := by
  rw [published_of_run h hr hworks]
  exact .of_right (Inv.of_run h) (statisticsRight_of_run h hr)

end

namespace AlarmsTest

theorem recounts_mixed : Recounts (scenario [] mixedCalls).2.operational := by
  obtain ⟨hrun, hclock, hworks⟩ := mixedCalls_run
  exact recounts_of_run hrun hworks fun _ ht => not_reusesTime_of_clean hrun hclock hworks ht

/-- An alarm gets worse at the time at which it was raised, and then another one is compressed. -/
def miscountCalls : List (Call × Env) :=
  [(.compressAlarms .alarmList ⟨some "edfa", none, none⟩, atTime 4),
    (submit "wss" (.active .critical) "Getting worse.", atTime 3),
    (submit "wss" (.active .major) "Hey, I'm overheating.", atTime 3),
    (submit "edfa" (.active .major) "Power is low.", atTime 2),
    (submit "edfa" (.active .minor) "Power is low.", atTime 1)]

theorem miscountCalls_run : DaemonRun (boot []) (scenario [] miscountCalls).1 (scenario [] miscountCalls).2 :=
  daemonRun_scenario (by decide +kernel)

/-- The compression publishes the worse alarm beside the old statistics. -/
theorem not_recounts_miscount :
    ¬ ∀ (b : Boot) (tr : History) (w : World), DaemonRun b tr w → Works tr → Recounts w.operational := by
  intro hall
  have hrecounts := hall _ _ _ miscountCalls_run (works_scenario (by decide +kernel))
  have htotal := hrecounts.total .critical
  revert htotal
  decide +kernel

end AlarmsTest
end IetfAlarms

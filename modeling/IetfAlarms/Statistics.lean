import IetfAlarms.Slots
import Mathlib.Data.List.Induction

/-!
# What `updateStatistics` writes

The loop over the alarms counts (`count_summary`, `count_totals`), and the writes are leaves apart from
each other and from every list entry, so each count reads back and no alarm is touched.
-/

namespace IetfAlarms
open Program DataTree DataTree.Node

/-! ### Counting -/

def allSeverities : List Severity := [.indeterminate, .warning, .minor, .major, .critical]

theorem mem_allSeverities (s : Severity) : s ∈ allSeverities := by cases s <;> decide

abbrev AlarmTable := List (InstanceKey × AlarmEntry)

/-- The alarms in `alarm-list` with this severity. -/
def countSeverity (alarms : AlarmTable) (s : Severity) : Nat :=
  alarms.countP fun x => x.2.shelf.isNone && x.2.lastSeverity == s.value

def countCleared (alarms : AlarmTable) (s : Severity) : Nat :=
  alarms.countP fun x => x.2.shelf.isNone && x.2.lastSeverity == s.value && x.2.isCleared

def countListed (alarms : AlarmTable) (l : Listing) : Nat :=
  alarms.countP fun x => Listing.ofShelf x.2.shelf == l

theorem Listing.ofShelf_eq_alarmList {shelf : Option String} : Listing.ofShelf shelf = alarmList ↔ shelf = none := by
  cases shelf <;> simp [Listing.ofShelf]

theorem Listing.ofShelf_eq_shelvedAlarms {shelf : Option String} :
    Listing.ofShelf shelf = shelvedAlarms ↔ shelf.isSome := by
  cases shelf <;> simp [Listing.ofShelf]

def RealSeverities (alarms : AlarmTable) : Prop := ∀ x ∈ alarms, ∃ s : Severity, x.2.lastSeverity = s.value

theorem Summary.update_severity (s : Severity) (f : PerSeveritySummary → PerSeveritySummary)
    (g : Severity → PerSeveritySummary) :
    Summary.update s.value f (allSeverities.map fun t => (t.value, g t)) =
      allSeverities.map fun t => (t.value, if t = s then f (g t) else g t) := by
  cases s <;> simp [allSeverities, Summary.update, Severity.value]

theorem Severity.value_beq (s t : Severity) : (s.value == t.value) = decide (t = s) := by
  rw [Bool.eq_iff_iff, beq_iff_eq, decide_eq_true_iff]
  exact ⟨fun h => (Severity.value_injective h).symm, fun h => h ▸ rfl⟩

theorem count_summary {alarms : AlarmTable} (h : RealSeverities alarms) (t t' : TimePoint) :
    (alarms.foldl Tally.count (Tally.start t t')).summary =
      allSeverities.map fun s => (s.value, ⟨countSeverity alarms s, countCleared alarms s⟩) := by
  induction alarms using List.reverseRecOn with
  | nil => rfl
  | append_singleton alarms x ih =>
    obtain ⟨s, hs⟩ := h x (List.mem_append_right alarms List.mem_cons_self)
    have ih := ih fun y hy => h y (List.mem_append_left _ hy)
    rw [List.foldl_append, List.foldl_cons, List.foldl_nil, Tally.count]
    cases hsh : x.2.shelf with
    | some shelf => simp [ih, countSeverity, countCleared, hsh]
    | none =>
      simp only [Option.isSome_none, Bool.false_eq_true, if_false, ih, hs]
      cases hc : x.2.isCleared with
      | false =>
        rw [if_neg Bool.false_ne_true, Summary.update_severity]
        refine List.map_congr_left fun u _ => ?_
        by_cases hu : u = s <;>
          simp [countSeverity, countCleared, hsh, hs, hc, hu, Severity.value_beq]
      | true =>
        rw [if_pos rfl, Summary.update_severity, Summary.update_severity]
        refine List.map_congr_left fun u _ => ?_
        by_cases hu : u = s <;>
          simp [countSeverity, countCleared, hsh, hs, hc, hu, Severity.value_beq]

theorem count_totals (alarms : AlarmTable) (t t' : TimePoint) :
    (alarms.foldl Tally.count (Tally.start t t')).totalList = countListed alarms .alarmList ∧
      (alarms.foldl Tally.count (Tally.start t t')).totalShelved = countListed alarms .shelvedAlarms := by
  induction alarms using List.reverseRecOn with
  | nil => exact ⟨rfl, rfl⟩
  | append_singleton alarms x ih =>
    rw [List.foldl_append, List.foldl_cons, List.foldl_nil, Tally.count]
    cases hsh : x.2.shelf <;> simp [ih, countListed, hsh, Listing.ofShelf]

/-! ### The writes -/

def summaryWrites (name : String) (summ : PerSeveritySummary) : List (Path × String) :=
  [(summaryPath name ++ [⟨.total, []⟩], toString summ.total),
    (summaryPath name ++ [⟨.notCleared, []⟩], toString ((summ.total : Int) - summ.cleared)),
    (summaryPath name ++ [⟨.cleared, []⟩], toString summ.cleared)]

theorem exec_writeSummary (s : Severity) (summ : PerSeveritySummary) (n : Node) :
    exec (writeSummary s.value summ) n = (.ok (), n.write (summaryWrites s.name summ)) := by
  rw [writeSummary, severityText_value, exec_ofExcept_ok_bind]
  rfl

variable [Libyang]

def totalWrites (tally : Tally) : List (Path × String) :=
  [(Listing.alarmList.path ++ [⟨.numberOfAlarms, []⟩], toString tally.totalList),
    (Listing.alarmList.path ++ [⟨.lastChanged, []⟩], yangTimeFormat tally.alarmListLastChanged),
    (Listing.shelvedAlarms.path ++ [⟨.numberOfShelvedAlarms, []⟩], toString tally.totalShelved),
    (Listing.shelvedAlarms.path ++ [⟨.shelvedAlarmsLastChanged, []⟩], yangTimeFormat tally.shelfListLastChanged)]

def tallyWrites (summary : Severity → PerSeveritySummary) (tally : Tally) : List (Path × String) :=
  (allSeverities.flatMap fun s => summaryWrites s.name (summary s)) ++ totalWrites tally

theorem exec_writeTally {tally : Tally} {summary : Severity → PerSeveritySummary}
    (h : tally.summary = allSeverities.map fun s => (s.value, summary s)) (n : Node) :
    exec (writeTally tally) n = (.ok (), n.write (tallyWrites summary tally)) := by
  have hloop : ∀ (l : List Severity) (n : Node),
      exec ((l.map fun s => (s.value, summary s)).forM fun x => writeSummary x.1 x.2) n =
        (.ok (), n.write (l.flatMap fun s => summaryWrites s.name (summary s))) := by
    intro l
    induction l with
    | nil => exact fun n => rfl
    | cons s l ih =>
      intro n
      refine (exec_bind_of_ok (exec_writeSummary s (summary s) n) _).trans ?_
      rw [ih, List.flatMap_cons, write_append]
  rw [writeTally, h]
  refine (exec_bind_of_ok (hloop allSeverities n) _).trans ?_
  rw [tallyWrites, write_append]
  rfl

/-- The paths the statistics are written to, whatever they are. -/
def statisticsPaths : List Path :=
  (allSeverities.flatMap fun s => [summaryPath s.name ++ [⟨.total, []⟩],
    summaryPath s.name ++ [⟨.notCleared, []⟩], summaryPath s.name ++ [⟨.cleared, []⟩]]) ++
  [Listing.alarmList.path ++ [⟨.numberOfAlarms, []⟩], Listing.alarmList.path ++ [⟨.lastChanged, []⟩],
    Listing.shelvedAlarms.path ++ [⟨.numberOfShelvedAlarms, []⟩],
    Listing.shelvedAlarms.path ++ [⟨.shelvedAlarmsLastChanged, []⟩]]

theorem tallyWrites_paths (summary : Severity → PerSeveritySummary) (tally : Tally) :
    (tallyWrites summary tally).map Prod.fst = statisticsPaths := rfl

omit [Libyang] in
theorem statisticsPaths_apart : statisticsPaths.Pairwise Apart := by decide +kernel

omit [Libyang] in
/-- The statistics lie apart from the entries of the two lists. -/
theorem statisticsPaths_apart_entry {p : Path} (hp : p ∈ statisticsPaths) {l : Listing} {s : Step}
    (hs : s.name = l.entry) (q : Path) : Apart p (l.path ++ s :: q) := by
  have hsum : ∀ name leaf, Apart (summaryPath name ++ [⟨leaf, []⟩]) (l.path ++ s :: q) := fun name leaf => by
    have hne : (⟨.summary, []⟩ : Step) ≠ ⟨l.container, []⟩ := by cases l <;> decide
    exact apart_append_cons hne [⟨.alarms, []⟩] _ (s :: q)
  have hleaf : ∀ (l' : Listing) (a : Schema), a ≠ l.entry → Apart (l'.path ++ [⟨a, []⟩]) (l.path ++ s :: q) :=
    fun l' a ha => apart_listEntry (.inr fun heq => ha ((congrArg Step.name heq).trans hs)) [] q
  rw [statisticsPaths, List.mem_append, List.mem_flatMap] at hp
  rcases hp with ⟨t, -, hp⟩ | hp
  · simp only [List.mem_cons, List.not_mem_nil, or_false] at hp
    rcases hp with rfl | rfl | rfl <;> exact hsum _ _
  · simp only [List.mem_cons, List.not_mem_nil, or_false] at hp
    rcases hp with rfl | rfl | rfl | rfl <;> refine hleaf _ _ ?_ <;> cases l <;> decide

/-! ### Recounting -/

namespace World
variable {w : World}

def tally (w : World) : Tally :=
  w.alarms.entries.foldl Tally.count (Tally.start w.alarmListLastChanged w.shelfListLastChanged)

def summary (w : World) (s : Severity) : PerSeveritySummary :=
  ⟨countSeverity w.alarms.entries s, countCleared w.alarms.entries s⟩

/-- The state after `updateStatistics`. -/
def recount (w : World) : World := { w with
  alarmListLastChanged := w.tally.alarmListLastChanged
  shelfListLastChanged := w.tally.shelfListLastChanged
  edit := w.edit.write (tallyWrites w.summary w.tally) }

theorem exec_updateStatistics (h : RealSeverities w.alarms.entries) :
    exec updateStatistics w = (.ok (), w.recount) := by
  have hs : w.tally.summary = allSeverities.map fun s => (s.value, w.summary s) := count_summary h _ _
  rw [updateStatistics, exec_get_bind, exec_modify_bind]
  exact exec_onEdit_of_eq (exec_writeTally hs _)

theorem find_recount {l : Listing} {s : Step} (hs : s.name = l.entry) (q : Path) :
    w.recount.edit.find (l.path ++ s :: q) = w.edit.find (l.path ++ s :: q) := by
  refine find_write_of_apart (fun p hp => ?_) w.edit
  rw [tallyWrites_paths] at hp
  exact statisticsPaths_apart_entry hp hs q

theorem slot_recount (k : InstanceKey) : w.recount.slot k = w.slot k :=
  slot_eq rfl fun _ => find_recount rfl []

theorem wf_recount (h : w.edit.WF) : w.recount.edit.WF := h.write _

/-! ### Right statistics -/

/-- A leaf of the published statistics. -/
def statistic (edit : Node) (p : Path) : Option String := (edit.find p).bind value

/-- The counts in the tree are those of the alarms. -/
structure StatisticsRight (w : World) : Prop where
  total : ∀ s : Severity, statistic w.edit (summaryPath s.name ++ [⟨.total, []⟩]) =
    some (toString (countSeverity w.alarms.entries s))
  notCleared : ∀ s : Severity, statistic w.edit (summaryPath s.name ++ [⟨.notCleared, []⟩]) =
    some (toString ((countSeverity w.alarms.entries s : Int) - countCleared w.alarms.entries s))
  cleared : ∀ s : Severity, statistic w.edit (summaryPath s.name ++ [⟨.cleared, []⟩]) =
    some (toString (countCleared w.alarms.entries s))
  numberOfAlarms : statistic w.edit (Listing.alarmList.path ++ [⟨.numberOfAlarms, []⟩]) =
    some (toString (countListed w.alarms.entries .alarmList))
  numberOfShelvedAlarms : statistic w.edit (Listing.shelvedAlarms.path ++ [⟨.numberOfShelvedAlarms, []⟩]) =
    some (toString (countListed w.alarms.entries .shelvedAlarms))

theorem statistic_recount {p : Path} {v : String} (h : (p, v) ∈ tallyWrites w.summary w.tally) :
    statistic w.recount.edit p = some v :=
  value_write (by rw [tallyWrites_paths]; exact statisticsPaths_apart) h w.edit

theorem statisticsRight_recount : StatisticsRight w.recount := by
  have hmem : ∀ (s : Severity) x, x ∈ summaryWrites s.name (w.summary s) → x ∈ tallyWrites w.summary w.tally :=
    fun s x hx => List.mem_append_left _ (List.mem_flatMap.2 ⟨s, mem_allSeverities s, hx⟩)
  have htotal : ∀ s : Severity, (summaryPath s.name ++ [⟨.total, []⟩],
      toString (countSeverity w.alarms.entries s)) ∈ summaryWrites s.name (w.summary s) :=
    fun s => List.mem_cons_self
  have hnot : ∀ s : Severity, (summaryPath s.name ++ [⟨.notCleared, []⟩],
      toString ((countSeverity w.alarms.entries s : Int) - countCleared w.alarms.entries s)) ∈
        summaryWrites s.name (w.summary s) :=
    fun s => List.mem_cons_of_mem _ List.mem_cons_self
  have hcleared : ∀ s : Severity, (summaryPath s.name ++ [⟨.cleared, []⟩],
      toString (countCleared w.alarms.entries s)) ∈ summaryWrites s.name (w.summary s) :=
    fun s => List.mem_cons_of_mem _ (List.mem_cons_of_mem _ List.mem_cons_self)
  have hcount := count_totals w.alarms.entries w.alarmListLastChanged w.shelfListLastChanged
  have hlist : (Listing.alarmList.path ++ [⟨.numberOfAlarms, []⟩],
      toString (countListed w.alarms.entries .alarmList)) ∈ totalWrites w.tally := by
    rw [← hcount.1]
    exact List.mem_cons_self
  have hshelved : (Listing.shelvedAlarms.path ++ [⟨.numberOfShelvedAlarms, []⟩],
      toString (countListed w.alarms.entries .shelvedAlarms)) ∈ totalWrites w.tally := by
    rw [← hcount.2]
    exact List.mem_cons_of_mem _ (List.mem_cons_of_mem _ List.mem_cons_self)
  have ha : w.recount.alarms = w.alarms := rfl
  constructor
  · exact fun s => ha ▸ statistic_recount (hmem s _ (htotal s))
  · exact fun s => ha ▸ statistic_recount (hmem s _ (hnot s))
  · exact fun s => ha ▸ statistic_recount (hmem s _ (hcleared s))
  · exact ha ▸ statistic_recount (List.mem_append_right _ hlist)
  · exact ha ▸ statistic_recount (List.mem_append_right _ hshelved)

end World
end IetfAlarms

import IetfAlarms.History

/-!
# Indices into the table of severities

The remembered severity of an alarm is always one of the five. So no call fails the assertion of
`updateByRpc`, and wherever a call indexes `Severities` it does so with one of the severities, not with the
dummy at the front and not beyond the end.
-/

namespace IetfAlarms
open Program Trace DataTree DataTree.Node

/-- One of the five severities of alarms. -/
def IsSeverity (i : Int) : Prop := 2 ≤ i ∧ i ≤ 6

/-- One of the severities in the table, `cleared` among them. -/
def IsIndex (i : Int) : Prop := 1 ≤ i ∧ i ≤ 6

theorem isSeverity_iff {i : Int} : IsSeverity i ↔ ∃ s : Severity, i = s.value := by
  unfold IsSeverity
  constructor
  · rintro ⟨h1, h2⟩
    have hi : i = 2 ∨ i = 3 ∨ i = 4 ∨ i = 5 ∨ i = 6 := by omega
    rcases hi with rfl | rfl | rfl | rfl | rfl
    · exact ⟨.indeterminate, rfl⟩
    · exact ⟨.warning, rfl⟩
    · exact ⟨.minor, rfl⟩
    · exact ⟨.major, rfl⟩
    · exact ⟨.critical, rfl⟩
  · rintro ⟨s, rfl⟩
    cases s <;> decide

theorem IsSeverity.isIndex {i : Int} (h : IsSeverity i) : IsIndex i := by
  obtain ⟨h1, h2⟩ := h
  exact ⟨by omega, h2⟩

section
variable [Libyang] {b : Boot} {w : World} {env : Env} {input : AlarmInput} {tr : History}

/-- The indices of `submitAlarm` and `updateStatusChangeList` when they publish an alarm. -/
def publishIndices (entry : AlarmEntry) : List Int :=
  [entry.lastSeverity, if entry.isCleared then clearedSeverity else entry.lastSeverity]

/-- The indices of `updateStatistics` in this state. -/
def statisticsIndices (w : World) : List Int := w.tally.summary.map Prod.fst

/-- The severities of the state, and those at which every call from it indexes the table. -/
structure SeveritiesReal (w : World) : Prop where
  stored : ∀ k e, w.alarms.lookup k = some e → IsSeverity e.lastSeverity
  updated : ∀ (env : Env) (input : AlarmInput) (shelf : Option String),
    alreadyCleared w.alarms (InstanceKey.fromNode input) input.isClearedNow = false →
    ∃ entry what, ((w.alarms.lookup (InstanceKey.fromNode input)).getD .new).updateByRpc
        (w.alarms.lookup (InstanceKey.fromNode input)).isSome env.now input shelf w.notifyStatusChanges
        w.notifySeverityThreshold w.maxAlarmStatusChanges env.unset = .ok (entry, what) ∧
      IsSeverity entry.lastSeverity ∧ (∀ i ∈ publishIndices entry, IsIndex i) ∧
      ∀ i ∈ statisticsIndices { w with alarms := w.alarms.set (InstanceKey.fromNode input) entry }, IsSeverity i
  purged : ∀ l filter n w₁, exec (w.alarms.entries.foldlM (purgeAlarm l filter) 0) w = (.ok n, w₁) →
    ∀ i ∈ statisticsIndices w₁, IsSeverity i
  reshelved : ∀ now shelving change w₁,
    exec (w.alarms.entries.foldlM (reshelveAlarm now shelving) false) { w with shelvingRules := some shelving } =
      (.ok change, w₁) → ∀ i ∈ statisticsIndices w₁, IsSeverity i
  defined : ∀ env call f, (exec (Call.run env call) w).1 = .error f → f ≠ .assertion ∧ f ≠ .outOfRange

/-! ### Statistics -/

omit [Libyang] in
theorem statisticsIndices_of_real (h : RealSeverities w.alarms.entries) : ∀ i ∈ statisticsIndices w, IsSeverity i := by
  intro i hi
  have hs : w.tally.summary = _ := count_summary h _ _
  rw [statisticsIndices, hs, List.map_map] at hi
  obtain ⟨s, -, rfl⟩ := List.mem_map.1 hi
  exact isSeverity_iff.2 ⟨s, rfl⟩

omit [Libyang] in
theorem RealSeverities.set (h : RealSeverities w.alarms.entries) (k : InstanceKey) {e : AlarmEntry}
    (he : ∃ s : Severity, e.lastSeverity = s.value) : RealSeverities (w.alarms.set k e).entries := by
  rintro ⟨k', e'⟩ hx
  have hl := AssocMap.mem_entries_iff.1 hx
  rw [AssocMap.lookup_set] at hl
  split at hl
  · obtain rfl := Option.some.inj hl
    exact he
  · exact h (k', e') (AssocMap.mem_entries_iff.2 hl)

/-! ### Submissions -/

omit [Libyang] in
theorem publishIndices_real {e : AlarmEntry} (h : IsSeverity e.lastSeverity) : ∀ i ∈ publishIndices e, IsIndex i := by
  intro i hi
  simp only [publishIndices, List.mem_cons, List.not_mem_nil, or_false] at hi
  rcases hi with rfl | rfl
  · exact h.isIndex
  · split
    · exact ⟨by decide, by decide⟩
    · exact h.isIndex

/-- Past the guard of `submitAlarm` the update succeeds, and the placeholder for the severity is gone. -/
theorem updateByRpc_severity (hi : Inv w) (env : Env) (shelf : Option String)
    (hc : alreadyCleared w.alarms (InstanceKey.fromNode input) input.isClearedNow = false) :
    ∃ entry what, ((w.alarms.lookup (InstanceKey.fromNode input)).getD .new).updateByRpc
        (w.alarms.lookup (InstanceKey.fromNode input)).isSome env.now input shelf w.notifyStatusChanges
        w.notifySeverityThreshold w.maxAlarmStatusChanges env.unset = .ok (entry, what) ∧
      ∃ s : Severity, entry.lastSeverity = s.value := by
  cases hch : AlarmEntry.changes (w.alarms.lookup (InstanceKey.fromNode input)) input with
  | true =>
    refine ⟨_, _, AlarmEntry.updateByRpc_of_changes env.now shelf w.notifyStatusChanges w.notifySeverityThreshold
      w.maxAlarmStatusChanges env.unset (raised_of_clear hc) hch, ?_⟩
    rw [AlarmEntry.shrinkStatusChanges_eq]
    show ∃ s : Severity, AlarmEntry.nextSeverity (AlarmEntry.orFresh _ _ _).lastSeverity input.severity = s.value
    cases hs : input.severity with
    | active s => exact ⟨s, rfl⟩
    | cleared =>
      obtain ⟨e, he, -⟩ := raised_of_clear hc hs
      rw [he]
      exact ((hi.slots _).present e he).severity
  | false =>
    cases he : w.alarms.lookup (InstanceKey.fromNode input) with
    | none =>
      rw [he] at hch
      cases hch
    | some e =>
      rw [he] at hch
      have hraised : input.severity = .cleared → e.isCleared = false := fun hs => by
        obtain ⟨e', he', hraised⟩ := raised_of_clear hc hs
        obtain rfl := Option.some.inj (he.symm.trans he')
        exact hraised
      obtain ⟨what, hupdate, -⟩ := AlarmEntry.updateByRpc_of_not_changes env.now shelf w.notifyStatusChanges
        w.notifySeverityThreshold w.maxAlarmStatusChanges env.unset hraised hch
      exact ⟨e, what, hupdate, ((hi.slots _).present e he).severity⟩

/-! ### Failures -/

/-- Neither a failed assertion nor an index out of bounds. -/
def Failure.InTable (f : Failure) : Prop := f ≠ .assertion ∧ f ≠ .outOfRange

omit [Libyang] in
theorem Failure.inTable_of_defined {f : Failure} (h : f.isUndefined = false) : f.InTable := by
  constructor <;> rintro rfl <;> cases h

omit [Libyang] in
theorem inTable_of_written {reply : Reply} {f : Failure} (h : (written env w reply).1 = .error f) : f.InTable := by
  unfold written at h
  split at h
  · cases h
    exact Failure.inTable_of_defined rfl
  · cases h

omit [Libyang] in
theorem inTable_of_writtenAndNotified {α : Type} {a : α} {n : Option Notification} {f : Failure}
    (h : (writtenAndNotified env a w n).1 = .error f) : f.InTable := by
  unfold writtenAndNotified at h
  split at h
  · cases h
    exact Failure.inTable_of_defined rfl
  · split at h
    · cases h
    · split at h
      · cases h
        exact Failure.inTable_of_defined rfl
      · cases h

theorem inTable_of_endsIn {limit : Option UInt16} {w₀ : World} {m : DaemonM Reply}
    {r : Except Failure Reply × World} (h : EndsIn limit w w₀ m r) (hr : ∀ f, r.1 = .error f → f.InTable)
    {f : Failure} (hf : (exec m w).1 = .error f) : f.InTable := by
  rcases h with h | ⟨w', h, -⟩
  · rw [h] at hf
    exact hr f hf
  · rw [h] at hf
    cases hf
    exact ⟨Failure.noConfusion, Failure.noConfusion⟩

theorem SubmitResult.inTable {x : Except Failure Reply × World} {f : Failure} (h : SubmitResult env input w x)
    (hf : x.1 = .error f) : f.InTable := by
  cases h with
  | refused _ _ hd _ => exact Failure.inTable_of_defined (hd f hf)
  | idle => cases hf
  | clash =>
    cases hf
    exact Failure.inTable_of_defined rfl
  | undefined =>
    cases hf
    exact ⟨Failure.noConfusion, Failure.noConfusion⟩
  | changed => exact inTable_of_writtenAndNotified hf

/-- No call fails the assertion or leaves the table. -/
theorem Call.inTable (hi : Inv w) (env : Env) (call : Call) {f : Failure}
    (hf : (exec (call.run env) w).1 = .error f) : f.InTable := by
  cases call with
  | createOrUpdateAlarm o input =>
    by_cases ho : Served o
    · exact (exec_createOrUpdateAlarm hi ho).inTable hf
    · obtain ⟨reply, -, hreply⟩ := exec_createOrUpdateAlarm_of_not_served ho env input w
      have hok := hf.symm.trans (congrArg Prod.fst hreply)
      cases hok
  | purgeAlarms l input =>
    have hex : exec (Call.run env (.purgeAlarms l input)) w = purgeResult env l input w := exec_purgeAlarms hi l input
    rw [hex] at hf
    unfold purgeResult at hf
    split at hf
    · rename_i f' hfilter
      cases hf
      unfold purgeFilter at hfilter
      simp only at hfilter
      split at hfilter
      · cases hfilter
      · cases hfilter
        exact Failure.inTable_of_defined rfl
    · simp only at hf
      split at hf
      · cases hf
      · exact inTable_of_written hf
  | compressAlarms l input =>
    refine inTable_of_endsIn (exec_compressAlarms env hi l input) (fun f' hf' => ?_) hf
    unfold compressResult at hf'
    simp only at hf'
    split at hf'
    · cases hf'
    · exact inTable_of_written hf'
  | controlChanged changes shelving =>
    refine inTable_of_endsIn (exec_controlChanged env hi changes shelving) (fun f' hf' => ?_) hf
    unfold controlResult at hf'
    split at hf'
    · cases hf'
      exact Failure.inTable_of_defined rfl
    · split at hf'
      · exact inTable_of_written hf'
      · cases hf'
  | inventoryChanged inventory =>
    have hex : exec (Call.run env (.inventoryChanged inventory)) w = inventoryResult env inventory w :=
      exec_inventoryChanged inventory
    rw [hex] at hf
    unfold inventoryResult at hf
    split at hf
    · cases hf
      exact Failure.inTable_of_defined rfl
    · cases hf

/-- Whatever has happened before, severities are real and every index into the table is one of them. -/
theorem severitiesReal_of_run (h : DaemonRun b tr w) : SeveritiesReal w := by
  have hi := Inv.of_run h
  constructor
  · intro k e he
    exact isSeverity_iff.2 ((hi.slots k).present e he).severity
  · intro env input shelf hc
    obtain ⟨entry, what, hupdate, hreal⟩ := updateByRpc_severity hi env shelf hc
    have hs := isSeverity_iff.2 hreal
    exact ⟨entry, what, hupdate, hs, publishIndices_real hs,
      statisticsIndices_of_real (hi.realSeverities.set (InstanceKey.fromNode input) hreal)⟩
  · intro l filter n w₁ hex
    rw [exec_purgeLoop hi] at hex
    obtain ⟨-, rfl⟩ := Prod.mk.inj hex
    exact statisticsIndices_of_real (hi.purge l filter).realSeverities
  · intro now shelving change w₁ hex
    rw [exec_reshelveLoop hi] at hex
    obtain ⟨-, rfl⟩ := Prod.mk.inj hex
    exact statisticsIndices_of_real (hi.reshelve now shelving).realSeverities
  · intro env call f hf
    exact Call.inTable hi env call hf

end

namespace AlarmsTest

theorem severitiesReal_mixed : SeveritiesReal (scenario [] mixedCalls).2 := severitiesReal_of_run mixedCalls_run.1

end AlarmsTest
end IetfAlarms

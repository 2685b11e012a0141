import IetfAlarms.InventoryCache

/-!
# The threads around the cached inventory

The inventory is committed by others at any time. The thread of `m_inventorySub` is told afterwards and sets
`m_inventoryDirty`; the thread of `m_alarmSub` reads the inventory again, entry by entry, in the next call of
`submitAlarm`. Here both go on one step at a time, in any order. The flag is cleared last, so that a call
validates against the commits that it has been told of, or later ones (`Coherent`).
-/

namespace IetfAlarms
open Program Trace

/-! ### Calls of `submitAlarm` -/

/-- A call that takes `m_mtx`: it is answered, and its alarm has an XPath. Whether `getData` throws is a step
of its own. -/
structure SubmitCall where
  originatorName : String
  input : AlarmInput
  env : Env
  keyXPath : String
  served : Served originatorName
  xpathIndex_eq : (InstanceKey.fromNode input).xpathIndex = .ok keyXPath
  getData_works : env.getDataThrows = false

namespace SubmitCall

/-- `inventoryValidationError` for the call's alarm and severity. -/
def validationError (call : SubmitCall) (index : AssocMap AlarmType InventoryData) : Except Failure (Option String) :=
  inventoryValidationError index (InstanceKey.fromNode call.input) call.input.severity.value

variable [Libyang]

/-- `submitAlarm` from the result of the validation on. -/
def conclude (call : SubmitCall) (inventoryError : Except Failure (Option String)) : DaemonM Reply := do
  let w ← get
  match ← ofExcept inventoryError with
  | some message =>
    return .operationFailed ⟨"application", "data-missing", message ++ " -- see RFC8632 (sec. 4.1)."⟩
  | none =>
    if alreadyCleared w.alarms (InstanceKey.fromNode call.input) call.input.isClearedNow then
      return .ok
    else
      updateAlarm call.env call.input (InstanceKey.fromNode call.input) call.keyXPath
      return .ok

theorem createOrUpdateAlarm_eq (call : SubmitCall) : createOrUpdateAlarm call.env call.originatorName call.input = (do
    refreshInventory call.env
    let w ← get
    call.conclude (call.validationError w.inventory)) := by
  rw [createOrUpdateAlarm, if_neg (Bool.eq_false_iff.1 call.served)]
  unfold submitAlarm
  simp only [call.xpathIndex_eq]
  refine congrArg (refreshInventory call.env >>= ·) (funext fun _ => funext fun w => ?_)
  rfl

/-- The whole call at once: what is left of it, once the inventory is up to date. -/
theorem exec_createOrUpdateAlarm (call : SubmitCall) (w : World) :
    exec (createOrUpdateAlarm call.env call.originatorName call.input) w =
      exec (call.conclude (call.validationError w.refreshed.inventory)) w.refreshed := by
  have hrefresh : exec (refreshInventory call.env) w = (.ok (), w.refreshed) := by
    rw [exec_refreshInventory, call.getData_works, Bool.and_false]
    rfl
  rw [call.createOrUpdateAlarm_eq, exec_bind_of_ok hrefresh, exec_get_bind]

theorem commutes_conclude (call : SubmitCall) (inventoryError : Except Failure (Option String)) (dirty : Bool)
    (index : AssocMap AlarmType InventoryData) (data : List InventoryEntry) :
    Commutes (World.withCache dirty index data) (call.conclude inventoryError) := by
  refine .get_bind (fun _ => rfl) fun w => (commutes_ofExcept inventoryError).bind fun message => ?_
  rcases message with _ | message
  · exact .ite (commutes_pure _) (.bind (commutes_updateAlarm _ _ _ _) fun _ => commutes_pure _)
  · exact commutes_pure _

end SubmitCall

/-! ### The steps of the threads -/

/-- The threads that take `m_mtx`. -/
inductive Thread
  | alarmSub | inventorySub
deriving DecidableEq

/-- Where the thread of `m_alarmSub` is in `submitAlarm`. -/
inductive AlarmPhase
  | idle
  /-- Before the test of `m_inventoryDirty`. -/
  | locked (call : SubmitCall)
  /-- `getData` has returned. -/
  | fetched (call : SubmitCall) (data : List InventoryEntry)
  /-- `m_inventory` is cleared, these entries are still to come. -/
  | rebuilding (call : SubmitCall) (data rest : List InventoryEntry)
  /-- Before the call of `inventoryValidationError`. -/
  | refreshed (call : SubmitCall)
  | validated (call : SubmitCall) (inventoryError : Except Failure (Option String))

/-- It holds `m_mtx`. -/
def AlarmPhase.holds : AlarmPhase → Bool
  | idle => false
  | _ => true

/-- Where the thread of `m_inventorySub` is in the callback for a commit. -/
inductive CallbackPhase
  | idle
  | locked (commit : Nat)
  | marked (commit : Nat)
  /-- `m_mtx` is released, the notification is not sent yet. -/
  | released (commit : Nat)

namespace CallbackPhase

/-- It holds `m_mtx`. -/
def holds : CallbackPhase → Bool
  | locked _ => true
  | marked _ => true
  | _ => false

def commit? : CallbackPhase → Option Nat
  | idle => none
  | locked c => some c
  | marked c => some c
  | released c => some c

end CallbackPhase

/-- The daemon, the inventories committed so far, and the commits whose callbacks are due. -/
structure Threads where
  world : World
  commits : List (List InventoryEntry)
  pending : List Nat
  mutex : Option Thread
  alarm : AlarmPhase
  callback : CallbackPhase

inductive ThreadAction
  | commit (inventory : List InventoryEntry)
  | callbackLock (commit : Nat)
  | callbackMark
  | callbackUnlock (commit : Nat)
  | callbackNotify (env : Env)
  | submitLock (call : SubmitCall)
  | fetch
  | abandon
  | clear
  | emplace
  | rebuilt
  | upToDate
  | validate (call : SubmitCall) (inventoryError : Except Failure (Option String))
  | submitUnlock (ev : Event)
  | serve (ev : Event)

section
variable [Libyang]

/-- The event of a call that is through. -/
def SubmitCall.event (call : SubmitCall) (outcome : Except Failure Reply) : Event :=
  ⟨.createOrUpdateAlarm call.originatorName call.input, call.env, outcome⟩

/-- One step of one thread, or a commit. -/
inductive ThreadStep (s : Threads) : ThreadAction → Threads → Prop
  | commit (inventory : List InventoryEntry) : ThreadStep s (.commit inventory) { s with
      world := { s.world with inventoryData := inventory }
      commits := s.commits ++ [inventory]
      pending := s.pending ++ [s.commits.length] }
  | callbackLock {c : Nat} {rest : List Nat} : s.pending = c :: rest → s.callback = .idle → s.mutex = none →
      ThreadStep s (.callbackLock c) { s with pending := rest, mutex := some .inventorySub, callback := .locked c }
  | callbackMark {c : Nat} : s.callback = .locked c →
      ThreadStep s .callbackMark { s with world := { s.world with inventoryDirty := true }, callback := .marked c }
  | callbackUnlock {c : Nat} : s.callback = .marked c →
      ThreadStep s (.callbackUnlock c) { s with mutex := none, callback := .released c }
  | callbackNotify {c : Nat} {env : Env} {r : Except Failure Unit} {w : World} : s.callback = .released c →
      exec (sendNotification env .alarmInventoryChanged) s.world = (r, w) →
      ThreadStep s (.callbackNotify env) { s with world := w, callback := .idle }
  | submitLock (call : SubmitCall) : s.alarm = .idle → s.mutex = none →
      ThreadStep s (.submitLock call) { s with mutex := some .alarmSub, alarm := .locked call }
  | fetch {call : SubmitCall} : s.alarm = .locked call → s.world.inventoryDirty = true →
      ThreadStep s .fetch { s with alarm := .fetched call s.world.inventoryData }
  /-- `getData` throws. -/
  | fetchThrows {call : SubmitCall} : s.alarm = .locked call → s.world.inventoryDirty = true →
      ThreadStep s .abandon { s with mutex := none, alarm := .idle }
  | clear {call : SubmitCall} {data : List InventoryEntry} : s.alarm = .fetched call data →
      ThreadStep s .clear { s with
        world := { s.world with inventory := .empty }, alarm := .rebuilding call data data }
  | emplace {call : SubmitCall} {data rest : List InventoryEntry} {entry : InventoryEntry} :
      s.alarm = .rebuilding call data (entry :: rest) →
      ThreadStep s .emplace { s with
        world := { s.world with inventory := emplaceInventory s.world.inventory entry }
        alarm := .rebuilding call data rest }
  /-- An exception leaves `rebuildInventory` half way. -/
  | rebuildThrows {call : SubmitCall} {data rest : List InventoryEntry} : s.alarm = .rebuilding call data rest →
      ThreadStep s .abandon { s with mutex := none, alarm := .idle }
  | rebuilt {call : SubmitCall} {data : List InventoryEntry} : s.alarm = .rebuilding call data [] →
      ThreadStep s .rebuilt { s with world := { s.world with inventoryDirty := false }, alarm := .refreshed call }
  | upToDate {call : SubmitCall} : s.alarm = .locked call → s.world.inventoryDirty = false →
      ThreadStep s .upToDate { s with alarm := .refreshed call }
  | validate {call : SubmitCall} : s.alarm = .refreshed call →
      ThreadStep s (.validate call (call.validationError s.world.inventory))
        { s with alarm := .validated call (call.validationError s.world.inventory) }
  | submitUnlock {call : SubmitCall} {inventoryError : Except Failure (Option String)} {r : Except Failure Reply}
      {w : World} : s.alarm = .validated call inventoryError → exec (call.conclude inventoryError) s.world = (r, w) →
      (∀ f, r = .error f → f.isUndefined = false) →
      ThreadStep s (.submitUnlock (call.event r)) { s with world := w, mutex := none, alarm := .idle }
  /-- The other calls of this thread, which hold `m_mtx` from their start to their end. -/
  | serve {ev : Event} {w : World} : s.alarm = .idle → s.mutex = none → ev.call.IgnoresCache →
      Performs s.world ev w → ThreadStep s (.serve ev) { s with world := w }

/-- The constructor returned; it ran the callback for the inventory that it found, commit 0. -/
structure ThreadsStart (b : Boot) (s : Threads) : Prop where
  started : Started b s.world
  commits : s.commits = [b.inventory]
  pending : s.pending = []
  mutex : s.mutex = none
  alarm : s.alarm = .idle
  callback : s.callback = .idle

abbrev ThreadHistory := List (Transition Threads ThreadAction)

/-- A run of the threads and of the commits, in any order of their steps. -/
abbrev ThreadsRun (b : Boot) : ThreadHistory → Threads → Prop := Run (ThreadsStart b) ThreadStep

/-! ### What the cache shows -/

/-- The callback for this commit has released `m_mtx`. -/
def Released (c : Nat) (tr : ThreadHistory) : Prop := ∃ t ∈ tr, t.label = .callbackUnlock c

/-- An inventory as of a commit that none of the released callbacks is later than. -/
def Current (tr : ThreadHistory) (commits : List (List InventoryEntry)) (inventory : List InventoryEntry) : Prop :=
  ∃ v, commits[v]? = some inventory ∧ ∀ c, Released c tr → c ≤ v

/-- What the thread of `m_alarmSub` knows of the flag and the index. -/
def AlarmPhase.Knows (tr : ThreadHistory) (commits : List (List InventoryEntry)) (dirty : Bool)
    (index : AssocMap AlarmType InventoryData) : AlarmPhase → Prop
  | idle => True
  | locked _ => True
  | fetched _ data => dirty = true ∧ Current tr commits data
  | rebuilding _ data rest =>
    dirty = true ∧ Current tr commits data ∧ ∃ built, data = built ++ rest ∧ index = indexOf built
  | refreshed _ => dirty = false
  | validated call inventoryError => dirty = false ∧ inventoryError = call.validationError index

/-- The mutex excludes, and what is not marked as dirty is current. -/
structure Coherent (tr : ThreadHistory) (s : Threads) : Prop where
  latest : s.commits.getLast? = some s.world.inventoryData
  alarmHolds : s.alarm.holds = true ↔ s.mutex = some .alarmSub
  callbackHolds : s.callback.holds = true ↔ s.mutex = some .inventorySub
  due : ∀ c, c ∈ s.pending ∨ s.callback.commit? = some c ∨ Released c tr → c < s.commits.length
  marked : ∀ c, s.callback = .marked c → s.world.inventoryDirty = true
  clean : s.world.inventoryDirty = false → ∃ data, Current tr s.commits data ∧ s.world.inventory = indexOf data
  knows : s.alarm.Knows tr s.commits s.world.inventoryDirty s.world.inventory

section
variable {b : Boot} {tr : ThreadHistory} {s s' : Threads} {t : Transition Threads ThreadAction} {a : ThreadAction} {c : Nat}
variable {commits : List (List InventoryEntry)} {inventory : List InventoryEntry}

omit [Libyang]

theorem released_cons : Released c (t :: tr) ↔ t.label = .callbackUnlock c ∨ Released c tr := by
  unfold Released
  rw [List.exists_mem_cons_iff]

theorem released_cons_of_ne (h : ∀ c, t.label ≠ .callbackUnlock c) : Released c (t :: tr) ↔ Released c tr := by
  rw [released_cons, or_iff_right (h c)]

theorem Current.congr (h : Current tr commits inventory) {tr' : ThreadHistory}
    (hr : ∀ c, Released c tr' → Released c tr) : Current tr' commits inventory := by
  obtain ⟨v, hv, hc⟩ := h
  exact ⟨v, hv, fun c hrel => hc c (hr c hrel)⟩

theorem Current.append (h : Current tr commits inventory) (inventory' : List InventoryEntry) :
    Current tr (commits ++ [inventory']) inventory := by
  obtain ⟨v, hv, hc⟩ := h
  have hlt : v < commits.length := (List.getElem?_eq_some_iff.1 hv).1
  exact ⟨v, (List.getElem?_append_left hlt).trans hv, hc⟩

namespace AlarmPhase
variable {phase : AlarmPhase} {dirty : Bool} {index : AssocMap AlarmType InventoryData}

theorem Knows.congr (h : phase.Knows tr commits dirty index) {tr' : ThreadHistory}
    (hr : ∀ c, Released c tr' → Released c tr) : phase.Knows tr' commits dirty index := by
  cases phase with
  | idle => trivial
  | locked call => trivial
  | fetched call data => exact ⟨h.1, h.2.congr hr⟩
  | rebuilding call data rest => exact ⟨h.1, h.2.1.congr hr, h.2.2⟩
  | refreshed call => exact h
  | validated call inventoryError => exact h

theorem Knows.append (h : phase.Knows tr commits dirty index) (inventory : List InventoryEntry) :
    phase.Knows tr (commits ++ [inventory]) dirty index := by
  cases phase with
  | idle => trivial
  | locked call => trivial
  | fetched call data => exact ⟨h.1, h.2.append inventory⟩
  | rebuilding call data rest => exact ⟨h.1, h.2.1.append inventory, h.2.2⟩
  | refreshed call => exact h
  | validated call inventoryError => exact h

theorem knows_of_not_holds (h : phase.holds = false) : phase.Knows tr commits dirty index := by
  cases phase with
  | idle => trivial
  | locked call => cases h
  | fetched call data => cases h
  | rebuilding call data rest => cases h
  | refreshed call => cases h
  | validated call inventoryError => cases h

end AlarmPhase

namespace Coherent

/-- A step that releases nothing only makes the history longer. -/
theorem cons (hi : Coherent tr s) (h : ∀ c, t.label ≠ .callbackUnlock c) : Coherent (t :: tr) s := by
  have hr : ∀ c, Released c (t :: tr) → Released c tr := fun c => (released_cons_of_ne h).1
  refine ⟨hi.latest, hi.alarmHolds, hi.callbackHolds, fun c hc => ?_, hi.marked, fun hclean => ?_, hi.knows.congr hr⟩
  · exact hi.due c (hc.imp_right (Or.imp_right (hr c)))
  · obtain ⟨data, hdata, hindex⟩ := hi.clean hclean
    exact ⟨data, hdata.congr hr, hindex⟩

/-- The latest inventory is as of the latest commit, which no callback is later than. -/
theorem current (hi : Coherent tr s) : Current tr s.commits s.world.inventoryData := by
  have hlatest := hi.latest
  rw [List.getLast?_eq_getElem?] at hlatest
  refine ⟨s.commits.length - 1, hlatest, fun c hc => ?_⟩
  have hlt := hi.due c (.inr (.inr hc))
  omega

/-- While the callback holds `m_mtx`, the other thread does not. -/
theorem alarm_of_callback (hi : Coherent tr s) (h : s.callback.holds = true) : s.alarm.holds = false := by
  rw [Bool.eq_false_iff]
  intro hholds
  have halarm := hi.alarmHolds.1 hholds
  rw [hi.callbackHolds.1 h] at halarm
  cases halarm

theorem callback_of_alarm (hi : Coherent tr s) (h : s.alarm.holds = true) : s.callback.holds = false := by
  rw [Bool.eq_false_iff]
  intro hholds
  have hcallback := hi.callbackHolds.1 hholds
  rw [hi.alarmHolds.1 h] at hcallback
  cases hcallback

theorem not_holds (hi : Coherent tr s) (h : s.mutex = none) : s.alarm.holds = false ∧ s.callback.holds = false := by
  constructor
  · rw [Bool.eq_false_iff]
    intro hholds
    have halarm := hi.alarmHolds.1 hholds
    rw [h] at halarm
    cases halarm
  · rw [Bool.eq_false_iff]
    intro hholds
    have hcallback := hi.callbackHolds.1 hholds
    rw [h] at hcallback
    cases hcallback

/-- A state with the same cache. -/
theorem world (hi : Coherent tr s) {w : World}
    (hw : w = w.withCache s.world.inventoryDirty s.world.inventory s.world.inventoryData) :
    Coherent tr { s with world := w } := by
  have hdirty := congrArg (fun w : World => w.inventoryDirty) hw
  have hindex := congrArg (fun w : World => w.inventory) hw
  have hdata := congrArg (fun w : World => w.inventoryData) hw
  refine ⟨?_, hi.alarmHolds, hi.callbackHolds, hi.due, fun c hc => ?_, fun hclean => ?_, ?_⟩
  · exact hi.latest.trans (congrArg some hdata.symm)
  · exact hdirty.trans (hi.marked c hc)
  · obtain ⟨data, hcurrent, hbuilt⟩ := hi.clean (hdirty.symm.trans hclean)
    exact ⟨data, hcurrent, hindex.trans hbuilt⟩
  · show s.alarm.Knows tr s.commits w.inventoryDirty w.inventory
    rw [hdirty, hindex]
    exact hi.knows

theorem commit (hi : Coherent tr s) (inventory : List InventoryEntry) : Coherent tr { s with
    world := { s.world with inventoryData := inventory }
    commits := s.commits ++ [inventory]
    pending := s.pending ++ [s.commits.length] } := by
  refine ⟨List.getLast?_concat, hi.alarmHolds, hi.callbackHolds, fun c hc => ?_, hi.marked, fun hclean => ?_,
    hi.knows.append inventory⟩
  · rw [List.length_append, List.length_singleton]
    rcases hc with hc | hc
    · rcases List.mem_append.1 hc with hc | hc
      · exact Nat.lt_succ_of_lt (hi.due c (.inl hc))
      · rw [List.mem_singleton.1 hc]
        exact Nat.lt_succ_self _
    · exact Nat.lt_succ_of_lt (hi.due c (.inr hc))
  · obtain ⟨data, hcurrent, hindex⟩ := hi.clean hclean
    exact ⟨data, hcurrent.append inventory, hindex⟩

theorem callbackLock (hi : Coherent tr s) {rest : List Nat} (hpending : s.pending = c :: rest) (hmutex : s.mutex = none) :
    Coherent tr { s with pending := rest, mutex := some .inventorySub, callback := .locked c } := by
  have hidle := (hi.not_holds hmutex).1
  refine ⟨hi.latest, ?_, by simp [CallbackPhase.holds], fun c' hc => ?_, fun c' hc => (by cases hc), hi.clean, hi.knows⟩
  · simp [hidle]
  · refine hi.due c' ?_
    rw [hpending]
    rcases hc with hc | hc | hc
    · exact .inl (List.mem_cons_of_mem c hc)
    · exact .inl (List.mem_cons.2 (.inl (Option.some.inj hc).symm))
    · exact .inr (.inr hc)

theorem callbackMark (hi : Coherent tr s) (hcallback : s.callback = .locked c) :
    Coherent tr { s with world := { s.world with inventoryDirty := true }, callback := .marked c } := by
  have hholds : s.callback.holds = true := by rw [hcallback]; rfl
  refine ⟨hi.latest, hi.alarmHolds, ?_, fun c' hc => ?_, fun _ _ => rfl, fun hclean => (by cases hclean), ?_⟩
  · exact iff_of_true rfl (hi.callbackHolds.1 hholds)
  · refine hi.due c' ?_
    rw [hcallback]
    exact hc
  · exact AlarmPhase.knows_of_not_holds (hi.alarm_of_callback hholds)

/-- The flag is up when the callback releases `m_mtx`: nobody relies on what is cached. -/
theorem callbackUnlock (hi : Coherent tr s) (hcallback : s.callback = .marked c) (ht : t.label = .callbackUnlock c) :
    Coherent (t :: tr) { s with mutex := none, callback := .released c } := by
  have hholds : s.callback.holds = true := by rw [hcallback]; rfl
  have hidle := hi.alarm_of_callback hholds
  have hdirty := hi.marked c hcallback
  refine ⟨hi.latest, by simp [hidle], by simp [CallbackPhase.holds], fun c' hc => ?_, fun c' hc => (by cases hc),
    fun hclean => ?_, AlarmPhase.knows_of_not_holds hidle⟩
  · refine hi.due c' ?_
    rw [hcallback]
    rcases hc with hc | hc | hc
    · exact .inl hc
    · exact .inr (.inl hc)
    · rcases released_cons.1 hc with hc | hc
      · rw [ht] at hc
        cases hc
        exact .inr (.inl rfl)
      · exact .inr (.inr hc)
  · have hclean' : s.world.inventoryDirty = false := hclean
    rw [hdirty] at hclean'
    cases hclean'

theorem callbackIdle (hi : Coherent tr s) (hcallback : s.callback = .released c) :
    Coherent tr { s with callback := .idle } := by
  have hholds : s.callback.holds = false := by rw [hcallback]; rfl
  refine ⟨hi.latest, hi.alarmHolds, ?_, fun c' hc => hi.due c' ?_, fun c' hc => (by cases hc), hi.clean, hi.knows⟩
  · rw [← hi.callbackHolds, hholds]
    rfl
  · rcases hc with hc | hc | hc
    · exact .inl hc
    · cases hc
    · exact .inr (.inr hc)

theorem submitLock (hi : Coherent tr s) (call : SubmitCall) (hmutex : s.mutex = none) :
    Coherent tr { s with mutex := some .alarmSub, alarm := .locked call } := by
  have hidle := (hi.not_holds hmutex).2
  exact ⟨hi.latest, by simp [AlarmPhase.holds], by simp [hidle], hi.due, hi.marked, hi.clean, trivial⟩

/-- The thread goes on from one phase in which it holds `m_mtx` to another. -/
theorem phase (hi : Coherent tr s) {phase : AlarmPhase} (hold : s.alarm.holds = true) (hnew : phase.holds = true)
    (hknows : phase.Knows tr s.commits s.world.inventoryDirty s.world.inventory) : Coherent tr { s with alarm := phase } :=
  ⟨hi.latest, iff_of_true hnew (hi.alarmHolds.1 hold), hi.callbackHolds, hi.due, hi.marked, hi.clean, hknows⟩

/-- The thread works on the index while the flag is up. -/
theorem reindex (hi : Coherent tr s) {phase : AlarmPhase} (index : AssocMap AlarmType InventoryData)
    (hold : s.alarm.holds = true) (hnew : phase.holds = true) (hdirty : s.world.inventoryDirty = true)
    (hknows : phase.Knows tr s.commits true index) :
    Coherent tr { s with world := { s.world with inventory := index }, alarm := phase } := by
  refine ⟨hi.latest, iff_of_true hnew (hi.alarmHolds.1 hold), hi.callbackHolds, hi.due, hi.marked, fun hclean => ?_, ?_⟩
  · have hclean' : s.world.inventoryDirty = false := hclean
    rw [hdirty] at hclean'
    cases hclean'
  · show phase.Knows tr s.commits s.world.inventoryDirty index
    rw [hdirty]
    exact hknows

/-- The flag comes down when the index is that of the inventory which was read. -/
theorem rebuilt (hi : Coherent tr s) {call : SubmitCall} {data : List InventoryEntry}
    (halarm : s.alarm = .rebuilding call data []) :
    Coherent tr { s with world := { s.world with inventoryDirty := false }, alarm := .refreshed call } := by
  have hold : s.alarm.holds = true := by rw [halarm]; rfl
  have hknows := hi.knows
  rw [halarm] at hknows
  obtain ⟨-, hcurrent, built, hdata, hindex⟩ := hknows
  rw [List.append_nil] at hdata
  refine ⟨hi.latest, iff_of_true rfl (hi.alarmHolds.1 hold), hi.callbackHolds, hi.due, fun c hc => ?_, fun _ => ?_, rfl⟩
  · have hfree := hi.callback_of_alarm hold
    have hc' : s.callback = .marked c := hc
    rw [hc'] at hfree
    cases hfree
  · exact ⟨data, hcurrent, hdata ▸ hindex⟩

theorem release (hi : Coherent tr s) (hold : s.alarm.holds = true) :
    Coherent tr { s with mutex := none, alarm := .idle } := by
  have hfree := hi.callback_of_alarm hold
  exact ⟨hi.latest, by simp [AlarmPhase.holds], by simp [hfree], hi.due, hi.marked, hi.clean, trivial⟩

end Coherent

end

variable {b : Boot} {tr tr₁ tr₀ : ThreadHistory} {s s' s₁ s₂ s₀ s₀' : Threads} {a : ThreadAction} {c : Nat}

theorem Coherent.step (hi : Coherent tr s) (hs : ThreadStep s a s') : Coherent (⟨s, a, s'⟩ :: tr) s' := by
  cases hs with
  | commit inventory => exact (hi.commit inventory).cons fun _ => nofun
  | callbackLock hpending hcallback hmutex => exact (hi.callbackLock hpending hmutex).cons fun _ => nofun
  | callbackMark hcallback => exact (hi.callbackMark hcallback).cons fun _ => nofun
  | callbackUnlock hcallback => exact hi.callbackUnlock hcallback rfl
  | callbackNotify hcallback hex =>
    have hkept := cache_kept (fun _ _ _ => commutes_sendNotification _ _) hex
    exact ((hi.callbackIdle hcallback).world hkept).cons fun _ => nofun
  | submitLock call halarm hmutex => exact (hi.submitLock call hmutex).cons fun _ => nofun
  | fetch halarm hdirty =>
    have hold : s.alarm.holds = true := congrArg AlarmPhase.holds halarm
    refine Coherent.cons ?_ fun _ => nofun
    exact hi.phase hold rfl ⟨hdirty, hi.current⟩
  | fetchThrows halarm => exact (hi.release (congrArg AlarmPhase.holds halarm)).cons fun _ => nofun
  | clear halarm =>
    have hold : s.alarm.holds = true := congrArg AlarmPhase.holds halarm
    have hknows := hi.knows
    rw [halarm] at hknows
    refine Coherent.cons ?_ fun _ => nofun
    exact hi.reindex .empty hold rfl hknows.1 ⟨rfl, hknows.2, [], rfl, rfl⟩
  | emplace halarm =>
    rename_i call data rest entry
    have hold : s.alarm.holds = true := congrArg AlarmPhase.holds halarm
    have hknows := hi.knows
    rw [halarm] at hknows
    obtain ⟨hdirty, hcurrent, built, hdata, hindex⟩ := hknows
    have hbuilt : data = (built ++ [entry]) ++ rest := by rw [hdata, List.append_assoc, List.singleton_append]
    have hindex' : emplaceInventory s.world.inventory entry = indexOf (built ++ [entry]) := by
      rw [indexOf_append, hindex]
    refine Coherent.cons ?_ fun _ => nofun
    exact hi.reindex _ hold rfl hdirty ⟨rfl, hcurrent, built ++ [entry], hbuilt, hindex'⟩
  | rebuildThrows halarm => exact (hi.release (congrArg AlarmPhase.holds halarm)).cons fun _ => nofun
  | rebuilt halarm => exact (hi.rebuilt halarm).cons fun _ => nofun
  | upToDate halarm hclean =>
    have hold : s.alarm.holds = true := congrArg AlarmPhase.holds halarm
    refine Coherent.cons ?_ fun _ => nofun
    exact hi.phase hold rfl hclean
  | validate halarm =>
    have hold : s.alarm.holds = true := congrArg AlarmPhase.holds halarm
    have hknows := hi.knows
    rw [halarm] at hknows
    refine Coherent.cons ?_ fun _ => nofun
    exact hi.phase hold rfl ⟨hknows, rfl⟩
  | submitUnlock halarm hex =>
    have hkept := cache_kept (SubmitCall.commutes_conclude _ _) hex
    exact ((hi.release (congrArg AlarmPhase.holds halarm)).world hkept).cons fun _ => nofun
  | serve halarm hmutex hignores hp =>
    have hkept := cache_kept (fun _ _ _ => Call.commutes hignores _) hp.exec_eq
    exact (hi.world hkept).cons fun _ => nofun

theorem ThreadsStart.of_run {w : World} (h : DaemonRun b [] w) :
    ThreadsStart b ⟨w, [b.inventory], [], none, .idle, .idle⟩ := by
  rcases h with hstarted | _
  exact ⟨hstarted, rfl, rfl, rfl, rfl, rfl⟩

theorem ThreadsStart.coherent (h : ThreadsStart b s) : Coherent [] s := by
  have hboots := h.started.boots
  refine ⟨?_, ?_, ?_, fun c hc => ?_, fun c hc => ?_, fun hclean => ?_, ?_⟩
  · rw [h.commits, hboots.inventoryData]
    rfl
  · rw [h.alarm, h.mutex]
    simp [AlarmPhase.holds]
  · rw [h.callback, h.mutex]
    simp [CallbackPhase.holds]
  · rw [h.pending, h.callback] at hc
    rcases hc with hc | hc | ⟨t, ht, -⟩
    · cases hc
    · cases hc
    · cases ht
  · rw [h.callback] at hc
    cases hc
  · rw [hboots.inventoryDirty] at hclean
    cases hclean
  · rw [h.alarm]
    trivial

theorem coherent_of_run (h : ThreadsRun b tr s) : Coherent tr s :=
  h.invariant (I := Coherent) (fun _ hstart => hstart.coherent) fun _ _ _ _ _ hi hs => hi.step hs

/-- A call that takes `m_mtx` after the callback for a commit has released it validates against the inventory
as of that commit, or of a later one: no change of the inventory is lost, whatever comes in between. -/
theorem validates_current (h : ThreadsRun b tr s) {call : SubmitCall} {inventoryError : Except Failure (Option String)}
    (hvalidate : ⟨s₁, .validate call inventoryError, s₂⟩ :: tr₁ <:+ tr)
    (hlock : ⟨s₀, .submitLock call, s₀'⟩ :: tr₀ <:+ tr₁) (hreleased : Released c tr₀) :
    ∃ v inventory, c ≤ v ∧ s₁.commits[v]? = some inventory ∧
      inventoryError = call.validationError (indexOf inventory) := by
  obtain ⟨hrun, hstep⟩ := h.of_suffix hvalidate
  have hi : Coherent tr₁ s₁ := coherent_of_run hrun
  have hstep' : ThreadStep s₁ (.validate call inventoryError) s₂ := hstep
  cases hstep' with
  | validate halarm =>
    have hclean := hi.knows
    rw [halarm] at hclean
    obtain ⟨inventory, ⟨v, hv, hle⟩, hindex⟩ := hi.clean hclean
    obtain ⟨t, ht, hlabel⟩ := hreleased
    have hmem : t ∈ tr₁ := hlock.subset (List.mem_cons_of_mem _ ht)
    exact ⟨v, inventory, hle c ⟨t, hmem, hlabel⟩, hv, congrArg call.validationError hindex⟩

end

namespace AlarmsTest

def wssCall : SubmitCall where
  originatorName := "sysrepo-ietf-alarms"
  input := alarm1Input "wss" (.active .major) "Hey, I'm overheating."
  env := atTime 1
  keyXPath := "[alarm-type-id='alarms-test:alarm-1'][alarm-type-qualifier='high'][resource='wss']"
  served := by decide
  xpathIndex_eq := by decide +kernel
  getData_works := rfl

/-- The inventory gets a resource, and another one between `getData` and the end of `rebuildInventory`. -/
def wssType : InventoryEntry := ⟨alarm1Name, "high", ["wss"], []⟩

def edfaType : InventoryEntry := ⟨alarm1Name, "high", ["edfa"], []⟩

def startThreads : Threads := ⟨(scenario [] []).2, [(boot []).inventory], [], none, .idle, .idle⟩

theorem threadsStart : ThreadsStart (boot []) startThreads :=
  .of_run (@daemonRun_scenario [] [] (by decide +kernel))

theorem validates_current_overtaken : ∃ (s₁ : Threads) (v : Nat) (inventory : List InventoryEntry), 1 ≤ v ∧
    s₁.commits[v]? = some inventory ∧
      wssCall.validationError (emplaceInventory .empty wssType) = wssCall.validationError (indexOf inventory) := by
  have hstart : ThreadsRun (boot []) [] startThreads := .start threadsStart
  have hnoted := (((hstart.step (.commit [wssType])).step (.callbackLock rfl rfl rfl)).step (.callbackMark rfl)).step
    (.callbackUnlock rfl)
  have hfetched := (hnoted.step (.submitLock wssCall rfl rfl)).step (.fetch rfl rfl)
  have hrebuilt := (((hfetched.step (.clear rfl)).step (.commit [edfaType])).step (.emplace rfl)).step (.rebuilt rfl)
  have hvalidated := hrebuilt.step (.validate rfl)
  refine ⟨_, validates_current hvalidated List.suffix_rfl ⟨[_, _, _, _, _], rfl⟩ ?_⟩
  exact ⟨_, List.mem_cons_self, rfl⟩

end AlarmsTest

end IetfAlarms

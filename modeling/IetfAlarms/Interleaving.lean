import IetfAlarms.InventoryThreads

/-!
# Interleaved calls are atomic

Whatever the threads and the commits of the inventory do in between, the calls that come through could have
been made one at a time: there is a run of the daemon with the same calls and the same replies that ends in
the same state, but for what is cached.
-/

namespace IetfAlarms
open Program Trace

/-- The state is the other one, with its own cache. -/
def SameButCache (w w' : World) : Prop := w.withCache w'.inventoryDirty w'.inventory w'.inventoryData = w'

/-- The call that this step completes. -/
def ThreadAction.served? : ThreadAction → Option Event
  | submitUnlock ev => some ev
  | serve ev => some ev
  | _ => none

def servedEvents (tr : ThreadHistory) : List Event := tr.filterMap fun t => t.label.served?

def Call.isInventoryChanged : Call → Bool
  | inventoryChanged _ => true
  | _ => false

/-- The calls of a run beside the callbacks for the inventory. -/
def rpcEvents (tr : History) : List Event := (tr.map fun t => t.label).filter fun ev => !ev.call.isInventoryChanged

theorem servedEvents_cons_some {t : Transition Threads ThreadAction} {ev : Event} (h : t.label.served? = some ev)
    (tr : ThreadHistory) : servedEvents (t :: tr) = ev :: servedEvents tr := List.filterMap_cons_some h

theorem rpcEvents_cons_callback {t : Transition World Event} (h : t.label.call.isInventoryChanged = true) (tr : History) :
    rpcEvents (t :: tr) = rpcEvents tr := by
  rw [rpcEvents, List.map_cons, List.filter_cons_of_neg]
  · rfl
  · simp [h]

theorem rpcEvents_cons {t : Transition World Event} (h : t.label.call.isInventoryChanged = false) (tr : History) :
    rpcEvents (t :: tr) = t.label :: rpcEvents tr := by
  rw [rpcEvents, List.map_cons, List.filter_cons_of_pos]
  · rfl
  · simp [h]

theorem Call.IgnoresCache.isInventoryChanged {call : Call} (h : call.IgnoresCache) : call.isInventoryChanged = false := by
  cases call with
  | inventoryChanged inventory => exact h.elim
  | createOrUpdateAlarm originatorName input => rfl
  | purgeAlarms l input => rfl
  | compressAlarms l input => rfl
  | controlChanged changes shelving => rfl

namespace SameButCache
variable {w w' w₁ : World}

/-- A program that does not look at the cache does the same in both states. -/
theorem exec {α : Type} {m : DaemonM α} {r : Except Failure α} (h : SameButCache w w')
    (hm : ∀ dirty index data, Commutes (World.withCache dirty index data) m) (hex : exec m w' = (r, w₁)) :
    ∃ w₂, exec m w = (r, w₂) ∧ SameButCache w₂ w₁ := by
  have hcommutes := hm w'.inventoryDirty w'.inventory w'.inventoryData w
  have hkept := cache_kept hm hex
  rw [h, hex] at hcommutes
  refine ⟨(Program.exec m w).2, Prod.ext (congrArg Prod.fst hcommutes).symm rfl, ?_⟩
  have hw₁ : w₁ = (Program.exec m w).2.withCache w'.inventoryDirty w'.inventory w'.inventoryData :=
    congrArg Prod.snd hcommutes
  rw [SameButCache, hw₁]
  rfl

end SameButCache

theorem error_of_sendNotification {env : Env} {notification : Notification} {w w' : World} {f : Failure}
    (h : exec (sendNotification env notification) w = (.error f, w')) : f = .sysrepo := by
  unfold sendNotification at h
  split at h
  · exact (Except.error.inj (congrArg Prod.fst h)).symm
  · cases congrArg Prod.fst h

section
variable [Libyang] {b : Boot} {tr : ThreadHistory} {s s' : Threads} {a : ThreadAction}

/-- A run of the daemon in which the same calls have the same replies. -/
def Linearizes (b : Boot) (tr : ThreadHistory) (s : Threads) : Prop :=
  ∃ tr' w, DaemonRun b tr' w ∧ SameButCache w s.world ∧ rpcEvents tr' = servedEvents tr

namespace Linearizes

/-- A call that runs under `m_mtx` from its start to its end is made at that point. -/
theorem serve (h : Linearizes b tr s) {ev : Event} {w' : World} (hignores : ev.call.IgnoresCache)
    (hp : Performs s.world ev w') : Linearizes b (⟨s, .serve ev, { s with world := w' }⟩ :: tr) { s with world := w' } := by
  obtain ⟨tr', w, hrun, hsame, hevents⟩ := h
  obtain ⟨w₂, hex, hsame₂⟩ := hsame.exec (fun _ _ _ => Call.commutes hignores ev.env) hp.exec_eq
  refine ⟨_, w₂, hrun.step ⟨hex, hp.defined⟩, hsame₂, ?_⟩
  rw [rpcEvents_cons hignores.isInventoryChanged, servedEvents_cons_some rfl, hevents]

/-- The notification of the callback for the inventory. -/
theorem callbackNotify (h : Linearizes b tr s) {env : Env} {r : Except Failure Unit} {w' : World}
    (hex : exec (sendNotification env .alarmInventoryChanged) s.world = (r, w')) (callback : CallbackPhase) :
    Linearizes b (⟨s, .callbackNotify env, { s with world := w', callback := callback }⟩ :: tr)
      { s with world := w', callback := callback } := by
  obtain ⟨tr', w, hrun, hsame, hevents⟩ := h
  have hsame' : SameButCache (w.withInventory s.world.inventoryData) s.world := hsame
  obtain ⟨w₂, hsend, hsame₂⟩ := hsame'.exec (fun _ _ _ => commutes_sendNotification _ _) hex
  have hcall : exec (Call.run env (.inventoryChanged s.world.inventoryData)) w =
      exec (do sendNotification env .alarmInventoryChanged; return Reply.ok) (w.withInventory s.world.inventoryData) := rfl
  rcases r with f | u
  · have hp : Performs w ⟨.inventoryChanged s.world.inventoryData, env, .error f⟩ w₂ := by
      refine ⟨hcall.trans (exec_bind_of_error hsend _), fun f' hf' => ?_⟩
      rw [← Except.error.inj hf', error_of_sendNotification hsend]
      rfl
    exact ⟨_, w₂, hrun.step hp, hsame₂, (rpcEvents_cons_callback rfl _).trans hevents⟩
  · have hp : Performs w ⟨.inventoryChanged s.world.inventoryData, env, .ok .ok⟩ w₂ :=
      ⟨hcall.trans (exec_bind_of_ok hsend _), fun f' hf' => by cases hf'⟩
    exact ⟨_, w₂, hrun.step hp, hsame₂, (rpcEvents_cons_callback rfl _).trans hevents⟩

/-- A submission is made where it releases `m_mtx`, after a callback for the inventory that it has validated
against. -/
theorem submitUnlock (h : Linearizes b tr s) (hi : Coherent tr s) {call : SubmitCall}
    {inventoryError : Except Failure (Option String)} {r : Except Failure Reply} {w' : World}
    (halarm : s.alarm = .validated call inventoryError) (hex : exec (call.conclude inventoryError) s.world = (r, w'))
    (hdefined : ∀ f, r = .error f → f.isUndefined = false) :
    Linearizes b (⟨s, .submitUnlock (call.event r), { s with world := w', mutex := none, alarm := .idle }⟩ :: tr)
      { s with world := w', mutex := none, alarm := .idle } := by
  obtain ⟨tr', w, hrun, hsame, hevents⟩ := h
  have hknows := hi.knows
  rw [halarm] at hknows
  obtain ⟨hclean, hvalidated⟩ := hknows
  obtain ⟨data, -, hindex⟩ := hi.clean hclean
  have hcallback : Performs w ⟨.inventoryChanged data, { call.env with sendNotificationThrows := true }, .error .sysrepo⟩
      (w.withInventory data) := by
    refine ⟨exec_inventoryChanged data, fun f hf => ?_⟩
    rw [← Except.error.inj hf]
    rfl
  have hsame' : SameButCache (w.withInventory data).refreshed s.world := hsame
  obtain ⟨w₂, hconclude, hsame₂⟩ := hsame'.exec (call.commutes_conclude inventoryError) hex
  have hp : Performs (w.withInventory data) (call.event r) w₂ := by
    refine ⟨?_, hdefined⟩
    have hcall := call.exec_createOrUpdateAlarm (w.withInventory data)
    have hrefreshed : (w.withInventory data).refreshed.inventory = s.world.inventory := hindex.symm
    rw [hrefreshed, ← hvalidated, hconclude] at hcall
    exact hcall
  refine ⟨_, w₂, (hrun.step hcallback).step hp, hsame₂, ?_⟩
  rw [rpcEvents_cons rfl, rpcEvents_cons_callback rfl, servedEvents_cons_some rfl, hevents]

end Linearizes

end

namespace AlarmsTest

end AlarmsTest

end IetfAlarms

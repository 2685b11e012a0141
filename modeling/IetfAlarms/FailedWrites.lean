import IetfAlarms.Surroundings
import IetfAlarms.History

/-!
# Writes that fail

A call that cannot write or notify has changed the alarms and the tree before, and goes no further. So a run
in which `editBatch`, `applyChanges` and `sendNotification` fail leaves the daemon with the same memory as the
run of the same calls in which they work (`Reliably`). What is in the operational datastore stays behind the
tree until a call writes again, and only calls that threw are missing there (`Lags`).
-/

namespace IetfAlarms
open Program Trace

/-- The same surroundings, for a sysrepo that takes everything. -/
def Env.reliable (env : Env) : Env :=
  { env with editBatchThrows := false, applyChangesThrows := false, sendNotificationThrows := false }

/-- The state with something else written, and other notifications sent. -/
def World.outside (operational : Node) (sent : List Notification) : World → World :=
  World.within fun x => { x with operational := operational, sent := sent }

/-- The state is the other one, but for what is outside the daemon. -/
def SameInside (w w' : World) : Prop := w.outside w'.operational w'.sent = w'

/-- The reply of a call to a reliable sysrepo, where the call had this one. -/
def Excuses {α : Type} (r r' : Except Failure α) : Prop :=
  r = r' ∨ r = .error .sysrepo ∧ ∀ f, r' = .error f → f.isUndefined = false

/-- The second program does to the memory what the first one does, which may have got stuck at the end. -/
def Forgives {α : Type} (m m' : DaemonM α) : Prop :=
  ∀ w w', SameInside w w' → SameInside (exec m w).2 (exec m' w').2 ∧ Excuses (exec m w).1 (exec m' w').1

/-- The program does nothing but write and notify, and what it throws is an exception. -/
structure Outward {α : Type} (m : DaemonM α) : Prop where
  inside : ∀ w w', SameInside w w' → SameInside w (exec m w').2
  defined : ∀ w f, (exec m w).1 = .error f → f.isUndefined = false

namespace SameInside
variable {w w' w'' : World}

theorem refl (w : World) : SameInside w w := rfl

theorem of_outside (h : SameInside w w') (operational : Node) (sent : List Notification) :
    SameInside w (w'.outside operational sent) := by
  rw [SameInside, ← h]
  rfl

theorem outside_left (h : SameInside w w') (operational : Node) (sent : List Notification) :
    SameInside (w.outside operational sent) w' := h

end SameInside

namespace Forgives
variable {α β : Type} {m m' : DaemonM α} {f f' : α → DaemonM β}

/-- A program that does not look outside does the same. -/
theorem of_commutes (h : ∀ operational sent, Commutes (World.outside operational sent) m) : Forgives m m := by
  intro w w' hw
  have hcommutes := h w'.operational w'.sent w
  rw [hw] at hcommutes
  rw [hcommutes]
  exact ⟨rfl, .inl rfl⟩

/-- What happens before the first write happens in both. -/
theorem bind_commutes (h : ∀ operational sent, Commutes (World.outside operational sent) m)
    (hf : ∀ a, Forgives (f a) (f' a)) : Forgives (m >>= f) (m >>= f') := by
  intro w w' hw
  have hcommutes := h w'.operational w'.sent w
  rw [hw] at hcommutes
  rw [exec_bind, exec_bind, hcommutes]
  rcases exec m w with ⟨e | a, w₁⟩
  · exact ⟨rfl, .inl rfl⟩
  · exact hf a w₁ _ rfl

theorem get_bind {f f' : World → DaemonM α} (hread : ∀ operational sent w, f' (w.outside operational sent) = f' w)
    (hf : ∀ w, Forgives (f w) (f' w)) : Forgives (get >>= f) (get >>= f') := by
  intro w w' hw
  rw [exec_get_bind, exec_get_bind, ← hw, hread]
  exact hf w w _ rfl

theorem ite {c : Prop} [Decidable c] {n n' : DaemonM α} (h : Forgives m m') (hn : Forgives n n') :
    Forgives (if c then m else n) (if c then m' else n') := by
  split
  · exact h
  · exact hn

/-- After a write there is nothing but other writes: where the first program got stuck, the memory is as it
will be. -/
theorem bind_outward (h : Forgives m m') (hf : ∀ a, Forgives (f a) (f' a)) (hout : ∀ a, Outward (f' a)) :
    Forgives (m >>= f) (m' >>= f') := by
  intro w w' hw
  obtain ⟨hsame, hexcuses⟩ := h w w' hw
  rw [exec_bind, exec_bind]
  rcases hm : exec m w with ⟨e | a, w₁⟩
  · rw [hm] at hsame hexcuses
    rcases hm' : exec m' w' with ⟨e' | a', w₁'⟩
    · rw [hm'] at hsame hexcuses
      refine ⟨hsame, ?_⟩
      rcases hexcuses with heq | ⟨hsysrepo, hdefined⟩
      · cases heq
        exact .inl rfl
      · cases hsysrepo
        refine .inr ⟨rfl, fun f hf' => ?_⟩
        cases hf'
        exact hdefined _ rfl
    · rw [hm'] at hsame hexcuses
      rcases hexcuses with heq | ⟨hsysrepo, -⟩
      · cases heq
      · cases hsysrepo
        exact ⟨(hout a').inside w₁ w₁' hsame, .inr ⟨rfl, (hout a').defined w₁'⟩⟩
  · rw [hm] at hsame hexcuses
    rcases hexcuses with heq | ⟨hsysrepo, -⟩
    · rcases hm' : exec m' w' with ⟨r', w₁'⟩
      rw [hm'] at hsame heq
      cases heq
      exact hf a w₁ w₁' hsame
    · cases hsysrepo

end Forgives

/-! ### Writing and notifying -/

/-- It throws exceptions only. -/
def Throws {α : Type} (x : Except Failure α) : Prop := ∀ f, x = .error f → f.isUndefined = false

theorem Throws.bind {α β : Type} {x : Except Failure α} {g : α → Except Failure β} (h : Throws x)
    (hg : ∀ a, Throws (g a)) : Throws (x >>= g) := by
  intro f hf
  rcases x with e | a
  · have he : (.error e : Except Failure β) = .error f := hf
    exact h f (congrArg Except.error (Except.error.inj he))
  · exact hg a f hf

theorem throws_ok {α : Type} (a : α) : Throws (.ok a : Except Failure α) := fun _ => nofun

theorem throws_childValue (node : DataNode) (leafName : Schema) : Throws (childValue node leafName) := by
  unfold childValue
  split
  · exact throws_ok _
  · intro f hf
    cases hf
    rfl

theorem throws_createStatusChangeNotification (alarmNode : DataNode) :
    Throws (createStatusChangeNotification alarmNode) := by
  refine (throws_childValue _ _).bind fun _ => (throws_childValue _ _).bind fun _ => ?_
  refine (throws_childValue _ _).bind fun _ => (throws_childValue _ _).bind fun _ => ?_
  refine (throws_childValue _ _).bind fun _ => (throws_childValue _ _).bind fun isCleared => ?_
  refine .bind ?_ fun _ => throws_ok _
  split
  · exact throws_ok _
  · exact throws_childValue _ _

section
variable {env : Env}

theorem outward_pure {α : Type} (a : α) : Outward (pure a : DaemonM α) := ⟨fun _ _ h => h, fun _ _ => nofun⟩

theorem outward_throw {α : Type} {f : Failure} (h : f.isUndefined = false) : Outward (throw f : DaemonM α) := by
  refine ⟨fun _ _ h => h, fun w f' hf => ?_⟩
  cases hf
  exact h

theorem outward_ofExcept {α : Type} {x : Except Failure α} (h : Throws x) : Outward (ofExcept x : DaemonM α) := by
  refine ⟨fun w w' hw => ?_, fun w f hf => ?_⟩
  · rw [exec_ofExcept]
    exact hw
  · rw [exec_ofExcept] at hf
    exact h f hf

namespace Outward
variable {α β : Type} {m : DaemonM α} {f : α → DaemonM β}

theorem bind (h : Outward m) (hf : ∀ a, Outward (f a)) : Outward (m >>= f) := by
  refine ⟨fun w w' hw => ?_, fun w e he => ?_⟩
  · have hsame := h.inside w w' hw
    rw [exec_bind]
    rcases hm : exec m w' with ⟨e | a, w₁⟩
    · rw [hm] at hsame
      exact hsame
    · rw [hm] at hsame
      exact (hf a).inside w w₁ hsame
  · have hdefined := h.defined w
    rw [exec_bind] at he
    rcases hm : exec m w with ⟨e' | a, w₁⟩
    · rw [hm] at he hdefined
      cases he
      exact hdefined _ rfl
    · rw [hm] at he
      exact (hf a).defined w₁ e he

theorem get_bind {f : World → DaemonM β} (hf : ∀ w, Outward (f w)) : Outward (get >>= f) := by
  refine ⟨fun w w' hw => ?_, fun w e he => ?_⟩
  · rw [exec_get_bind]
    exact (hf w').inside w w' hw
  · rw [exec_get_bind] at he
    exact (hf w).defined w e he

theorem ite {c : Prop} [Decidable c] {n : DaemonM α} (h : Outward m) (hn : Outward n) : Outward (if c then m else n) := by
  split
  · exact h
  · exact hn

end Outward

theorem outward_sendNotification (notification : Notification) : Outward (sendNotification env notification) := by
  refine .ite (outward_throw rfl) ⟨fun w w' h => ?_, fun _ _ => nofun⟩
  exact h.of_outside w'.operational (notification :: w'.sent)

theorem outward_notifyStatusChange (alarmNodePath : Path) : Outward (notifyStatusChange env alarmNodePath) := by
  refine .get_bind fun w => ?_
  rcases w.edit.find alarmNodePath with _ | n
  · exact outward_throw rfl
  · exact (outward_ofExcept (throws_createStatusChangeNotification _)).bind fun _ => outward_sendNotification _

theorem forgives_writeEdit : Forgives (writeEdit env) (writeEdit env.reliable) := by
  intro w w' hw
  have hreliable : exec (writeEdit env.reliable) w' = (.ok (), w'.published) := exec_writeEdit env.reliable w'
  rw [hreliable, exec_writeEdit]
  split
  · exact ⟨hw.of_outside _ _, .inr ⟨rfl, fun _ => nofun⟩⟩
  · refine ⟨?_, .inl rfl⟩
    rw [← hw]
    rfl

theorem forgives_sendNotification (notification : Notification) :
    Forgives (sendNotification env notification) (sendNotification env.reliable notification) := by
  intro w w' hw
  unfold sendNotification
  by_cases hthrows : env.sendNotificationThrows
  · rw [if_pos hthrows]
    exact ⟨hw.of_outside _ _, .inr ⟨rfl, fun _ => nofun⟩⟩
  · rw [if_neg hthrows]
    refine ⟨?_, .inl rfl⟩
    rw [← hw]
    rfl

theorem forgives_notifyStatusChange (alarmNodePath : Path) :
    Forgives (notifyStatusChange env alarmNodePath) (notifyStatusChange env.reliable alarmNodePath) := by
  refine .get_bind (fun _ _ _ => rfl) fun w => ?_
  rcases w.edit.find alarmNodePath with _ | n
  · exact .of_commutes fun _ _ => commutes_throw _
  · exact .bind_commutes (fun _ _ => commutes_ofExcept _) fun _ => forgives_sendNotification _

variable [Libyang]

/-! ### Calls -/

theorem forgives_updateAlarm (input : AlarmInput) (alarmKey : InstanceKey) (keyXPath : String) :
    Forgives (updateAlarm env input alarmKey keyXPath) (updateAlarm env.reliable input alarmKey keyXPath) := by
  refine .get_bind (fun _ _ _ => rfl) fun w => ?_
  refine .bind_commutes (fun _ _ => commutes_ofExcept _) fun shelvingRules => ?_
  refine .bind_commutes (fun _ _ => commutes_ofExcept _) fun path => ?_
  refine .bind_commutes (fun _ _ => commutes_onEdit _) fun _ => ?_
  refine .bind_commutes (fun _ _ => commutes_ofExcept _) fun updated => ?_
  refine .bind_commutes (fun _ _ => commutes_modify fun _ => rfl) fun _ => ?_
  refine .ite ?_ (.of_commutes fun _ _ => commutes_pure _)
  refine .bind_commutes (fun _ _ => commutes_onEdit _) fun _ => ?_
  refine .bind_commutes (fun _ _ => commutes_onEdit _) fun _ => ?_
  refine .bind_commutes (fun _ _ => commutes_updateStatistics) fun _ => ?_
  refine .bind_outward forgives_writeEdit (fun _ => ?_) fun _ => ?_
  · exact .ite (forgives_notifyStatusChange path) (.of_commutes fun _ _ => commutes_pure _)
  · exact .ite (outward_notifyStatusChange path) (outward_pure _)

theorem forgives_submitAlarm (input : AlarmInput) :
    Forgives (submitAlarm env input) (submitAlarm env.reliable input) := by
  unfold submitAlarm
  simp only
  split
  · exact .of_commutes fun _ _ => commutes_pure _
  · refine .bind_commutes (fun operational sent => ?_) fun _ => ?_
    · refine .get_bind (fun _ => rfl) fun w => .onlyIf ((commutes_getData env).bind fun _ => ?_)
      exact commutes_modify fun _ => rfl
    · refine .get_bind (fun _ _ _ => rfl) fun w => .bind_commutes (fun _ _ => commutes_ofExcept _) fun message => ?_
      rcases message with _ | message
      · refine .ite (.of_commutes fun _ _ => commutes_pure _) ?_
        refine .bind_outward (forgives_updateAlarm _ _ _) (fun _ => .of_commutes fun _ _ => commutes_pure _) fun _ => ?_
        exact outward_pure _
      · exact .of_commutes fun _ _ => commutes_pure _

theorem forgives_createOrUpdateAlarm (originatorName : String) (input : AlarmInput) :
    Forgives (createOrUpdateAlarm env originatorName input) (createOrUpdateAlarm env.reliable originatorName input) :=
  .ite (.of_commutes fun _ _ => commutes_pure _) (forgives_submitAlarm input)

omit [Libyang] in
/-- The last lines of the other operations: write, unless nothing has changed, and reply. -/
theorem forgives_writeIf (c : Prop) [Decidable c] (reply : Reply) :
    Forgives (do onlyIf c (writeEdit env); return reply) (do onlyIf c (writeEdit env.reliable); return reply) := by
  refine .bind_outward (.ite forgives_writeEdit (.of_commutes fun _ _ => commutes_pure _)) (fun _ => ?_) fun _ => ?_
  · exact .of_commutes fun _ _ => commutes_pure _
  · exact outward_pure _

theorem forgives_purgeAlarms (l : Listing) (rpcInput : PurgeInput) :
    Forgives (purgeAlarms env l rpcInput) (purgeAlarms env.reliable l rpcInput) := by
  refine .bind_commutes (fun _ _ => commutes_ofExcept _) fun filter => .get_bind (fun _ _ _ => rfl) fun w => ?_
  refine .bind_commutes (fun _ _ => .foldlM (commutes_purgeAlarm l filter) _ _) fun n => ?_
  refine .bind_outward (.ite ?_ (.of_commutes fun _ _ => commutes_pure _)) (fun _ => ?_) fun _ => outward_pure _
  · refine .bind_commutes (fun _ _ => commutes_touchList l env.now) fun _ => ?_
    exact .bind_commutes (fun _ _ => commutes_updateStatistics) fun _ => forgives_writeEdit
  · exact .of_commutes fun _ _ => commutes_pure _

theorem forgives_compressAlarms (l : Listing) (rpcInput : CompressInput) :
    Forgives (compressAlarms env l rpcInput) (compressAlarms env.reliable l rpcInput) := by
  refine .get_bind (fun _ _ _ => rfl) fun w => ?_
  refine .bind_commutes (fun _ _ => .foldlM (commutes_compressAlarm l _) _ _) fun n => ?_
  exact forgives_writeIf _ _

theorem forgives_controlChanged (changes : List ControlChange) (shelving : ShelvingRules) :
    Forgives (controlChanged env changes shelving) (controlChanged env.reliable changes shelving) := by
  refine .get_bind (fun _ _ _ => rfl) fun w => .bind_commutes (fun _ _ => commutes_modify fun _ => rfl) fun _ => ?_
  refine .bind_commutes (fun _ _ => .ite (commutes_reshelve env shelving) (commutes_pure _)) fun reshelved => ?_
  refine .bind_commutes (fun _ _ => .ite commutes_shrinkStatusChangesLists (commutes_pure _)) fun shrunk => ?_
  exact forgives_writeIf _ _

omit [Libyang] in
theorem forgives_inventoryChanged (inventory : List InventoryEntry) :
    Forgives (inventoryChanged env inventory) (inventoryChanged env.reliable inventory) := by
  refine .bind_commutes (fun _ _ => commutes_modify fun _ => rfl) fun _ => ?_
  refine .bind_outward (forgives_sendNotification _) (fun _ => ?_) fun _ => outward_pure _
  exact .of_commutes fun _ _ => commutes_pure _

theorem Call.forgives (call : Call) (env : Env) : Forgives (call.run env) (call.run env.reliable) := by
  cases call with
  | createOrUpdateAlarm originatorName input => exact forgives_createOrUpdateAlarm originatorName input
  | purgeAlarms l input => exact forgives_purgeAlarms l input
  | compressAlarms l input => exact forgives_compressAlarms l input
  | controlChanged changes shelving => exact forgives_controlChanged changes shelving
  | inventoryChanged inventory => exact forgives_inventoryChanged inventory

end

/-! ### Runs -/

/-- The same call, made of a reliable sysrepo. -/
structure ReliableVersion (t t' : Transition World Event) : Prop where
  call : t'.label.call = t.label.call
  env : t'.label.env = t.label.env.reliable
  outcome : Excuses t.label.outcome t'.label.outcome

section
variable [Libyang] {b : Boot} {tr : History} {w w' : World} {ev : Event}

/-- A run of the same calls in which sysrepo takes everything ends with the same memory. -/
def Reliably (b : Boot) (tr : History) (w : World) : Prop :=
  ∃ tr' w', DaemonRun b tr' w' ∧ SameInside w w' ∧ List.Forall₂ ReliableVersion tr tr'

theorem Reliably.step (h : Reliably b tr w) (hp : Performs w ev w') : Reliably b (⟨w, ev, w'⟩ :: tr) w' := by
  obtain ⟨tr', v, hrun, hsame, hversions⟩ := h
  obtain ⟨hsame', hexcuses⟩ := ev.call.forgives ev.env w v hsame
  rw [hp.exec_eq] at hsame' hexcuses
  rcases hex : exec (ev.call.run ev.env.reliable) v with ⟨r', v'⟩
  rw [hex] at hsame' hexcuses
  have hp' : Performs v ⟨ev.call, ev.env.reliable, r'⟩ v' := by
    refine ⟨hex, fun f hf => ?_⟩
    rcases hexcuses with heq | ⟨-, hdefined⟩
    · exact hp.defined f (heq.trans hf)
    · exact hdefined f hf
  exact ⟨_, v', hrun.step hp', hsame', .cons ⟨rfl, rfl, hexcuses⟩ hversions⟩

/-- What writes and notifications fail has no bearing on what the daemon remembers: its memory after any run
is that of the run of the same calls in which none of them fails. -/
theorem reliably_of_run (h : DaemonRun b tr w) : Reliably b tr w :=
  h.invariant (I := Reliably b) (fun w hstart => ⟨[], w, .start hstart, .refl w, .nil⟩)
    fun _ _ _ _ _ hr hp => hr.step hp

/-- A call that is missing in the operational datastore: it could not write, or it found its time taken. -/
def Missed (t : Transition World Event) : Prop :=
  t.label.outcome = .error .sysrepo ∧ t.label.env.writeThrows = true ∨ t.label.outcome = .error .nodeExists

/-- The operational datastore is the tree as it was after some of the calls, and the calls since then which
changed the tree have thrown. -/
def Lags (b : Boot) (tr : History) (w : World) : Prop :=
  ∃ recent earlier w₀, tr = recent ++ earlier ∧ DaemonRun b earlier w₀ ∧ w₀.operational = w₀.edit ∧
    w.operational = w₀.edit ∧ ∀ t ∈ recent, t.after.edit = t.before.edit ∨ Missed t

theorem Lags.step (h : Lags b tr w) {t : Transition World Event} (hbefore : t.before = w) (hw : w'.operational = w.operational)
    (ht : t.after.edit = t.before.edit ∨ Missed t) : Lags b (t :: tr) w' := by
  obtain ⟨recent, earlier, w₀, rfl, hrun, hpublished, ho, hrecent⟩ := h
  refine ⟨t :: recent, earlier, w₀, rfl, hrun, hpublished, hw.trans ho, fun t' ht' => ?_⟩
  rcases List.mem_cons.1 ht' with rfl | ht'
  · exact ht
  · exact hrecent t' ht'

/-- Whatever fails, the operational datastore is a state that the tree has been in, and it catches up with
everything at once in the next call that writes. -/
theorem lags_of_run (h : DaemonRun b tr w) : Lags b tr w := by
  refine h.invariant (I := Lags b) (fun w hstart => ?_) fun tr w ev w' hrun hl hp => ?_
  · have hpublished := hstart.boots.operational
    exact ⟨[], [], w, rfl, .start hstart, hpublished, hpublished, fun _ ht => absurd ht List.not_mem_nil⟩
  · have hends := hp.ends (Inv.of_run hrun)
    rcases hends.writes (Inv.of_run hrun) with hwritten | huntouched | ⟨ho, hmissed⟩
    · exact ⟨[], _, w', rfl, hrun.step hp, hwritten, hwritten, fun _ ht => absurd ht List.not_mem_nil⟩
    · exact hl.step rfl huntouched.operational (.inl huntouched.edit)
    · refine hl.step rfl ho (.inr ?_)
      rcases hmissed with ⟨hout, hw⟩ | ⟨o, input, -, hout, -⟩
      · exact .inl ⟨hout, hw⟩
      · exact .inr hout

end

namespace AlarmsTest

/-- Two alarms, of which only the second one can be written. -/
def lostCalls : List (Call × Env) :=
  [(submit "edfa" (.active .minor) "Lights out.", atTime 2),
    (submit "wss" (.active .major) "Hey, I'm overheating.", { atTime 1 with applyChangesThrows := true })]

theorem reliably_lost : Reliably (boot []) (scenario [] lostCalls).1 (scenario [] lostCalls).2 :=
  reliably_of_run (daemonRun_scenario (by decide +kernel))

theorem lags_lost : Lags (boot []) (scenario [] lostCalls).1 (scenario [] lostCalls).2 :=
  lags_of_run (daemonRun_scenario (by decide +kernel))

end AlarmsTest

end IetfAlarms

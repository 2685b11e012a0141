import IetfAlarms.Daemon

/-!
# Calls while the daemon starts

The constructor subscribes to the RPCs first. Only then it switches `m_session` to the running datastore,
subscribes to the control changes there, which loads the shelving rules, and switches back, all of it without
`m_mtx`; calls are handled meanwhile. `Starting` says what a handler finds, whatever the order of the steps: the
running datastore in the scope of the constructor's switch and, for good, after a control change that the end of
this scope has overtaken; no rules until they are loaded.
-/

namespace IetfAlarms
open Trace

/-! ### The threads -/

/-- The datastores that `m_session` is switched between. -/
inductive Datastore
  | running | operational
deriving DecidableEq

/-- How far the constructor has got since it subscribed to the RPCs. `oldDatastore` is that of its
`ScopedDatastoreSwitch`. -/
inductive ConstructorPhase
  | subscribed
  /-- The switch has read the old datastore. -/
  | entering (oldDatastore : Datastore)
  /-- In the scope, before the callback for the configuration at the start has returned. -/
  | inside (oldDatastore : Datastore)
  /-- In the scope, after it. -/
  | configured (oldDatastore : Datastore)
  | left

/-- The constructor has `m_session` switched to the running datastore. -/
def ConstructorPhase.inScope : ConstructorPhase → Bool
  | inside _ => true
  | configured _ => true
  | _ => false

/-- The callback for the configuration at the start has returned. -/
def ConstructorPhase.started : ConstructorPhase → Bool
  | configured _ => true
  | left => true
  | _ => false

def ConstructorPhase.oldDatastore? : ConstructorPhase → Option Datastore
  | entering old => some old
  | inside old => some old
  | configured old => some old
  | _ => none

/-- What a handler reads or calls that depends on the start. -/
inductive Access
  | getData | shelvingRules | editBatch | applyChanges
deriving DecidableEq

/-- The handlers of the RPCs: `submitAlarm`, and `purgeAlarms` or `compressAlarms`. -/
inductive Handler
  | submit | list
deriving DecidableEq

/-- What may come after this access, if the handler does not return or throw. -/
def Handler.next : Handler → Option Access → List Access
  | submit, none => [.getData, .shelvingRules]
  | submit, some .getData => [.shelvingRules]
  | submit, some .shelvingRules => [.editBatch]
  | list, none => [.editBatch]
  | _, some .editBatch => [.applyChanges]
  | _, _ => []

/-- Where the callback for a control change is. -/
inductive ControlPhase
  | locked
  /-- `reshelve` has loaded the rules. -/
  | loaded
  /-- Its `ScopedDatastoreSwitch` has read the old datastore of `m_session`. -/
  | saved (oldDatastore : Datastore)
  /-- In the scope of the switch. -/
  | switched (oldDatastore : Datastore)
  | restored

def ControlPhase.oldDatastore? : ControlPhase → Option Datastore
  | saved old => some old
  | switched old => some old
  | _ => none

/-- What the thread that holds `m_mtx` is doing. The callback that the constructor runs by itself is `own`. -/
inductive Holder
  | free
  | handling (handler : Handler) (last : Option Access)
  | control (own : Bool) (phase : ControlPhase)

def Holder.oldDatastore? : Holder → Option Datastore
  | control _ phase => phase.oldDatastore?
  | _ => none

/-- `m_session`, `m_shelvingRules`, the constructor and who holds `m_mtx`. -/
structure Startup where
  session : Datastore
  shelvingRules : Option ShelvingRules
  constructor : ConstructorPhase
  holder : Holder

inductive StartupAction
  | enter
  | switch
  | enable
  | leave
  | request (handler : Handler)
  | access (a : Access)
  | reply
  | controlLock
  | load (shelving : ShelvingRules)
  | save
  | controlSwitch
  | controlWrite (a : Access)
  | restore
  | controlUnlock

/-- The callback may go on to write here. The configuration at the start has a shelving change. -/
def ControlPhase.settled (own : Bool) : ControlPhase → Bool
  | locked => !own
  | loaded => true
  | _ => false

/-- It may end here, also when nothing has changed. -/
def ControlPhase.ends (own : Bool) : ControlPhase → Bool
  | restored => true
  | phase => phase.settled own

/-- One step of the constructor or of the thread that holds `m_mtx`. What the handlers and callbacks do in between
does not depend on the start, and the constructor's own steps do not throw. -/
inductive StartupStep (s : Startup) : StartupAction → Startup → Prop
  | enter : s.constructor = .subscribed → StartupStep s .enter { s with constructor := .entering s.session }
  | switch {old : Datastore} : s.constructor = .entering old →
      StartupStep s .switch { s with session := .running, constructor := .inside old }
  | enable {old : Datastore} : s.constructor = .inside old → s.holder = .free →
      StartupStep s .enable { s with holder := .control true .locked }
  | leave {old : Datastore} : s.constructor = .configured old →
      StartupStep s .leave { s with session := old, constructor := .left }
  | request (handler : Handler) : s.holder = .free →
      StartupStep s (.request handler) { s with holder := .handling handler none }
  | access {handler : Handler} {last : Option Access} {a : Access} : s.holder = .handling handler last →
      a ∈ handler.next last → StartupStep s (.access a) { s with holder := .handling handler (some a) }
  | reply {handler : Handler} {last : Option Access} : s.holder = .handling handler last →
      StartupStep s .reply { s with holder := .free }
  /-- The subscription is made in the scope of the constructor's switch. -/
  | controlLock : s.constructor.inScope = true ∨ s.constructor = .left → s.holder = .free →
      StartupStep s .controlLock { s with holder := .control false .locked }
  | load {own : Bool} (shelving : ShelvingRules) : s.holder = .control own .locked →
      StartupStep s (.load shelving) { s with shelvingRules := some shelving, holder := .control own .loaded }
  | save {own : Bool} {phase : ControlPhase} : s.holder = .control own phase → phase.settled own = true →
      StartupStep s .save { s with holder := .control own (.saved s.session) }
  | controlSwitch {own : Bool} {old : Datastore} : s.holder = .control own (.saved old) →
      StartupStep s .controlSwitch { s with session := .operational, holder := .control own (.switched old) }
  | controlWrite {own : Bool} {old : Datastore} {a : Access} : s.holder = .control own (.switched old) →
      a = .editBatch ∨ a = .applyChanges → StartupStep s (.controlWrite a) s
  /-- The scope ends, also if the write throws. -/
  | restore {own : Bool} {old : Datastore} : s.holder = .control own (.switched old) →
      StartupStep s .restore { s with session := old, holder := .control own .restored }
  | controlUnlock {own : Bool} {phase : ControlPhase} : s.holder = .control own phase →
      phase.ends own = true →
      StartupStep s .controlUnlock { s with
        holder := .free
        constructor := if own then
          match s.constructor with
          | .inside old => .configured old
          | phase => phase
        else s.constructor }

structure StartupStart (s : Startup) : Prop where
  session : s.session = .operational
  shelvingRules : s.shelvingRules = none
  constructor : s.constructor = .subscribed
  holder : s.holder = .free

abbrev StartupHistory := List (Transition Startup StartupAction)

abbrev StartupRun : StartupHistory → Startup → Prop := Run StartupStart StartupStep

/-! ### What a handler finds -/

/-- The constructor has left its scope between the two halves of a callback's switch. The callback then brings
back the running datastore after the constructor has left it. -/
def Overtaken (tr : StartupHistory) : Prop :=
  ∃ t ∈ tr, t.label = .leave ∧ t.before.holder.oldDatastore?.isSome = true

/-- The rules as they were last loaded. -/
def lastLoaded : StartupHistory → Option ShelvingRules
  | [] => none
  | t :: tr =>
    match t.label with
    | .load shelving => some shelving
    | _ => lastLoaded tr

/-- Outside the callbacks, `m_session` is at the running datastore. -/
def Misled (tr : StartupHistory) (s : Startup) : Prop := s.constructor.inScope = true ∨ Overtaken tr

structure Starting (tr : StartupHistory) (s : Startup) : Prop where
  session : s.holder.oldDatastore? = none → (s.session = .running ↔ Misled tr s)
  saved : ∀ old ∈ s.holder.oldDatastore?, old = .running ↔ Misled tr s
  switched : ∀ {own old}, s.holder = .control own (.switched old) → s.session = .operational
  oldDatastore : ∀ old ∈ s.constructor.oldDatastore?, old = .operational
  overtaken : Overtaken tr → s.constructor = .left
  /-- The constructor has switched before there is any callback. -/
  subscribed : ∀ {own phase}, s.holder = .control own phase → s.constructor.inScope = true ∨ s.constructor = .left
  own : ∀ {phase}, s.holder = .control true phase →
    (∃ old, s.constructor = .inside old) ∧ (phase = .locked ∨ s.shelvingRules.isSome = true)
  rules : s.shelvingRules = lastLoaded tr
  started : s.constructor.started = true → s.shelvingRules.isSome = true

variable {tr tr' : StartupHistory} {s s' : Startup} {a : StartupAction} {t : Transition Startup StartupAction}

@[simp] theorem overtaken_nil : ¬ Overtaken [] := by
  simp [Overtaken]

theorem overtaken_cons : Overtaken (t :: tr) ↔
    (t.label = .leave ∧ t.before.holder.oldDatastore?.isSome = true) ∨ Overtaken tr := by
  simp [Overtaken]

theorem overtaken_cons_of_ne (ha : t.label ≠ .leave) : Overtaken (t :: tr) ↔ Overtaken tr := by
  simp [overtaken_cons, ha]

theorem lastLoaded_cons_of_ne (ha : ∀ shelving, t.label ≠ .load shelving) : lastLoaded (t :: tr) = lastLoaded tr := by
  rw [lastLoaded]
  split
  · exact absurd ‹_› (ha _)
  · rfl

namespace Starting

/-- Steps other than `leave` and `load` leave no trace in the history that the invariant speaks of. -/
theorem cons (hi : Starting tr s') (hleave : a ≠ .leave) (hload : ∀ shelving, a ≠ .load shelving) :
    Starting (⟨s, a, s'⟩ :: tr) s' := by
  have hmisled : Misled (⟨s, a, s'⟩ :: tr) s' ↔ Misled tr s' := or_congr_right (overtaken_cons_of_ne hleave)
  refine ⟨?_, ?_, hi.switched, hi.oldDatastore, ?_, hi.subscribed, hi.own, ?_, hi.started⟩
  · rw [hmisled]
    exact hi.session
  · rw [hmisled]
    exact hi.saved
  · rw [overtaken_cons_of_ne hleave]
    exact hi.overtaken
  · rw [lastLoaded_cons_of_ne hload]
    exact hi.rules

/-- As long as the constructor has not switched, no callback holds `m_mtx`. -/
theorem not_control (hi : Starting tr s) (hscope : s.constructor.inScope = false) (hleft : s.constructor ≠ .left)
    {own : Bool} {phase : ControlPhase} : s.holder ≠ .control own phase := by
  intro hcontrol
  rcases hi.subscribed hcontrol with h | h
  · rw [hscope] at h
    cases h
  · exact hleft h

theorem saved_none (hi : Starting tr s) (hscope : s.constructor.inScope = false) (hleft : s.constructor ≠ .left) :
    s.holder.oldDatastore? = none := by
  rcases hholder : s.holder with _ | _ | ⟨own, phase⟩
  · rfl
  · rfl
  · exact absurd hholder (hi.not_control hscope hleft)

theorem enter (hi : Starting tr s) (hs : s.constructor = .subscribed) :
    Starting tr { s with constructor := .entering s.session } := by
  have hscope : s.constructor.inScope = false := by rw [hs]; rfl
  have hleft : s.constructor ≠ .left := by rw [hs]; nofun
  have hnone := hi.saved_none hscope hleft
  have hovertaken : ¬ Overtaken tr := fun h => hleft (hi.overtaken h)
  have hnot : ¬ Misled tr s := by simp [Misled, hscope, hovertaken]
  have hsession : s.session ≠ .running := fun h => hnot ((hi.session hnone).1 h)
  refine ⟨?_, ?_, hi.switched, ?_, fun h => absurd h hovertaken, ?_, ?_, hi.rules, nofun⟩
  · simp [Misled, hovertaken, ConstructorPhase.inScope, hsession]
  · simp [hnone]
  · simp only [ConstructorPhase.oldDatastore?, Option.mem_some_iff, forall_eq']
    cases hd : s.session with
    | running => exact absurd hd hsession
    | operational => rfl
  · exact fun h => absurd h (hi.not_control hscope hleft)
  · exact fun h => absurd h (hi.not_control hscope hleft)

theorem switch {old : Datastore} (hi : Starting tr s) (hs : s.constructor = .entering old) :
    Starting tr { s with session := .running, constructor := .inside old } := by
  have hscope : s.constructor.inScope = false := by rw [hs]; rfl
  have hleft : s.constructor ≠ .left := by rw [hs]; nofun
  have hnone := hi.saved_none hscope hleft
  have hold : old = .operational := hi.oldDatastore old (by rw [hs]; rfl)
  refine ⟨?_, ?_, ?_, ?_, ?_, ?_, ?_, hi.rules, nofun⟩
  · simp [Misled, ConstructorPhase.inScope]
  · simp [hnone]
  · exact fun h => absurd h (hi.not_control hscope hleft)
  · simp [ConstructorPhase.oldDatastore?, hold]
  · exact fun h => absurd (hi.overtaken h) hleft
  · exact fun h => absurd h (hi.not_control hscope hleft)
  · exact fun h => absurd h (hi.not_control hscope hleft)

/-- The scope of the constructor ends. A callback that has already read the old datastore has read the running one. -/
theorem leave {old : Datastore} (hi : Starting tr s) (hs : s.constructor = .configured old) :
    Starting (⟨s, .leave, { s with session := old, constructor := .left }⟩ :: tr)
      { s with session := old, constructor := .left } := by
  have hold : old = .operational := hi.oldDatastore old (by rw [hs]; rfl)
  have hovertaken : ¬ Overtaken tr := fun h => by
    have := hi.overtaken h
    rw [hs] at this
    cases this
  have hmisled : Misled tr s := .inl (by rw [hs]; rfl)
  have hstarted : s.shelvingRules.isSome = true := hi.started (by rw [hs]; rfl)
  refine ⟨fun hnone => ?_, fun old' hold' => ?_, fun _ => hold, nofun, fun _ => rfl, fun _ => .inr rfl, fun h => ?_,
    hi.rules, fun _ => hstarted⟩
  · have hnone' : s.holder.oldDatastore? = none := hnone
    simp [Misled, overtaken_cons, hovertaken, ConstructorPhase.inScope, hnone', hold]
  · have hrunning : old' = .running := (hi.saved old' hold').2 hmisled
    have hsome : s.holder.oldDatastore?.isSome = true := Option.isSome_of_mem hold'
    simp [Misled, overtaken_cons, hsome, hrunning]
  · obtain ⟨⟨old', h'⟩, -⟩ := hi.own h
    rw [hs] at h'
    cases h'

/-- Handlers do not touch `m_session`. -/
theorem handle (hi : Starting tr s) {holder : Holder} (hnone : s.holder.oldDatastore? = none)
    (hholder : ∀ own phase, holder ≠ .control own phase) : Starting tr { s with holder := holder } := by
  have hnone' : holder.oldDatastore? = none := by
    rcases holder with _ | _ | ⟨own, phase⟩
    · rfl
    · rfl
    · exact absurd rfl (hholder own phase)
  refine ⟨fun _ => hi.session hnone, ?_, ?_, hi.oldDatastore, hi.overtaken, ?_, ?_, hi.rules, hi.started⟩
  · simp [hnone']
  · exact fun h => absurd h (hholder _ _)
  · exact fun h => absurd h (hholder _ _)
  · exact fun h => absurd h (hholder _ _)

theorem enable {old : Datastore} (hi : Starting tr s) (hs : s.constructor = .inside old) (hfree : s.holder = .free) :
    Starting tr { s with holder := .control true .locked } := by
  have hnone : s.holder.oldDatastore? = none := by rw [hfree]; rfl
  refine ⟨fun _ => hi.session hnone, nofun, nofun, hi.oldDatastore, hi.overtaken, fun _ => ?_, ?_, hi.rules, hi.started⟩
  · exact .inl (by rw [hs]; rfl)
  · rintro phase ⟨⟩
    exact ⟨⟨old, hs⟩, .inl rfl⟩

theorem controlLock (hi : Starting tr s) (hs : s.constructor.inScope = true ∨ s.constructor = .left)
    (hfree : s.holder = .free) : Starting tr { s with holder := .control false .locked } := by
  have hnone : s.holder.oldDatastore? = none := by rw [hfree]; rfl
  exact ⟨fun _ => hi.session hnone, nofun, nofun, hi.oldDatastore, hi.overtaken, fun _ => hs, nofun, hi.rules, hi.started⟩

theorem load {own : Bool} {shelving : ShelvingRules} (hi : Starting tr s) (hholder : s.holder = .control own .locked) :
    Starting (⟨s, .load shelving, { s with shelvingRules := some shelving, holder := .control own .loaded }⟩ :: tr)
      { s with shelvingRules := some shelving, holder := .control own .loaded } := by
  have hnone : s.holder.oldDatastore? = none := by rw [hholder]; rfl
  have hovertaken : ∀ s', Overtaken (⟨s, .load shelving, s'⟩ :: tr) ↔ Overtaken tr := fun _ => overtaken_cons_of_ne nofun
  refine ⟨fun _ => ?_, nofun, nofun, hi.oldDatastore, ?_, fun _ => hi.subscribed hholder, ?_, rfl, fun _ => rfl⟩
  · rw [Misled, hovertaken]
    exact hi.session hnone
  · rw [hovertaken]
    exact hi.overtaken
  · rintro phase ⟨⟩
    exact ⟨(hi.own hholder).1, .inr rfl⟩

theorem oldDatastore?_of_settled {own : Bool} {phase : ControlPhase} (h : phase.settled own = true) :
    phase.oldDatastore? = none := by
  cases phase with
  | saved _ => cases h
  | switched _ => cases h
  | _ => rfl

theorem save {own : Bool} {phase : ControlPhase} (hi : Starting tr s) (hholder : s.holder = .control own phase)
    (hsettled : phase.settled own = true) : Starting tr { s with holder := .control own (.saved s.session) } := by
  have hnone : s.holder.oldDatastore? = none := by
    rw [hholder]
    exact oldDatastore?_of_settled hsettled
  refine ⟨nofun, ?_, nofun, hi.oldDatastore, hi.overtaken, fun _ => hi.subscribed hholder, ?_, hi.rules, hi.started⟩
  · rintro old ⟨⟩
    exact hi.session hnone
  · rintro phase ⟨⟩
    obtain ⟨hinside, rfl | hrules⟩ := hi.own hholder
    · cases hsettled
    · exact ⟨hinside, .inr hrules⟩

theorem controlSwitch {own : Bool} {old : Datastore} (hi : Starting tr s) (hholder : s.holder = .control own (.saved old)) :
    Starting tr { s with session := .operational, holder := .control own (.switched old) } := by
  have hold : old ∈ s.holder.oldDatastore? := by rw [hholder]; rfl
  refine ⟨nofun, ?_, fun _ => rfl, hi.oldDatastore, hi.overtaken, fun _ => hi.subscribed hholder, ?_, hi.rules, hi.started⟩
  · rintro old' ⟨⟩
    exact hi.saved old hold
  · rintro phase ⟨⟩
    exact ⟨(hi.own hholder).1, .inr ((hi.own hholder).2.resolve_left nofun)⟩

theorem restore {own : Bool} {old : Datastore} (hi : Starting tr s) (hholder : s.holder = .control own (.switched old)) :
    Starting tr { s with session := old, holder := .control own .restored } := by
  have hold : old ∈ s.holder.oldDatastore? := by rw [hholder]; rfl
  refine ⟨fun _ => hi.saved old hold, nofun, nofun, hi.oldDatastore, hi.overtaken, fun _ => hi.subscribed hholder, ?_,
    hi.rules, hi.started⟩
  rintro phase ⟨⟩
  exact ⟨(hi.own hholder).1, .inr ((hi.own hholder).2.resolve_left nofun)⟩

/-- The constructor goes on when its own callback has returned, still in the scope of its switch. -/
theorem controlUnlock {own : Bool} {phase : ControlPhase} (hi : Starting tr s) (hholder : s.holder = .control own phase)
    (hends : phase.ends own = true) : Starting tr { s with
      holder := .free
      constructor := if own then
        match s.constructor with
        | .inside old => .configured old
        | phase => phase
      else s.constructor } := by
  have hnone : s.holder.oldDatastore? = none := by
    rw [hholder]
    cases phase with
    | saved _ => cases hends
    | switched _ => cases hends
    | _ => rfl
  cases own with
  | false => exact hi.handle hnone nofun
  | true =>
    obtain ⟨⟨old, hinside⟩, hloaded⟩ := hi.own hholder
    have hrules : s.shelvingRules.isSome = true := by
      rcases hloaded with rfl | h
      · cases hends
      · exact h
    have hovertaken : ¬ Overtaken tr := fun h => by
      have := hi.overtaken h
      rw [hinside] at this
      cases this
    have hold : old = .operational := hi.oldDatastore old (by rw [hinside]; rfl)
    have hrunning : s.session = .running := (hi.session hnone).2 (.inl (by rw [hinside]; rfl))
    simp only [hinside, if_true]
    refine ⟨fun _ => ?_, nofun, nofun, ?_, fun h => absurd h hovertaken, nofun, nofun, hi.rules, fun _ => hrules⟩
    · simp [Misled, ConstructorPhase.inScope, hrunning]
    · simp [ConstructorPhase.oldDatastore?, hold]

theorem step (hi : Starting tr s) (hs : StartupStep s a s') : Starting (⟨s, a, s'⟩ :: tr) s' := by
  cases hs with
  | enter h => exact (hi.enter h).cons nofun fun _ => nofun
  | switch h => exact (hi.switch h).cons nofun fun _ => nofun
  | enable h hfree => exact (hi.enable h hfree).cons nofun fun _ => nofun
  | leave h => exact hi.leave h
  | request handler hfree =>
    refine Starting.cons ?_ nofun fun _ => nofun
    exact hi.handle (by rw [hfree]; rfl) nofun
  | access hholder _ =>
    refine Starting.cons ?_ nofun fun _ => nofun
    exact hi.handle (by rw [hholder]; rfl) nofun
  | reply hholder =>
    refine Starting.cons ?_ nofun fun _ => nofun
    exact hi.handle (by rw [hholder]; rfl) nofun
  | controlLock h hfree => exact (hi.controlLock h hfree).cons nofun fun _ => nofun
  | load shelving hholder => exact hi.load hholder
  | save hholder hsettled => exact (hi.save hholder hsettled).cons nofun fun _ => nofun
  | controlSwitch hholder => exact (hi.controlSwitch hholder).cons nofun fun _ => nofun
  | controlWrite hholder _ => exact hi.cons nofun fun _ => nofun
  | restore hholder => exact (hi.restore hholder).cons nofun fun _ => nofun
  | controlUnlock hholder hends => exact (hi.controlUnlock hholder hends).cons nofun fun _ => nofun

end Starting

theorem starting_of_run (h : StartupRun tr s) : Starting tr s := by
  refine h.invariant (I := Starting) (fun s hstart => ?_) fun _ _ _ _ _ hi hs => hi.step hs
  have hnone : s.holder.oldDatastore? = none := by rw [hstart.holder]; rfl
  have hstarted : s.constructor.started = false := by rw [hstart.constructor]; rfl
  refine ⟨fun _ => ?_, ?_, ?_, ?_, fun h => absurd h overtaken_nil, ?_, ?_, hstart.shelvingRules, ?_⟩
  · simp [Misled, hstart.session, hstart.constructor, ConstructorPhase.inScope]
  · simp [hnone]
  · simp [hstart.holder]
  · simp [hstart.constructor, ConstructorPhase.oldDatastore?]
  · simp [hstart.holder]
  · simp [hstart.holder]
  · simp [hstarted]

/-- A handler reads and writes the running datastore exactly in the scope of the constructor's switch and after a
callback that this scope's end has overtaken; it finds the rules of the latest load, and once the constructor's own
callback has returned there are some. The callbacks themselves always write the operational datastore. -/
theorem finds_of_run (h : StartupRun tr s) (hs : t :: tr' <:+ tr) :
    (∀ a, t.label = .access a → (t.before.session = .running ↔ Misled tr' t.before) ∧
      t.before.shelvingRules = lastLoaded tr' ∧
      (t.before.constructor.started = true → t.before.shelvingRules.isSome = true)) ∧
    ∀ a, t.label = .controlWrite a → t.before.session = .operational := by
  obtain ⟨s₁, l, s₂⟩ := t
  obtain ⟨hrun, hstep⟩ := h.of_suffix hs
  have hi := starting_of_run hrun
  refine ⟨?_, ?_⟩
  · rintro a ⟨⟩
    refine ⟨?_, hi.rules, hi.started⟩
    have hstep' : StartupStep s₁ (.access a) s₂ := hstep
    cases hstep' with
    | access hholder _ => exact hi.session (by rw [hholder]; rfl)
  · rintro a ⟨⟩
    have hstep' : StartupStep s₁ (.controlWrite a) s₂ := hstep
    cases hstep' with
    | controlWrite hholder _ => exact hi.switched hholder

namespace AlarmsTest

/-- A control change comes while the constructor is about to leave its scope, and a list operation afterwards. -/
theorem finds_of_run_overtaken : ∃ t : Transition Startup StartupAction,
    t.label = .access .editBatch ∧ t.before.constructor = .left ∧ t.before.session = .running := by
  have hstart : StartupRun [] ⟨.operational, none, .subscribed, .free⟩ := .start ⟨rfl, rfl, rfl, rfl⟩
  have hinside := ((hstart.step (.enter rfl)).step (.switch rfl)).step (.enable rfl rfl)
  have hconfigured := (hinside.step (.load [] rfl)).step (.controlUnlock rfl rfl)
  have hsaved := ((hconfigured.step (.controlLock (.inl rfl) rfl)).step (.load [] rfl)).step (.save rfl rfl)
  have hrestored := ((hsaved.step (.leave rfl)).step (.controlSwitch rfl)).step (.restore rfl)
  have hunlocked := (hrestored.step (.controlUnlock rfl rfl)).step (.request .list rfl)
  have haccess := hunlocked.step (.access rfl List.mem_cons_self)
  have hfinds := (finds_of_run haccess List.suffix_rfl).1 _ rfl
  exact ⟨_, rfl, rfl, hfinds.1.2 (.inr (by simp [Overtaken, Holder.oldDatastore?, ControlPhase.oldDatastore?]))⟩

end AlarmsTest

end IetfAlarms

import IetfAlarms.Shelving
import IetfAlarms.StatusChanges

/-!
# The cached control configuration

The callback for `control` folds over the changes of a commit, in whatever order they come. The first
change below `alarm-shelving` ends the loop, so that a setting which comes after it is lost. In the runs
where none does (`SettingsFirst`) the daemon's settings and rules are those of the committed configuration
(`Cached`), whatever else the order and the mix of changes are.
-/

namespace IetfAlarms
open Program Trace

/-! ### Configurations and their changes -/

/-- `/ietf-alarms:alarms/control`, the defaults filled in. There is a level for the mode `severity-level`,
and there only. -/
structure ControlConfig where
  notifyStatusChanges : NotifyStatusChanges
  notifySeverityLevel : Option Severity
  maxAlarmStatusChanges : Option UInt16
  alarmShelving : ShelvingRules
  level_iff : notifyStatusChanges = .bySeverity ↔ notifySeverityLevel.isSome

namespace ControlChange

/-- The value that a change reports for `notify-status-changes`. -/
def mode : ControlChange → Option NotifyStatusChanges
  | notifyStatusChanges value => some value
  | _ => none

def level : ControlChange → Option (Option Severity)
  | notifySeverityLevel value => some value
  | _ => none

def limit : ControlChange → Option (Option UInt16)
  | maxAlarmStatusChanges value => some value
  | _ => none

/-- A change of one of the three settings. -/
def isSetting (c : ControlChange) : Bool := c.mode.isSome || c.level.isSome || c.limit.isSome

end ControlChange

/-- The changes report nothing but the new value of this leaf, and they do report it unless the leaf had it
before. -/
def ReportsLeaf {α : Type} (read : ControlChange → Option α) (old : Option α) (new : α)
    (changes : List ControlChange) : Prop :=
  (∀ c ∈ changes, read c = none ∨ read c = some new) ∧ (old = some new ∨ ∃ c ∈ changes, read c = some new)

/-- The changes are the difference between two configurations, in some order; the first configuration
differs from nothing. -/
structure Reports (old : Option ControlConfig) (new : ControlConfig) (changes : List ControlChange) : Prop where
  mode : ReportsLeaf ControlChange.mode (old.map (·.notifyStatusChanges)) new.notifyStatusChanges changes
  level : ReportsLeaf ControlChange.level (some (old.bind (·.notifySeverityLevel))) new.notifySeverityLevel changes
  limit : ReportsLeaf ControlChange.limit (old.map (·.maxAlarmStatusChanges)) new.maxAlarmStatusChanges changes
  shelving : old.map (·.alarmShelving) = some new.alarmShelving ∨ ControlChange.alarmShelving ∈ changes

/-- No change of a setting comes after one below `alarm-shelving`. -/
def SettingsFirst (changes : List ControlChange) : Prop :=
  changes.Pairwise fun c c' => c = .alarmShelving → c'.isSetting = false

instance {α : Type} [DecidableEq α] (read : ControlChange → Option α) (old : Option α) (new : α)
    (changes : List ControlChange) : Decidable (ReportsLeaf read old new changes) :=
  inferInstanceAs (Decidable (_ ∧ _))

instance (old : Option ControlConfig) (new : ControlConfig) (changes : List ControlChange) :
    Decidable (Reports old new changes) :=
  decidable_of_iff (_ ∧ _ ∧ _ ∧ _) ⟨fun h => ⟨h.1, h.2.1, h.2.2.1, h.2.2.2⟩,
    fun h => ⟨h.mode, h.level, h.limit, h.shelving⟩⟩

instance (changes : List ControlChange) : Decidable (SettingsFirst changes) :=
  inferInstanceAs (Decidable (changes.Pairwise _))

/-! ### The loop over the changes -/

/-- A setting is the new one afterwards if it was before, or if it is reported. -/
theorem view_scanChanges {α : Type} (view : Daemon → α) (read : ControlChange → Option α) {new : α}
    (hmode : ∀ value (d : Daemon), view { d with notifyStatusChanges := value } =
      (read (.notifyStatusChanges value)).getD (view d))
    (hlevel : ∀ (value : Option Severity) (d : Daemon),
      view { d with notifySeverityThreshold := value.map (·.value) } = (read (.notifySeverityLevel value)).getD (view d))
    (hlimit : ∀ value (d : Daemon), view { d with maxAlarmStatusChanges := value } =
      (read (.maxAlarmStatusChanges value)).getD (view d))
    (hread : ∀ c, c.isSetting = false → read c = none) {changes : List ControlChange} (hfirst : SettingsFirst changes)
    (hnew : ∀ c ∈ changes, read c = none ∨ read c = some new) (d : Daemon) (shrink : Bool)
    (h : view d = new ∨ ∃ c ∈ changes, read c = some new) : view (scanChanges changes d shrink).daemon = new := by
  induction changes generalizing d shrink with
  | nil =>
    rcases h with h | ⟨c, hc, -⟩
    · exact h
    · cases hc
  | cons c changes ih =>
    obtain ⟨hbehind, htail⟩ := List.pairwise_cons.1 hfirst
    have hnew' : ∀ c ∈ changes, read c = none ∨ read c = some new := fun c hc => hnew c (List.mem_cons_of_mem _ hc)
    -- one round: the value is the reported one, if there is one
    have hround : ∀ d' : Daemon, view d' = (read c).getD (view d) →
        view d' = new ∨ ∃ c ∈ changes, read c = some new := by
      intro d' hd'
      rcases hnew c List.mem_cons_self with hc | hc
      · rw [hc] at hd'
        refine h.imp (fun h => hd'.trans h) ?_
        rintro ⟨c', hc', hread'⟩
        rcases List.mem_cons.1 hc' with rfl | hc'
        · rw [hc] at hread'
          cases hread'
        · exact ⟨c', hc', hread'⟩
      · rw [hc] at hd'
        exact .inl hd'
    cases c with
    | alarmShelving =>
      rcases hround d (by rw [hread _ rfl]; rfl) with h | ⟨c, hc, hr⟩
      · exact h
      · rw [hread c (hbehind c hc rfl)] at hr
        cases hr
    | notifyStatusChanges value => exact ih htail hnew' _ _ (hround _ (hmode value d))
    | notifySeverityLevel value => exact ih htail hnew' _ _ (hround _ (hlevel value d))
    | maxAlarmStatusChanges value => exact ih htail hnew' _ _ (hround _ (hlimit value d))
    | other => exact ih htail hnew' _ _ (hround _ (by rw [hread _ rfl]; rfl))

section
variable {old : Option ControlConfig} {new : ControlConfig} {changes : List ControlChange}

theorem mode_scanChanges (hfirst : SettingsFirst changes) (h : Reports old new changes) (d : Daemon) (shrink : Bool)
    (hd : ∀ c, old = some c → d.notifyStatusChanges = c.notifyStatusChanges) :
    (scanChanges changes d shrink).daemon.notifyStatusChanges = new.notifyStatusChanges := by
  refine view_scanChanges Daemon.notifyStatusChanges ControlChange.mode (fun _ _ => rfl) (fun _ _ => rfl)
    (fun _ _ => rfl) (fun c hc => ?_) hfirst h.mode.1 d shrink (h.mode.2.imp_left fun ho => ?_)
  · cases c <;> first | rfl | cases hc
  · obtain ⟨c, hc, hmode⟩ := Option.map_eq_some_iff.1 ho
    exact (hd c hc).trans hmode

theorem limit_scanChanges (hfirst : SettingsFirst changes) (h : Reports old new changes) (d : Daemon) (shrink : Bool)
    (hd : ∀ c, old = some c → d.maxAlarmStatusChanges = c.maxAlarmStatusChanges) :
    (scanChanges changes d shrink).daemon.maxAlarmStatusChanges = new.maxAlarmStatusChanges := by
  refine view_scanChanges Daemon.maxAlarmStatusChanges ControlChange.limit (fun _ _ => rfl) (fun _ _ => rfl)
    (fun _ _ => rfl) (fun c hc => ?_) hfirst h.limit.1 d shrink (h.limit.2.imp_left fun ho => ?_)
  · cases c <;> first | rfl | cases hc
  · obtain ⟨c, hc, hlimit⟩ := Option.map_eq_some_iff.1 ho
    exact (hd c hc).trans hlimit

/-- The threshold is that of the level, or none without a level. -/
def ControlConfig.threshold (c : ControlConfig) : Option Int := c.notifySeverityLevel.map (·.value)

theorem threshold_scanChanges (hfirst : SettingsFirst changes) (h : Reports old new changes) (d : Daemon)
    (shrink : Bool) (hd : d.notifySeverityThreshold = old.bind ControlConfig.threshold) :
    (scanChanges changes d shrink).daemon.notifySeverityThreshold = new.threshold := by
  refine view_scanChanges Daemon.notifySeverityThreshold (fun c => c.level.map fun value => value.map (·.value))
    (fun _ _ => rfl) (fun _ _ => rfl) (fun _ _ => rfl) (fun c hc => ?_) hfirst (fun c hc => ?_) d shrink ?_
  · cases c <;> first | rfl | cases hc
  · refine (h.level.1 c hc).imp (fun hn => ?_) fun hs => ?_
    · rw [hn]
      rfl
    · rw [hs]
      rfl
  · refine h.level.2.imp (fun ho => ?_) ?_
    · rw [hd, ControlConfig.threshold, ← Option.some.inj ho]
      cases old <;> rfl
    · rintro ⟨c, hc, hs⟩
      refine ⟨c, hc, ?_⟩
      rw [hs]
      rfl

end

/-! ### Commits -/

section
variable [Libyang] {b : Boot} {w w₁ w' : World} {ev : Event} {k : InstanceKey}
variable {tr : History} {t : Transition World Event} {c c' : ControlConfig} {changes : List ControlChange}

/-- The configuration that is committed after these calls: the daemon is told of every commit, the first
one when it starts. -/
inductive Commits (b : Boot) : History → ControlConfig → Prop
  | start {c : ControlConfig} : Reports none c b.changes → b.shelving = c.alarmShelving → Commits b [] c
  | commit {t : Transition World Event} {tr : History} {c c' : ControlConfig} {changes : List ControlChange} :
      Commits b tr c → t.label.call = .controlChanged changes c'.alarmShelving → Reports (some c) c' changes →
      Commits b (t :: tr) c'
  | other {t : Transition World Event} {tr : History} {c : ControlConfig} :
      Commits b tr c → (∀ changes shelving, t.label.call ≠ .controlChanged changes shelving) → Commits b (t :: tr) c

/-- The daemon's settings are those of this configuration, and every alarm's history is within its limit. -/
structure Cached (c : ControlConfig) (w : World) : Prop where
  notifyStatusChanges : w.notifyStatusChanges = c.notifyStatusChanges
  notifySeverityThreshold : w.notifySeverityThreshold = c.threshold
  maxAlarmStatusChanges : w.maxAlarmStatusChanges = c.maxAlarmStatusChanges
  shelvingRules : w.shelvingRules = some c.alarmShelving
  withinLimit : ∀ k e, w.alarms.lookup k = some e → ∀ limit, c.maxAlarmStatusChanges = some limit →
    e.statusChanges.length ≤ limit.toNat
  thresholdSet : w.notifyStatusChanges = .bySeverity → w.notifySeverityThreshold.isSome

/-- A commit reports its settings before its shelves, and the shelves can be read. -/
def Heeded (t : Transition World Event) : Prop :=
  ∀ changes shelving, t.label.call = .controlChanged changes shelving →
    SettingsFirst changes ∧ (ControlChange.alarmShelving ∈ changes → t.label.env.getDataThrows = false)

omit [Libyang] in
theorem Heeded.readsRules (h : Heeded t) : ReadsRules t := by
  intro changes shelving hcall
  cases hn : needsReshelve changes t.before with
  | false => rfl
  | true => rw [(h changes shelving hcall).2 (needsReshelve_iff.1 hn), Bool.and_false]

omit [Libyang] in
/-- The rules in force are the committed ones: where no change is reported, there was none. -/
theorem loadedRules_of_commits (hc : Commits b tr c) (hs : ∀ t ∈ tr, Heeded t) : loadedRules b tr = c.alarmShelving := by
  induction hc with
  | start _ hshelving => exact hshelving
  | commit hbefore hcall hreports ih =>
    rename_i t tr c c' changes
    rw [loadedRules, hcall]
    simp only
    split
    · rfl
    · rename_i hn
      have hmem : ControlChange.alarmShelving ∉ changes := fun hm =>
        hn ⟨hm, (hs t List.mem_cons_self _ _ hcall).2 hm⟩
      have hsame := hreports.shelving.resolve_right hmem
      rw [ih fun t ht => hs t (List.mem_cons_of_mem _ ht)]
      exact Option.some.inj hsame
  | other _ hno ih =>
    rename_i t tr c _
    have hrest := ih fun t ht => hs t (List.mem_cons_of_mem _ ht)
    rw [loadedRules]
    split
    · rename_i changes shelving hcall
      exact absurd hcall (hno changes shelving)
    · exact hrest

/-! ### Settings -/

/-- The three settings of these states are the same. -/
structure SameSettings (w w' : World) : Prop where
  notifyStatusChanges : w'.notifyStatusChanges = w.notifyStatusChanges
  notifySeverityThreshold : w'.notifySeverityThreshold = w.notifySeverityThreshold
  maxAlarmStatusChanges : w'.maxAlarmStatusChanges = w.maxAlarmStatusChanges

omit [Libyang] in
theorem SameSettings.of_frame (h : w'.frame = w.frame) : SameSettings w w' := by
  have hmode := congrArg (fun w : World => w.notifyStatusChanges) h
  have hthreshold := congrArg (fun w : World => w.notifySeverityThreshold) h
  have hlimit := congrArg (fun w : World => w.maxAlarmStatusChanges) h
  exact ⟨hmode, hthreshold, hlimit⟩

/-- Only control changes touch the settings. -/
theorem Effect.sameSettings (he : Effect w ev w₁)
    (hno : ∀ changes shelving, ev.call ≠ .controlChanged changes shelving) : SameSettings w w₁ := by
  cases he with
  | none => exact ⟨rfl, rfl, rfl⟩
  | submitted => exact ⟨rfl, rfl, rfl⟩
  | submittedPartly => exact ⟨rfl, rfl, rfl⟩
  | purged filter => exact .of_frame (w.purged_frame _ filter _)
  | compressed => exact .of_frame (w.compressed_frame _ _)
  | scanned => exact absurd rfl (hno _ _)
  | controlled => exact absurd rfl (hno _ _)

/-- And they leave them as the loop over the changes does. -/
theorem sameSettings_controlled (now : TimePoint) (changes : List ControlChange) (shelving : ShelvingRules) (w : World) :
    SameSettings (w.scanned changes) (w.controlled now changes shelving) := by
  have hframe := World.controlled_frame now changes shelving w
  have hmode := congrArg (fun w : World => w.notifyStatusChanges) hframe
  have hthreshold := congrArg (fun w : World => w.notifySeverityThreshold) hframe
  have hlimit := congrArg (fun w : World => w.maxAlarmStatusChanges) hframe
  exact ⟨hmode, hthreshold, hlimit⟩

/-- The settings of a configuration. -/
structure HasSettings (c : ControlConfig) (w : World) : Prop where
  notifyStatusChanges : w.notifyStatusChanges = c.notifyStatusChanges
  notifySeverityThreshold : w.notifySeverityThreshold = c.threshold
  maxAlarmStatusChanges : w.maxAlarmStatusChanges = c.maxAlarmStatusChanges

omit [Libyang] in
theorem HasSettings.congr (h : HasSettings c w) (hs : SameSettings w w') : HasSettings c w' :=
  ⟨hs.notifyStatusChanges.trans h.notifyStatusChanges, hs.notifySeverityThreshold.trans h.notifySeverityThreshold,
    hs.maxAlarmStatusChanges.trans h.maxAlarmStatusChanges⟩

omit [Libyang] in
theorem HasSettings.scanned (h : HasSettings c w) (hfirst : SettingsFirst changes) (hreports : Reports (some c) c' changes) :
    HasSettings c' (w.scanned changes) := by
  constructor
  · refine mode_scanChanges hfirst hreports w.toDaemon false fun c₁ hc₁ => ?_
    cases hc₁
    exact h.notifyStatusChanges
  · exact threshold_scanChanges hfirst hreports w.toDaemon false h.notifySeverityThreshold
  · refine limit_scanChanges hfirst hreports w.toDaemon false fun c₁ hc₁ => ?_
    cases hc₁
    exact h.maxAlarmStatusChanges

theorem Boots.hasSettings (h : Boots b w) (hfirst : SettingsFirst b.changes) (hreports : Reports none c b.changes) :
    HasSettings c w := by
  refine ⟨h.notifyStatusChanges.trans ?_, h.notifySeverityThreshold.trans ?_, h.limit.trans ?_⟩
  · exact mode_scanChanges hfirst hreports _ false fun _ hc => by cases hc
  · exact threshold_scanChanges hfirst hreports b.created.recount.toDaemon false rfl
  · exact limit_scanChanges hfirst hreports _ false fun _ hc => by cases hc

theorem hasSettings_of_run (h : DaemonRun b tr w) (hb : SettingsFirst b.changes) (hs : ∀ t ∈ tr, Heeded t)
    (hc : Commits b tr c) : HasSettings c w := by
  refine h.invariant (I := fun tr w => ∀ c, (∀ t ∈ tr, Heeded t) → Commits b tr c → HasSettings c w)
    (fun w hstart c _ hc => ?_) (fun tr w ev w' hrun ih hp c hs hc => ?_) c hs hc
  · cases hc with
    | start hreports => exact hstart.boots.hasSettings hb hreports
  · have hs' : ∀ t ∈ tr, Heeded t := fun t ht => hs t (List.mem_cons_of_mem _ ht)
    obtain ⟨w₁, he, hsame⟩ := (hp.ends (Inv.of_run hrun)).effect
    have hmemory : SameSettings w₁ w' := ⟨hsame.notifyStatusChanges, hsame.notifySeverityThreshold, hsame.limit⟩
    cases hc with
    | other hbefore hno => exact ((ih _ hs' hbefore).congr (he.sameSettings hno)).congr hmemory
    | commit hbefore hcall hreports =>
      obtain ⟨hfirst, -⟩ := hs _ List.mem_cons_self _ _ hcall
      have hreads := (hs _ List.mem_cons_self).readsRules
      have hscanned := (ih _ hs' hbefore).scanned hfirst hreports
      obtain ⟨call, env, r⟩ := ev
      cases hcall
      cases he with
      | none _ hno => exact absurd rfl (hno _ _)
      | scanned hg =>
        rw [hreads _ _ rfl] at hg
        cases hg
      | controlled => exact (hscanned.congr (sameSettings_controlled _ _ _ _)).congr hmemory

/-- The daemon follows the configuration through every run in which no commit reports a setting after a
shelf, and the shelves can be read whenever they have changed. -/
theorem cached_of_run (h : DaemonRun b tr w) (hc : Commits b tr c) (hb : SettingsFirst b.changes)
    (hs : ∀ t ∈ tr, Heeded t) : Cached c w := by
  have hsettings := hasSettings_of_run h hb hs hc
  refine ⟨hsettings.notifyStatusChanges, hsettings.notifySeverityThreshold, hsettings.maxAlarmStatusChanges, ?_, ?_, ?_⟩
  · rw [shelvingRules_of_run h, loadedRules_of_commits hc hs]
  · intro k e he limit hlimit
    have hwithin := withinLimit_of_run h (fun t ht => (hs t ht).readsRules) k e he
    rw [hsettings.maxAlarmStatusChanges, hlimit] at hwithin
    unfold AlarmEntry.excess at hwithin
    simp only at hwithin
    omega
  · intro hmode
    rw [hsettings.notifyStatusChanges, c.level_iff] at hmode
    rw [hsettings.notifySeverityThreshold, ControlConfig.threshold, Option.isSome_map]
    exact hmode

end

namespace AlarmsTest

/-- The default configuration. -/
def defaultControl : ControlConfig := ⟨.all, none, some 32, [], by decide⟩

theorem commits_default : Commits (boot []) (scenario [] []).1 defaultControl := .start (by decide) rfl

theorem commits_control {shelving : ShelvingRules} {calls : List (Call × Env)} {c c' : ControlConfig}
    {changes : List ControlChange} (env : Env) (h : Commits (boot shelving) (scenario shelving calls).1 c)
    (hr : Reports (some c) c' changes) :
    Commits (boot shelving) (scenario shelving ((.controlChanged changes c'.alarmShelving, env) :: calls)).1 c' :=
  .commit h rfl hr

theorem commits_submit {shelving : ShelvingRules} {calls : List (Call × Env)} {c : ControlConfig} (resource : String)
    (severity : SeverityWithClear) (text : String) (env : Env)
    (h : Commits (boot shelving) (scenario shelving calls).1 c) :
    Commits (boot shelving) (scenario shelving ((submit resource severity text, env) :: calls)).1 c :=
  .other h fun _ _ hcall => by cases hcall

def heeds (t : Transition World Event) : Bool :=
  match t.label.call with
  | .controlChanged changes _ => decide (SettingsFirst changes) && !t.label.env.getDataThrows
  | _ => true

theorem heeded_of_heeds {t : Transition World Event} (h : heeds t = true) : Heeded t := by
  intro changes shelving hcall
  rw [heeds, hcall] at h
  obtain ⟨hfirst, hread⟩ := Bool.and_eq_true_iff.1 h
  exact ⟨of_decide_eq_true hfirst, fun _ => by rwa [Bool.not_eq_true'] at hread⟩

/-- Everything changes at once. -/
def severityControl : ControlConfig := ⟨.bySeverity, some .major, some 1, [⟨"shelf", ["wss"], []⟩], by decide⟩

def severityChanges : List ControlChange :=
  [.notifySeverityLevel (some .major), .maxAlarmStatusChanges (some 1), .notifyStatusChanges .bySeverity,
    .alarmShelving, .alarmShelving]

def settingsCalls : List (Call × Env) :=
  [(.controlChanged severityChanges severityControl.alarmShelving, atTime 3),
    (submit "wss" (.active .major) "Getting worse.", atTime 2),
    (submit "wss" (.active .minor) "Hey, I'm overheating.", atTime 1)]

theorem commits_settings : Commits (boot []) (scenario [] settingsCalls).1 severityControl := by
  have hbefore := commits_submit "wss" (.active .major) "Getting worse." (atTime 2)
    (commits_submit "wss" (.active .minor) "Hey, I'm overheating." (atTime 1) commits_default)
  exact commits_control (atTime 3) hbefore (by decide)

theorem cached_settings : Cached severityControl (scenario [] settingsCalls).2 := by
  have hheeded : ((scenario [] settingsCalls).1.all heeds) = true := by decide +kernel
  exact cached_of_run (daemonRun_scenario (by decide +kernel)) commits_settings (by decide) fun t ht =>
    heeded_of_heeds (List.all_eq_true.1 hheeded t ht)

/-- The commit of a shelf and of another mode, the shelf first. -/
def raiseAndClearControl : ControlConfig := ⟨.raiseAndClear, none, some 32, [⟨"shelf", ["wss"], []⟩], by decide⟩

def shelfFirstCalls : List (Call × Env) :=
  [(.controlChanged [.alarmShelving, .notifyStatusChanges .raiseAndClear] raiseAndClearControl.alarmShelving, atTime 1)]

/-- The daemon goes on with the mode that it had. -/
theorem not_cached_shelfFirst : ¬ ∀ (b : Boot) (tr : History) (w : World) (c : ControlConfig), DaemonRun b tr w →
    Works tr → Commits b tr c → Cached c w := by
  intro hall
  have hcommits : Commits (boot []) (scenario [] shelfFirstCalls).1 raiseAndClearControl :=
    commits_control (atTime 1) commits_default (by decide)
  have hcached := hall _ _ _ _ (daemonRun_scenario (by decide +kernel)) (works_scenario (by decide +kernel)) hcommits
  have hmode := hcached.notifyStatusChanges
  revert hmode
  decide +kernel

end AlarmsTest

end IetfAlarms

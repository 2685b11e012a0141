import IetfAlarms.InventoryCache
import IetfAlarms.Submissions

/-!
# What the inventory lets through

The operations, one at a time, against the inventory as it was last committed. `submitAlarm` answers with
`data-missing` exactly when no entry of it has the alarm's type, resource and severity, whether or not it reads the
inventory again (`answers_of_run`); so every alarm was announced, with the severity that it has, when it got it
(`announced_of_run`).
-/

namespace IetfAlarms
open Program Trace

/-! ### Announced alarms -/

/-- An empty list of resources or of severities stands for all of them; a clear has any severity. -/
structure InventoryEntry.Announces (entry : InventoryEntry) (resource : String) (severity : SeverityWithClear) :
    Prop where
  resource : entry.resource = [] ∨ resource ∈ entry.resource
  severity : severity = .cleared ∨ entry.severityLevel = [] ∨ ∃ s ∈ entry.severityLevel, severity = .active s

/-- The type is a key of the inventory, so its first entry is the only one. -/
def AnnouncedIn (inventory : List InventoryEntry) (key : InstanceKey) (severity : SeverityWithClear) : Prop :=
  ∃ entry, inventory.find? (fun entry => key.type = entry.type) = some entry ∧ entry.Announces key.resource severity

theorem contains_severityLevel {levels : List Severity} {severity : SeverityWithClear} (hs : severity ≠ .cleared) :
    (levels.map (·.value)).contains severity.value = true ↔ ∃ s ∈ levels, severity = .active s := by
  cases severity with
  | cleared => exact absurd rfl hs
  | active s =>
    rw [List.contains_iff_mem, List.mem_map]
    constructor
    · rintro ⟨s', hs', hvalue⟩
      exact ⟨s', hs', by rw [Severity.value_injective hvalue]⟩
    · rintro ⟨s', hs', ⟨⟩⟩
      exact ⟨s, hs', rfl⟩

theorem value_ne_clearedSeverity {severity : SeverityWithClear} (hs : severity ≠ .cleared) :
    severity.value ≠ clearedSeverity := by
  cases severity with
  | cleared => exact absurd rfl hs
  | active s => cases s <;> decide

/-- The index gives the answer that the inventory gives. -/
theorem inventoryValidationError_eq_none (inventory : List InventoryEntry) (key : InstanceKey)
    (severity : SeverityWithClear) :
    inventoryValidationError (indexOf inventory) key severity.value = .ok none ↔ AnnouncedIn inventory key severity := by
  unfold inventoryValidationError AnnouncedIn
  rw [lookup_indexOf]
  cases inventory.find? fun entry => key.type = entry.type with
  | none => simp
  | some entry =>
    have hresource : (!entry.resource.isEmpty && !entry.resource.contains key.resource) = false ↔
        entry.resource = [] ∨ key.resource ∈ entry.resource := by
      rw [or_iff_not_imp_left]
      simp
    have hseverity : (!(entry.severityLevel.map (·.value)).isEmpty && severity.value != clearedSeverity &&
        !(entry.severityLevel.map (·.value)).contains severity.value) = false ↔
        severity = .cleared ∨ entry.severityLevel = [] ∨ ∃ s ∈ entry.severityLevel, severity = .active s := by
      by_cases hs : severity = .cleared
      · simp [hs, SeverityWithClear.value]
      · have hne := value_ne_clearedSeverity hs
        rw [← contains_severityLevel hs, or_iff_right hs, or_iff_not_imp_left]
        simp [hne]
    have hannounces : entry.Announces key.resource severity ↔
        (!entry.resource.isEmpty && !entry.resource.contains key.resource) = false ∧
          (!(entry.severityLevel.map (·.value)).isEmpty && severity.value != clearedSeverity &&
            !(entry.severityLevel.map (·.value)).contains severity.value) = false := by
      rw [hresource, hseverity]
      exact ⟨fun h => ⟨h.1, h.2⟩, fun h => ⟨h.1, h.2⟩⟩
    simp only [Option.map_some, Option.some.injEq, exists_eq_left', InventoryEntry.data, hannounces]
    cases !entry.resource.isEmpty && !entry.resource.contains key.resource with
    | true => simp
    | false =>
      cases !(entry.severityLevel.map (·.value)).isEmpty && severity.value != clearedSeverity &&
          !(entry.severityLevel.map (·.value)).contains severity.value with
      | true => simp [severityText, severityName_value', Except.map]
      | false => simp

/-! ### Runs -/

section
variable [Libyang] {b : Boot} {tr tr' : History} {t : Transition World Event} {w w' : World} {ev : Event}
variable {env : Env} {o : String} {input : AlarmInput} {k : InstanceKey} {r : Except Failure Reply}

/-- The inventory as the latest change left it. -/
def committedInventory (b : Boot) : History → List InventoryEntry
  | [] => b.inventory
  | t :: tr =>
    match t.label.call with
    | .inventoryChanged inventory => inventory
    | _ => committedInventory b tr

structure SameInventory (w w' : World) : Prop where
  inventoryData : w'.inventoryData = w.inventoryData
  inventoryDirty : w'.inventoryDirty = w.inventoryDirty
  inventory : w'.inventory = w.inventory

omit [Libyang] in
theorem sameInventory_of_writtenAndNotified {α : Type} {a : α} {n : Option Notification} {r : Except Failure α}
    (h : writtenAndNotified env a w n = (r, w')) : SameInventory w w' := by
  unfold writtenAndNotified at h
  split at h
  · cases h
    exact ⟨rfl, rfl, rfl⟩
  · split at h
    · cases h
      exact ⟨rfl, rfl, rfl⟩
    · split at h
      · cases h
        exact ⟨rfl, rfl, rfl⟩
      · cases h
        exact ⟨rfl, rfl, rfl⟩

/-- A submission reads the inventory again or leaves the cache alone. -/
theorem Ends.sameInventory (h : Ends w ⟨.createOrUpdateAlarm o input, env, r⟩ w') :
    SameInventory w w' ∨ SameInventory w.refreshed w' := by
  cases h with
  | refused _ _ hw =>
    rcases hw with rfl | rfl
    · exact .inl ⟨rfl, rfl, rfl⟩
    · exact .inr ⟨rfl, rfl, rfl⟩
  | idle => exact .inr ⟨rfl, rfl, rfl⟩
  | clash => exact .inr ⟨rfl, rfl, rfl⟩
  | changed _ _ _ hr =>
    obtain ⟨hdata, hdirty, hindex⟩ := sameInventory_of_writtenAndNotified hr
    exact .inr ⟨hdata, hdirty, hindex⟩

theorem Performs.sameInventory (hp : Performs w ev w') (hignores : ev.call.IgnoresCache) : SameInventory w w' := by
  have hkept := cache_kept (fun _ _ _ => Call.commutes hignores _) hp.exec_eq
  exact ⟨congrArg (·.inventoryData) hkept, congrArg (·.inventoryDirty) hkept, congrArg (·.inventory) hkept⟩

/-- The cache, if it is not marked, indexes the committed inventory. -/
structure CachesInventory (inventory : List InventoryEntry) (w : World) : Prop where
  inventoryData : w.inventoryData = inventory
  inventory : w.inventoryDirty = false → w.inventory = indexOf inventory

namespace CachesInventory
variable {inventory : List InventoryEntry}

omit [Libyang] in
theorem same (h : CachesInventory inventory w) (hs : SameInventory w w') : CachesInventory inventory w' :=
  ⟨hs.inventoryData.trans h.inventoryData, fun hclean =>
    hs.inventory.trans (h.inventory (hs.inventoryDirty.symm.trans hclean))⟩

omit [Libyang] in
theorem inventory_refreshed (h : CachesInventory inventory w) : w.refreshed.inventory = indexOf inventory := by
  unfold World.refreshed
  cases hd : w.inventoryDirty with
  | true => exact congrArg indexOf h.inventoryData
  | false => exact h.inventory hd

omit [Libyang] in
theorem refreshed (h : CachesInventory inventory w) : CachesInventory inventory w.refreshed :=
  ⟨h.inventoryData, fun _ => h.inventory_refreshed⟩

omit [Libyang] in
theorem announced_iff (h : CachesInventory inventory w) :
    Announced input w ↔ AnnouncedIn inventory (InstanceKey.fromNode input) input.severity := by
  rw [Announced, h.inventory_refreshed, inventoryValidationError_eq_none]

end CachesInventory

theorem cachesInventory_of_run (h : DaemonRun b tr w) : CachesInventory (committedInventory b tr) w := by
  refine h.invariant (I := fun tr w => CachesInventory (committedInventory b tr) w)
    (fun w hs => ?_) fun tr w ev w' hrun ih hp => ?_
  · exact ⟨hs.boots.inventoryData, fun hclean => by simp [hs.boots.inventoryDirty] at hclean⟩
  · obtain ⟨call, env, r⟩ := ev
    cases call with
    | createOrUpdateAlarm o input =>
      rcases (hp.ends (Inv.of_run hrun)).sameInventory with hs | hs
      · exact ih.same hs
      · exact ih.refreshed.same hs
    | purgeAlarms l input => exact ih.same (hp.sameInventory trivial)
    | compressAlarms l input => exact ih.same (hp.sameInventory trivial)
    | controlChanged changes shelving => exact ih.same (hp.sameInventory trivial)
    | inventoryChanged inventory =>
      have hresult : inventoryResult env inventory w = (r, w') := (exec_inventoryChanged inventory).symm.trans hp.exec_eq
      unfold inventoryResult at hresult
      split at hresult
      · cases hresult
        exact ⟨rfl, nofun⟩
      · cases hresult
        exact ⟨rfl, nofun⟩

/-! ### AnswersSubmission -/

/-- What a submission is answered, by the inventory as it was last committed. The cases exclude each other. -/
inductive AnswersSubmission (inventory : List InventoryEntry) (w : World) (o : String) (input : AlarmInput) (env : Env) :
    Except Failure Reply → World → Prop
  | notSupported : ¬ Served o →
      AnswersSubmission inventory w o input env
        (.ok (.operationFailed ⟨"application", "operation-not-supported", "Internal RPCs cannot be called."⟩)) w
  | invalidArgument {message : String} : Served o → (InstanceKey.fromNode input).xpathIndex = .error message →
      AnswersSubmission inventory w o input env (.ok (.invalidArgument message)) w
  | notRead {x : String} : Served o → (InstanceKey.fromNode input).xpathIndex = .ok x → w.inventoryDirty = true →
      env.getDataThrows = true → AnswersSubmission inventory w o input env (.error .sysrepo) w
  | dataMissing {x : String} (message : String) : Served o → (InstanceKey.fromNode input).xpathIndex = .ok x →
      (w.inventoryDirty && env.getDataThrows) = false →
      ¬ AnnouncedIn inventory (InstanceKey.fromNode input) input.severity →
      AnswersSubmission inventory w o input env (.ok (.operationFailed ⟨"application", "data-missing", message⟩)) w.refreshed
  | accepted {x : String} {r : Except Failure Reply} {w' : World} : Served o →
      (InstanceKey.fromNode input).xpathIndex = .ok x → (w.inventoryDirty && env.getDataThrows) = false →
      AnnouncedIn inventory (InstanceKey.fromNode input) input.severity → (∀ reply, r = .ok reply → reply = .ok) →
      AnswersSubmission inventory w o input env r w'

/-- The alarm is updated without a reply of its own. -/
theorem reply_of_updateAlarm {x : String} {w : World} {reply : Reply}
    (h : (exec (do updateAlarm env input k x; pure Reply.ok) w).1 = .ok reply) : reply = .ok := by
  rcases hex : exec (updateAlarm env input k x) w with ⟨f | ⟨⟩, w'⟩
  · rw [exec_bind_of_error hex] at h
    cases h
  · rw [exec_bind_of_ok hex] at h
    exact (Except.ok.inj h).symm

theorem answers_createOrUpdateAlarm {inventory : List InventoryEntry} (hc : CachesInventory inventory w)
    (hex : exec (createOrUpdateAlarm env o input) w = (r, w')) : AnswersSubmission inventory w o input env r w' := by
  by_cases ho : Served o
  · rw [createOrUpdateAlarm, if_neg (Bool.eq_false_iff.1 ho)] at hex
    cases hx : (InstanceKey.fromNode input).xpathIndex with
    | error message =>
      rw [exec_submitAlarm_of_error hx] at hex
      cases hex
      exact .invalidArgument ho hx
    | ok x =>
      rw [exec_submitAlarm_eq hx] at hex
      cases hg : w.inventoryDirty && env.getDataThrows with
      | true =>
        rw [hg, if_pos rfl] at hex
        cases hex
        obtain ⟨hdirty, hthrows⟩ := Bool.and_eq_true_iff.1 hg
        exact .notRead ho hx hdirty hthrows
      | false =>
        obtain ⟨message, hmessage⟩ := inventoryValidationError_ok w.refreshed.inventory
          (InstanceKey.fromNode input) input.severity
        have hannounced : Announced input w ↔ message = none := by simp [Announced, hmessage]
        rw [hg, if_neg Bool.false_ne_true, hmessage] at hex
        cases message with
        | some message =>
          cases hex
          exact .dataMissing _ ho hx hg fun ha => Option.some_ne_none _ (hannounced.1 (hc.announced_iff.2 ha))
        | none =>
          refine .accepted ho hx hg (hc.announced_iff.1 (hannounced.2 rfl)) fun reply hreply => ?_
          subst hreply
          simp only at hex
          split at hex
          · exact (Except.ok.inj (congrArg Prod.fst hex)).symm
          · exact reply_of_updateAlarm (congrArg Prod.fst hex)
  · rw [createOrUpdateAlarm, if_pos ((Bool.not_eq_false _).mp ho)] at hex
    cases hex
    exact .notSupported ho

/-- In every run, every submission is answered by the inventory of the latest commit before it. -/
theorem answers_of_run (h : DaemonRun b tr w) {w₁ w₂ : World}
    (hs : ⟨w₁, ⟨.createOrUpdateAlarm o input, env, r⟩, w₂⟩ :: tr' <:+ tr) :
    AnswersSubmission (committedInventory b tr') w₁ o input env r w₂ := by
  obtain ⟨hrun, hp⟩ := h.of_suffix hs
  exact answers_createOrUpdateAlarm (cachesInventory_of_run hrun) hp.exec_eq

/-! ### Alarms -/

omit [Libyang] in
theorem accepted_of_mem {s : Submission} (h : s ∈ acceptedSince k tr) :
    ∃ t tr', t :: tr' <:+ tr ∧ acceptedOf k t = some s := by
  induction tr with
  | nil => cases h
  | cons t tr ih =>
    rw [acceptedSince] at h
    rcases List.mem_append.1 h with h | h
    · exact ⟨t, tr, List.suffix_rfl, Option.mem_toList.1 h⟩
    · split at h
      · cases h
      · obtain ⟨t', tr', hs, ha⟩ := ih h
        exact ⟨t', tr', hs.trans (List.suffix_cons t tr), ha⟩

/-- What was accepted for an alarm, the inventory had announced at that time. -/
theorem announced_of_accepted {s : Submission} (h : DaemonRun b tr w) (hs : t :: tr' <:+ tr)
    (ha : acceptedOf k t = some s) : AnnouncedIn (committedInventory b tr') k s.severity := by
  obtain ⟨o, input, hcall, rfl, haccepted, rfl⟩ := acceptedOf_eq_some ha
  exact (cachesInventory_of_run (h.of_suffix hs).1).announced_iff.1 haccepted.announced

/-- In every run, every alarm was announced with the severity that it has by the inventory as it was when this
severity was submitted. -/
theorem announced_of_run {e : AlarmEntry} (h : DaemonRun b tr w) (he : w.alarms.lookup k = some e) :
    ∃ (t : Transition World Event) (tr' : History) (s : Submission) (severity : Severity), t :: tr' <:+ tr ∧
      acceptedOf k t = some s ∧ s.severity = .active severity ∧ severity.value = e.lastSeverity ∧
        AnnouncedIn (committedInventory b tr') k (.active severity) := by
  have hfolds := folds_of_run h k (by rw [he]; rfl)
  rw [he] at hfolds
  have hlast := (FoldOf.of_fold hfolds.first hfolds.fold).lastSeverity
  obtain ⟨s, hfind, hvalue⟩ := Option.map_eq_some_iff.1 hlast
  obtain ⟨t, tr', hs, ha⟩ := accepted_of_mem (List.mem_of_find?_eq_some hfind)
  have hannounced := announced_of_accepted h hs ha
  cases hsev : s.severity with
  | cleared =>
    have hactive := List.find?_some hfind
    simp [Submission.isClear, hsev] at hactive
  | active severity =>
    rw [hsev] at hvalue hannounced
    exact ⟨t, tr', s, severity, hs, ha, hsev, hvalue, hannounced⟩

end

namespace AlarmsTest

/-- The inventory is narrowed down to one resource and one severity after the alarm was raised. -/
def narrowedCalls : List (Call × Env) :=
  [(submit "wss" (.active .major) "Hey, I'm overheating.", atTime 4),
    (submit "wss" .cleared "OK.", atTime 3),
    (.inventoryChanged [⟨alarm1Name, "high", ["edfa"], [.minor]⟩], atTime 2),
    (submit "wss" (.active .major) "Hey, I'm overheating.", atTime 1)]

theorem narrowedCalls_run : DaemonRun (boot []) (scenario [] narrowedCalls).1 (scenario [] narrowedCalls).2 :=
  daemonRun_scenario (by decide +kernel)

theorem answers_of_run_narrowed : ∃ (w₁ w₂ : World) (r : Except Failure Reply),
    AnswersSubmission [⟨alarm1Name, "high", ["edfa"], [.minor]⟩] w₁ "sysrepo-ietf-alarms"
      (alarm1Input "wss" (.active .major) "Hey, I'm overheating.") (atTime 4) r w₂ :=
  ⟨_, _, _, answers_of_run narrowedCalls_run List.suffix_rfl⟩

theorem announced_of_run_narrowed : ∃ (e : AlarmEntry) (t : Transition World Event) (tr' : History) (s : Submission)
    (severity : Severity), t :: tr' <:+ (scenario [] narrowedCalls).1 ∧ acceptedOf (key "wss") t = some s ∧
      s.severity = .active severity ∧ severity.value = e.lastSeverity ∧
        AnnouncedIn (committedInventory (boot []) tr') (key "wss") (.active severity) := by
  have hsome : ((scenario [] narrowedCalls).2.alarms.lookup (key "wss")).isSome = true := by decide +kernel
  obtain ⟨e, he⟩ := Option.isSome_iff_exists.1 hsome
  exact ⟨e, announced_of_run narrowedCalls_run he⟩

end AlarmsTest

end IetfAlarms

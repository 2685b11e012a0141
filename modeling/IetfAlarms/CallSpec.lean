import IetfAlarms.Daemon
import IetfAlarms.Inv

/-!
# What the calls amount to

From a state with the invariant, every call but a submission ends in a state that is written out here:
the loops are folds over the alarms, and what was changed in memory is then written or not. Only a call
that has to drop a status change which the tree does not have leaves these lines; its behaviour is
undefined.
-/

namespace IetfAlarms
open Program DataTree DataTree.Node
variable [Libyang] {w : World} {env : Env}

/-! ### Writing -/

def Env.writeThrows (env : Env) : Bool := env.editBatchThrows || env.applyChangesThrows

/-- The operational datastore holds the tree. -/
def World.published (w : World) : World := { w with operational := w.edit }

def written (env : Env) (w : World) (reply : Reply) : Except Failure Reply × World :=
  if env.writeThrows then (.error .sysrepo, w) else (.ok reply, w.published)

omit [Libyang] in
theorem exec_writeEdit (env : Env) (w : World) :
    exec (writeEdit env) w = if env.writeThrows then (.error .sysrepo, w) else (.ok (), w.published) := by
  unfold writeEdit editBatch applyChanges Env.writeThrows
  cases env.editBatchThrows <;> cases env.applyChangesThrows <;> rfl

omit [Libyang] in
theorem exec_writeEdit_bind (env : Env) (w : World) (reply : Reply) :
    exec (writeEdit env >>= fun _ => pure reply) w = written env w reply := by
  rw [exec_bind, exec_writeEdit, written]
  cases env.writeThrows <;> rfl

theorem exec_updateStatistics (h : Inv w) : exec updateStatistics w = (.ok (), w.recount) :=
  World.exec_updateStatistics h.realSeverities

omit [Libyang] in
theorem foldl_eq_self {f : World → InstanceKey × AlarmEntry → World} {l : AlarmTable} (h : ∀ x ∈ l, f w x = w) :
    l.foldl f w = w := by
  induction l with
  | nil => rfl
  | cons x l ih =>
    rw [List.foldl_cons, h x List.mem_cons_self]
    exact ih fun y hy => h y (List.mem_cons_of_mem x hy)

omit [Libyang] in
theorem foldl_count {p : InstanceKey × AlarmEntry → Bool} (l : AlarmTable) (n : Nat) :
    l.foldl (fun n x => if p x then n + 1 else n) n = n + l.countP p := by
  induction l generalizing n with
  | nil => rfl
  | cons x l ih =>
    rw [List.foldl_cons, ih, List.countP_cons]
    cases p x
    · rfl
    · simp only [if_true]
      omega

omit [Libyang] in
theorem foldl_or {p : InstanceKey × AlarmEntry → Bool} (l : AlarmTable) (b : Bool) :
    l.foldl (fun b x => b || p x) b = (b || l.any p) := by
  induction l generalizing b with
  | nil => exact (Bool.or_false b).symm
  | cons x l ih => rw [List.foldl_cons, ih, List.any_cons, Bool.or_assoc]

/-! ### Purging -/

omit [Libyang] in
theorem World.purge_eq_self {l : Listing} {filter : AlarmFilter}
    (h : w.alarms.entries.countP (purges l filter) = 0) :
    w.alarms.entries.foldl (World.purge l filter) w = w :=
  foldl_eq_self fun x hx => by
    rw [World.purge, if_neg]
    exact List.countP_eq_zero.1 h x hx

/-- The state after a purge that found something, not written yet. -/
def World.purged (l : Listing) (filter : AlarmFilter) (now : TimePoint) (w : World) : World :=
  ((w.alarms.entries.foldl (World.purge l filter) w).touch l now).recount

theorem World.purged_frame (l : Listing) (filter : AlarmFilter) (now : TimePoint) (w : World) :
    (w.purged l filter now).frame = w.frame := by
  have hfold := World.frame_foldl (World.frame_purge l filter) w.alarms.entries w
  exact (World.frame_touch l now _).trans hfold

def purgeResult (env : Env) (l : Listing) (input : PurgeInput) (w : World) : Except Failure Reply × World :=
  match purgeFilter input env.filterNow with
  | .error f => (.error f, w)
  | .ok filter =>
    let n := w.alarms.entries.countP (purges l filter)
    if n = 0 then (.ok (.purgedAlarms (toString n)), w)
    else written env (w.purged l filter env.now) (.purgedAlarms (toString n))

omit [Libyang] in
theorem touch_congr (l : Listing) (now : TimePoint) (w : World) :
    (w.touch l now).alarms = w.alarms ∧ (w.touch l now).edit = w.edit ∧
      (w.touch l now).shelvingRules = w.shelvingRules := by
  cases l <;> exact ⟨rfl, rfl, rfl⟩

theorem Inv.touch (h : Inv w) (l : Listing) (now : TimePoint) : Inv (w.touch l now) := by
  obtain ⟨ha, he, hr⟩ := touch_congr l now w
  exact h.congr ha he hr

theorem Inv.purged (h : Inv w) (l : Listing) (filter : AlarmFilter) (now : TimePoint) :
    Inv (w.purged l filter now) :=
  ((h.purge l filter).touch l now).recount

/-- The loop of `purgeAlarms`. -/
theorem exec_purgeLoop (h : Inv w) (l : Listing) (filter : AlarmFilter) :
    exec (w.alarms.entries.foldlM (purgeAlarm l filter) 0) w =
      (.ok (w.alarms.entries.countP (purges l filter)), w.alarms.entries.foldl (World.purge l filter) w) := by
  have hloop : RunsTo (fun _ => False) (w.alarms.entries.foldlM (purgeAlarm l filter) 0) w
      (w.alarms.entries.foldl (countPurged l filter) 0) (w.alarms.entries.foldl (World.purge l filter) w) :=
    foldlM_runsTo (P := RoundOk) w.alarms.nodup (fun n w x _ hx => purgeAlarm_runsTo filter n hx)
      (fun w x k hk => World.slot_purge_of_ne l filter w x k hk) fun x hx => (h.reshelveOk hx).toRoundOk
  have hcount : w.alarms.entries.foldl (countPurged l filter) 0 = w.alarms.entries.countP (purges l filter) := by
    have := foldl_count (p := purges l filter) w.alarms.entries 0
    rw [Nat.zero_add] at this
    exact this
  rw [hcount] at hloop
  exact hloop.exec_eq

theorem exec_purgeAlarms (h : Inv w) (l : Listing) (input : PurgeInput) :
    exec (purgeAlarms env l input) w = purgeResult env l input w := by
  unfold purgeAlarms purgeResult
  cases purgeFilter input env.filterNow with
  | error f => rfl
  | ok filter =>
    rw [exec_ofExcept_ok_bind, exec_get_bind, exec_bind_of_ok (exec_purgeLoop h l filter)]
    simp only
    by_cases hz : w.alarms.entries.countP (purges l filter) = 0
    · rw [World.purge_eq_self hz, onlyIf_neg (not_not.2 hz), if_pos hz]
      rfl
    · have hrecount : exec updateStatistics ((w.alarms.entries.foldl (World.purge l filter) w).touch l env.now) =
          (.ok (), w.purged l filter env.now) := exec_updateStatistics ((h.purge l filter).touch l env.now)
      rw [onlyIf_pos hz, if_neg hz, exec_bind, touchList, exec_modify_bind, exec_bind_of_ok hrecount, exec_writeEdit,
        written]
      cases env.writeThrows <;> rfl

/-! ### Trimming -/

/-- Whatever a trim would remove, the tree has. -/
def Trimmable (limit : Option UInt16) (w : World) : Prop :=
  ∀ x ∈ w.alarms.entries, TrimOk limit x (w.slot x.1)

/-- What ends a trim of a state that cannot be trimmed. -/
def Untrimmable (limit : Option UInt16) (w : World) (f : Failure) : Prop :=
  f = .emptyOptional ∧ ¬ Trimmable limit w

theorem trimOk_or_bad (limit : Option UInt16) {x : InstanceKey × AlarmEntry} (hx : x ∈ w.alarms.entries) :
    Untrimmable limit w .emptyOptional ∨ TrimOk limit x (w.slot x.1) := by
  by_cases h : Trimmable limit w
  · exact .inr (h x hx)
  · exact .inl ⟨rfl, h⟩

def removes (limit : Option UInt16) (x : InstanceKey × AlarmEntry) : Bool :=
  !(x.2.shrinkStatusChanges limit).2.isEmpty

theorem World.trim_eq_self {limit : Option UInt16} {x : InstanceKey × AlarmEntry} (h : RoundOk x (w.slot x.1))
    (hr : removes limit x = false) : w.trim limit x = w := by
  have hz : (x.2.shrinkStatusChanges limit).2 = [] := by
    rw [removes, Bool.not_eq_false'] at hr
    exact List.isEmpty_iff.1 hr
  have hsame : (x.2.shrinkStatusChanges limit).1 = x.2 := by
    rw [AlarmEntry.shrinkStatusChanges_eq] at hz ⊢
    have htake : x.2.statusChanges.take (x.2.excess limit) = [] := List.map_eq_nil_iff.1 hz
    have hdrop : x.2.statusChanges.drop (x.2.excess limit) = x.2.statusChanges := by
      have := List.take_append_drop (x.2.excess limit) x.2.statusChanges
      rw [htake, List.nil_append] at this
      exact this
    simp only [hdrop]
  have hset : w.setEntry x.1 x.2 = w := by
    have hl : w.alarms.lookup x.1 = some x.2 := h.entry
    rw [World.setEntry, AssocMap.set_of_lookup hl]
  obtain ⟨n, hn⟩ := Option.isSome_iff_exists.1 h.node
  rw [World.trim, hz, hsame, hset]
  exact World.editNode_of_slot hn rfl

/-- Trimming works inside the entries of the lists. -/
theorem World.find_trim {p : Path} (hp : p ∈ statisticsPaths) (limit : Option UInt16) (w : World)
    (x : InstanceKey × AlarmEntry) : (w.trim limit x).edit.find p = w.edit.find p :=
  find_modify_of_apart (statisticsPaths_apart_entry hp rfl []).symm _ _

theorem World.find_compress {p : Path} (hp : p ∈ statisticsPaths) (l : Listing) (filter : AlarmFilter) (w : World)
    (x : InstanceKey × AlarmEntry) : (w.compress l filter x).edit.find p = w.edit.find p := by
  unfold World.compress
  split
  · exact find_trim hp _ w x
  · rfl

def compressCount (l : Listing) (filter : AlarmFilter) (w : World) : Nat :=
  w.alarms.entries.countP fun x => compresses l filter x && removes (some 1) x

def World.compressed (l : Listing) (filter : AlarmFilter) (w : World) : World :=
  w.alarms.entries.foldl (World.compress l filter) w

theorem World.compressed_frame (l : Listing) (filter : AlarmFilter) (w : World) :
    (w.compressed l filter).frame = w.frame :=
  World.frame_foldl (World.frame_compress l filter) w.alarms.entries w

def compressResult (env : Env) (l : Listing) (input : CompressInput) (w : World) : Except Failure Reply × World :=
  let n := compressCount l (compressFilter input) w
  if n = 0 then (.ok (.compressedAlarms (toString n)), w)
  else written env (w.compressed l (compressFilter input)) (.compressedAlarms (toString n))

/-- The call ends like this, or else its behaviour is undefined for want of something to trim. -/
def EndsIn {α : Type} (limit : Option UInt16) (w w₀ : World) (m : DaemonM α) (r : Except Failure α × World) :
    Prop :=
  exec m w = r ∨ ∃ w', exec m w = (.error .emptyOptional, w') ∧ ¬ Trimmable limit w₀

theorem compress_runsTo (h : Inv w) (l : Listing) (filter : AlarmFilter) :
    RunsTo (Untrimmable (some 1) w) (w.alarms.entries.foldlM (compressAlarm l filter) 0) w
      (compressCount l filter w) (w.compressed l filter) := by
  have hloop : RunsTo (Untrimmable (some 1) w) (w.alarms.entries.foldlM (compressAlarm l filter) 0) w
      (w.alarms.entries.foldl (countCompressed l filter) 0) (w.compressed l filter) := foldlM_runsTo
    (P := fun x s => RoundOk x s ∧ (Untrimmable (some 1) w .emptyOptional ∨ TrimOk (some 1) x s)) w.alarms.nodup
    (fun n w x _ hx => compressAlarm_runsTo filter n hx.1 hx.2)
    (fun w x k hk => World.slot_compress_of_ne l filter w x k hk)
    fun x hx => ⟨(h.reshelveOk hx).toRoundOk, trimOk_or_bad (some 1) hx⟩
  have hcount := foldl_count (p := fun x => compresses l filter x && removes (some 1) x) w.alarms.entries 0
  rw [Nat.zero_add] at hcount
  have hfold : w.alarms.entries.foldl (countCompressed l filter) 0 = compressCount l filter w := hcount
  rw [hfold] at hloop
  exact hloop

theorem World.compressed_eq_self (h : Inv w) {l : Listing} {filter : AlarmFilter}
    (hz : compressCount l filter w = 0) : w.compressed l filter = w :=
  foldl_eq_self fun x hx => by
    rw [World.compress]
    split
    · rename_i hc
      have := List.countP_eq_zero.1 hz x hx
      rw [hc, Bool.true_and] at this
      exact World.trim_eq_self (h.reshelveOk hx).toRoundOk (Bool.eq_false_iff.2 this)
    · rfl

variable (env) in
theorem exec_compressAlarms (h : Inv w) (l : Listing) (input : CompressInput) :
    EndsIn (some 1) w w (compressAlarms env l input) (compressResult env l input w) := by
  unfold compressAlarms compressResult
  have hrest : ∀ n, exec (do onlyIf (n ≠ 0) (writeEdit env); pure (Reply.compressedAlarms (toString n)))
      (w.compressed l (compressFilter input)) =
      if n = 0 then (.ok (.compressedAlarms (toString n)), w.compressed l (compressFilter input))
      else written env (w.compressed l (compressFilter input)) (.compressedAlarms (toString n)) := fun n => by
    by_cases hz : n = 0
    · rw [onlyIf_neg (not_not.2 hz), if_pos hz]
      rfl
    · rw [onlyIf_pos hz, if_neg hz]
      exact exec_writeEdit_bind _ _ _
  rw [EndsIn, exec_get_bind]
  rcases (compress_runsTo h l (compressFilter input)).exec_bind_cases with hex | ⟨e, w', hex, rfl, hbad⟩
  · refine .inl (hex.trans ((hrest _).trans ?_))
    split
    · rename_i hz
      rw [World.compressed_eq_self h hz]
      simp only [hz, if_pos]
    · rename_i hz
      simp only [hz, if_neg, not_false_eq_true]
  · exact .inr ⟨w', hex, hbad⟩

/-! ### Shrinking -/

def World.shrunk (w : World) : World :=
  if w.maxAlarmStatusChanges.isNone then w
  else w.alarms.entries.foldl (World.trim w.maxAlarmStatusChanges) w

theorem World.shrunk_frame (w : World) : w.shrunk.frame = w.frame := by
  unfold World.shrunk
  split
  · rfl
  · exact World.frame_foldl (World.frame_trim _) w.alarms.entries w

/-- Some alarm has more status changes than the limit allows. -/
def World.overLimit (w : World) : Bool :=
  !w.maxAlarmStatusChanges.isNone && w.alarms.entries.any (removes w.maxAlarmStatusChanges)

theorem shrink_runsTo (h : Inv w) :
    RunsTo (Untrimmable w.maxAlarmStatusChanges w) shrinkStatusChangesLists w w.overLimit w.shrunk := by
  unfold shrinkStatusChangesLists World.overLimit World.shrunk
  cases hn : w.maxAlarmStatusChanges.isNone with
  | true =>
    refine .of_eq ?_
    rw [exec_get_bind, hn]
    rfl
  | false =>
    have hloop : RunsTo (Untrimmable w.maxAlarmStatusChanges w)
        (w.alarms.entries.foldlM (shrinkAlarm w.maxAlarmStatusChanges) false) w
        (w.alarms.entries.foldl (fun b x => b || removes w.maxAlarmStatusChanges x) false)
        (w.alarms.entries.foldl (World.trim w.maxAlarmStatusChanges) w) := foldlM_runsTo
      (P := fun x s => RoundOk x s ∧
        (Untrimmable w.maxAlarmStatusChanges w .emptyOptional ∨ TrimOk w.maxAlarmStatusChanges x s)) w.alarms.nodup
      (fun b w' x _ hx => shrinkAlarm_runsTo w.maxAlarmStatusChanges b hx.1 hx.2)
      (fun w' x k hk => World.slot_trim_of_ne w.maxAlarmStatusChanges w' x k hk)
      fun x hx => ⟨(h.reshelveOk hx).toRoundOk, trimOk_or_bad w.maxAlarmStatusChanges hx⟩
    rw [foldl_or, Bool.false_or] at hloop
    rw [RunsTo, exec_get_bind, hn]
    exact hloop

theorem Inv.shrunk (h : Inv w) : Inv w.shrunk := by
  unfold World.shrunk
  split
  · exact h
  · exact h.trim _

theorem World.shrunk_eq_self (h : Inv w) (hz : w.overLimit = false) : w.shrunk = w := by
  unfold World.shrunk
  split
  · rfl
  · rename_i hn
    rw [overLimit, Bool.eq_false_iff.2 hn, Bool.not_false, Bool.true_and] at hz
    refine foldl_eq_self fun x hx => World.trim_eq_self (h.reshelveOk hx).toRoundOk ?_
    exact Bool.eq_false_iff.2 (List.any_eq_false.1 hz x hx)

/-! ### Reshelving -/

/-- The rules are loaded and every alarm is on the shelf they put it on. -/
def World.reshelved (now : TimePoint) (rules : ShelvingRules) (w : World) : World :=
  let w' := w.alarms.entries.foldl (World.reshelve now rules) { w with shelvingRules := some rules }
  if w.alarms.entries.any (reshelves rules) then w'.recount else w'

theorem Inv.reshelved (h : Inv w) (now : TimePoint) (rules : ShelvingRules) : Inv (w.reshelved now rules) := by
  unfold World.reshelved
  split
  · exact (h.reshelve now rules).recount
  · exact h.reshelve now rules

theorem World.reshelved_frame (now : TimePoint) (rules : ShelvingRules) (w : World) :
    (w.reshelved now rules).frame = { w with shelvingRules := some rules }.frame := by
  have hfold := World.frame_foldl (World.frame_reshelve now rules) w.alarms.entries
    { w with shelvingRules := some rules }
  unfold reshelved
  split
  · exact (World.frame_recount _).trans hfold
  · exact hfold

theorem World.reshelved_limit (now : TimePoint) (rules : ShelvingRules) (w : World) :
    (w.reshelved now rules).maxAlarmStatusChanges = w.maxAlarmStatusChanges := by
  have hlimit := congrArg (fun w : World => w.maxAlarmStatusChanges) (World.reshelved_frame now rules w)
  exact hlimit

theorem World.reshelve_eq_self {now : TimePoint} {rules : ShelvingRules} {x : InstanceKey × AlarmEntry}
    (h : reshelves rules x = false) : w.reshelve now rules x = w := by
  have heq : x.2.shelf = findMatchingShelf x.1 rules := by simpa [reshelves] using h
  unfold World.reshelve
  rw [heq]
  cases findMatchingShelf x.1 rules with
  | none => rfl
  | some name => exact if_neg (not_not.2 rfl)

theorem World.reshelved_eq_self {now : TimePoint} {rules : ShelvingRules}
    (h : w.alarms.entries.any (reshelves rules) = false) :
    w.reshelved now rules = { w with shelvingRules := some rules } := by
  unfold reshelved
  rw [h]
  refine foldl_eq_self fun x hx => World.reshelve_eq_self ?_
  exact Bool.eq_false_iff.2 (List.any_eq_false.1 h x hx)

/-- The loop of `reshelve`. -/
theorem exec_reshelveLoop (h : Inv w) (now : TimePoint) (shelving : ShelvingRules) :
    exec (w.alarms.entries.foldlM (reshelveAlarm now shelving) false) { w with shelvingRules := some shelving } =
      (.ok (w.alarms.entries.any (reshelves shelving)),
        w.alarms.entries.foldl (World.reshelve now shelving) { w with shelvingRules := some shelving }) := by
  have hloop : RunsTo (fun _ => False) (w.alarms.entries.foldlM (reshelveAlarm now shelving) false)
      { w with shelvingRules := some shelving } (w.alarms.entries.foldl (fun b x => b || reshelves shelving x) false)
      (w.alarms.entries.foldl (World.reshelve now shelving) { w with shelvingRules := some shelving }) :=
    foldlM_runsTo (P := ReshelveOk)
    w.alarms.nodup (fun b w x _ hx => .of_eq (reshelveAlarm_exec b hx))
    (fun w x k hk => World.slot_reshelve_of_ne now shelving w x k hk) fun x hx => h.reshelveOk hx
  rw [foldl_or, Bool.false_or] at hloop
  exact hloop.exec_eq

theorem exec_reshelve (h : Inv w) (shelving : ShelvingRules) :
    exec (reshelve env shelving) w =
      if env.getDataThrows then (.error .sysrepo, w)
      else (.ok (w.alarms.entries.any (reshelves shelving)), w.reshelved env.now shelving) := by
  unfold reshelve getData World.reshelved
  cases env.getDataThrows with
  | true => rfl
  | false =>
    refine (exec_bind_of_ok (exec_reshelveLoop h env.now shelving) _).trans ?_
    cases w.alarms.entries.any (reshelves shelving) with
    | true =>
      rw [onlyIf_pos rfl, exec_bind_of_ok (exec_updateStatistics (h.reshelve env.now shelving))]
      rfl
    | false => rfl

/-! ### Control changes -/

omit [Libyang] in
/-- The loop over the changes only touches the three settings. -/
theorem scanChanges_daemon (changes : List ControlChange) (d : Daemon) (shrink : Bool) :
    (scanChanges changes d shrink).daemon = { d with
      notifyStatusChanges := (scanChanges changes d shrink).daemon.notifyStatusChanges
      notifySeverityThreshold := (scanChanges changes d shrink).daemon.notifySeverityThreshold
      maxAlarmStatusChanges := (scanChanges changes d shrink).daemon.maxAlarmStatusChanges } := by
  induction changes generalizing d shrink with
  | nil => rfl
  | cons c changes ih =>
    cases c with
    | alarmShelving => rfl
    | notifyStatusChanges value => exact ih _ _
    | notifySeverityLevel value => exact ih _ _
    | maxAlarmStatusChanges value => exact ih _ _
    | other => exact ih _ _

/-- The settings as the changes leave them. -/
def World.scanned (changes : List ControlChange) (w : World) : World :=
  { w with toDaemon := (scanChanges changes w.toDaemon false).daemon }

omit [Libyang] in
theorem World.scanned_eq (changes : List ControlChange) (w : World) :
    w.scanned changes = { w with
      notifyStatusChanges := (w.scanned changes).notifyStatusChanges
      notifySeverityThreshold := (w.scanned changes).notifySeverityThreshold
      maxAlarmStatusChanges := (w.scanned changes).maxAlarmStatusChanges } := by
  unfold World.scanned
  rw [scanChanges_daemon]

def needsReshelve (changes : List ControlChange) (w : World) : Bool :=
  (scanChanges changes w.toDaemon false).needsReshelve

def needsShrink (changes : List ControlChange) (w : World) : Bool :=
  (scanChanges changes w.toDaemon false).needsStatusChangesShrink

/-- The state after `reshelve`, if it is called. -/
def World.controlReshelved (now : TimePoint) (changes : List ControlChange) (shelving : ShelvingRules) (w : World) :
    World :=
  if needsReshelve changes w then (w.scanned changes).reshelved now shelving else w.scanned changes

theorem World.controlReshelved_limit (now : TimePoint) (changes : List ControlChange) (shelving : ShelvingRules)
    (w : World) :
    (w.controlReshelved now changes shelving).maxAlarmStatusChanges = (w.scanned changes).maxAlarmStatusChanges := by
  unfold controlReshelved
  split
  · exact World.reshelved_limit now shelving (w.scanned changes)
  · rfl

/-- The state after both deferred actions. -/
def World.controlled (now : TimePoint) (changes : List ControlChange) (shelving : ShelvingRules) (w : World) :
    World :=
  if needsShrink changes w then (w.controlReshelved now changes shelving).shrunk
  else w.controlReshelved now changes shelving

/-- A control change sets the settings and the rules beside what it does to the alarms. -/
theorem World.controlled_frame (now : TimePoint) (changes : List ControlChange) (shelving : ShelvingRules) (w : World) :
    (w.controlled now changes shelving).frame = { (w.scanned changes).frame with
      shelvingRules := (w.controlled now changes shelving).shelvingRules } := by
  have hreshelved : (w.controlReshelved now changes shelving).frame = { (w.scanned changes).frame with
      shelvingRules := (w.controlReshelved now changes shelving).shelvingRules } := by
    unfold controlReshelved
    split
    · have hframe := World.reshelved_frame now shelving (w.scanned changes)
      have hrules := congrArg (fun w : World => w.shelvingRules) hframe
      have hrules' : ((w.scanned changes).reshelved now shelving).shelvingRules = some shelving := hrules
      rw [hframe, hrules']
      rfl
    · rfl
  unfold controlled
  split
  · have hrules := congrArg (fun w : World => w.shelvingRules) (w.controlReshelved now changes shelving).shrunk_frame
    have hrules' : (w.controlReshelved now changes shelving).shrunk.shelvingRules =
      (w.controlReshelved now changes shelving).shelvingRules := hrules
    rw [World.shrunk_frame, hrules']
    exact hreshelved
  · exact hreshelved

/-- The control change has changed something that is published. -/
def controlChanges (now : TimePoint) (changes : List ControlChange) (shelving : ShelvingRules) (w : World) : Bool :=
  (needsReshelve changes w && w.alarms.entries.any (reshelves shelving)) ||
    (needsShrink changes w && (w.controlReshelved now changes shelving).overLimit)

def controlResult (env : Env) (changes : List ControlChange) (shelving : ShelvingRules) (w : World) :
    Except Failure Reply × World :=
  if needsReshelve changes w && env.getDataThrows then (.error .sysrepo, w.scanned changes)
  else if controlChanges env.now changes shelving w then written env (w.controlled env.now changes shelving) .ok
  else (.ok .ok, w.controlled env.now changes shelving)

theorem Inv.scanned (h : Inv w) (changes : List ControlChange) : Inv (w.scanned changes) := by
  rw [World.scanned_eq]
  exact h.congr rfl rfl rfl

theorem Inv.controlReshelved (h : Inv w) (now : TimePoint) (changes : List ControlChange)
    (shelving : ShelvingRules) : Inv (w.controlReshelved now changes shelving) := by
  unfold World.controlReshelved
  split
  · exact (h.scanned changes).reshelved now shelving
  · exact h.scanned changes

theorem Inv.controlled (h : Inv w) (now : TimePoint) (changes : List ControlChange) (shelving : ShelvingRules) :
    Inv (w.controlled now changes shelving) := by
  unfold World.controlled
  split
  · exact (h.controlReshelved now changes shelving).shrunk
  · exact h.controlReshelved now changes shelving

omit [Libyang] in
theorem scanned_alarms (changes : List ControlChange) (w : World) : (w.scanned changes).alarms = w.alarms := by
  rw [World.scanned_eq]

variable (env) in
theorem exec_controlChanged (h : Inv w) (changes : List ControlChange) (shelving : ShelvingRules) :
    EndsIn (w.scanned changes).maxAlarmStatusChanges w (w.controlReshelved env.now changes shelving)
      (controlChanged env changes shelving) (controlResult env changes shelving w) := by
  have hw := h.scanned changes
  have hreshelve : exec (if needsReshelve changes w then reshelve env shelving else pure false) (w.scanned changes) =
      if needsReshelve changes w && env.getDataThrows then (.error .sysrepo, w.scanned changes)
      else (.ok (needsReshelve changes w && w.alarms.entries.any (reshelves shelving)),
        w.controlReshelved env.now changes shelving) := by
    unfold World.controlReshelved
    cases needsReshelve changes w with
    | false => rfl
    | true =>
      have hex : exec (reshelve env shelving) (w.scanned changes) = _ := exec_reshelve hw shelving
      rw [scanned_alarms] at hex
      exact hex
  unfold EndsIn controlResult
  have hstart : exec (controlChanged env changes shelving) w = exec (do
      let reshelved ← (if needsReshelve changes w then reshelve env shelving else pure false)
      let shrunk ← (if needsShrink changes w then shrinkStatusChangesLists else pure false)
      onlyIf (reshelved || shrunk) (writeEdit env)
      return Reply.ok) (w.scanned changes) := rfl
  rw [hstart]
  cases hg : needsReshelve changes w && env.getDataThrows with
  | true =>
    rw [hg] at hreshelve
    exact .inl (exec_bind_of_error hreshelve _)
  | false =>
    rw [hg] at hreshelve
    rw [exec_bind_of_ok hreshelve]
    have hshrink : RunsTo (Untrimmable (w.scanned changes).maxAlarmStatusChanges
          (w.controlReshelved env.now changes shelving))
        (if needsShrink changes w then shrinkStatusChangesLists else pure false)
        (w.controlReshelved env.now changes shelving)
        (needsShrink changes w && (w.controlReshelved env.now changes shelving).overLimit)
        (w.controlled env.now changes shelving) := by
      have hlimit := World.controlReshelved_limit env.now changes shelving w
      unfold World.controlled
      cases needsShrink changes w with
      | false => exact .of_eq rfl
      | true =>
        have := shrink_runsTo (h.controlReshelved env.now changes shelving)
        rw [hlimit] at this
        exact this
    rcases hshrink.exec_bind_cases with hex | ⟨e, w', hex, rfl, hbad⟩
    · refine .inl (hex.trans ?_)
      show exec (do onlyIf (controlChanges env.now changes shelving w) (writeEdit env); return Reply.ok) _ = _
      cases controlChanges env.now changes shelving w with
      | true => exact exec_writeEdit_bind _ _ _
      | false => rfl
    · exact .inr ⟨w', hex, hbad⟩

end IetfAlarms

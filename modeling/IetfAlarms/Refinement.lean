import IetfAlarms.Board
import IetfAlarms.Counts
import IetfAlarms.Exceptions
import IetfAlarms.Isolation
import IetfAlarms.Settings
import IetfAlarms.StatusChanges
import IetfAlarms.TimeCreated

/-!
# The daemon keeps the board

`Simulates`: what the daemon has of each alarm, in memory and in the tree, is the alarm on the board. Every call keeps
this, so after every run the datastore publishes the board that the calls make (`publishes_of_run`). The board comes
from the calls and the clock only.
-/

namespace IetfAlarms
open Program Trace DataTree DataTree.Node

section
variable [Libyang] {b : Board} {boot : Boot} {tr : History} {w w' : World} {env : Env} {o : String} {input : AlarmInput}
variable {k : InstanceKey} {a : Alarm} {e : AlarmEntry} {s : Slot} {rules : ShelvingRules} {limit : Option UInt16}
variable {r : Except Failure Reply} {changes changes' : List PublishedChange}

/-! ### Alarms in their slots -/

/-- The change as it is published. -/
def Change.published (c : Change) : PublishedChange := ⟨c.time, c.severity.name, c.text⟩

/-- The oldest first. -/
def Alarm.published (a : Alarm) : List PublishedChange := a.changes.reverse.map Change.published

def Alarm.fields (a : Alarm) : Fields :=
  ⟨a.created, a.lastRaised, a.lastChanged, a.severity.value, a.isCleared, a.text⟩

/-- The entry is that of the alarm. -/
structure Alarm.Stored (a : Alarm) (e : AlarmEntry) : Prop where
  shelf : e.shelf = a.shelf
  fields : e.fields = a.fields
  length : e.statusChanges.length = a.changes.length

/-- The entry and the node are those of the alarm. -/
structure Alarm.Kept (a : Alarm) (s : Slot) : Prop where
  stored : ∃ e, s.entry = some e ∧ a.Stored e
  records : SlotRecords a.published s
  created : ShowsCreated (some a.timeCreated) s

def KeptIn (found : Option Alarm) (s : Slot) : Prop := found.elim (s.entry = none) fun a => a.Kept s

omit [Libyang] in
theorem newest_suffix (limit : Option UInt16) (changes : List Change) :
    (newest limit changes).reverse.map Change.published <:+ changes.reverse.map Change.published := by
  cases limit with
  | none => exact List.suffix_rfl
  | some n => exact (List.reverse_suffix.2 (List.take_prefix _ _)).map _

omit [Libyang] in
theorem length_newest (limit : Option UInt16) {changes : List Change}
    (hlength : e.statusChanges.length = changes.length) :
    (e.shrinkStatusChanges limit).1.statusChanges.length = (newest limit changes).length := by
  rw [length_shrink, hlength]
  cases limit with
  | none => rfl
  | some n =>
    unfold AlarmEntry.excess newest
    simp only [Option.elim_some, List.length_take]
    omega

/-- As many changes as the entry has are enough. -/
theorem SlotRecords.of_length (h : SlotRecords changes s) (hsuffix : changes' <:+ changes)
    (hlength : ∀ e, s.entry = some e → e.statusChanges.length ≤ changes'.length) : SlotRecords changes' s := by
  intro e he
  obtain ⟨n, hs, hn, hc, hr⟩ := h e he
  have hle : hs.length ≤ changes'.length := by
    rw [← hr.changes.length_eq]
    exact hlength e he
  exact ⟨n, hs, hn, List.suffix_of_suffix_length_le hc hsuffix hle, hr⟩

omit [Libyang] in
theorem Alarm.length_published (a : Alarm) : a.published.length = a.changes.length := by
  rw [published, List.length_map, List.length_reverse]

omit [Libyang] in
theorem Alarm.Stored.trim (h : a.Stored e) (limit : Option UInt16) : (a.trim limit).Stored (e.shrinkStatusChanges limit).1 := by
  refine ⟨?_, ?_, length_newest limit h.length⟩
  · rw [AlarmEntry.shrinkStatusChanges_eq]
    exact h.shelf
  · rw [AlarmEntry.shrinkStatusChanges_eq]
    exact h.fields

namespace Alarm.Kept

theorem entry (h : a.Kept s) (he : s.entry = some e) : a.Stored e := by
  obtain ⟨e', he', hstored⟩ := h.stored
  cases he.symm.trans he'
  exact hstored

theorem trim (h : a.Kept s) (hi : SlotInv rules k s) (he : s.entry = some e) (limit : Option UInt16) :
    (a.trim limit).Kept (s.trim limit (k, e)) := by
  have hstored := (h.entry he).trim limit
  refine ⟨⟨_, rfl, hstored⟩, ?_, h.created.trim he limit⟩
  refine (h.records.trim he hi limit).of_length (newest_suffix limit a.changes) ?_
  rintro _ ⟨⟩
  rw [hstored.length, Alarm.length_published]

theorem place (h : a.Kept s) (hi : SlotInv rules k s) (he : s.entry = some e) (now : TimePoint) (rules' : ShelvingRules) :
    (a.place now (findMatchingShelf k rules')).Kept (s.reshelve now rules' (k, e)) := by
  have hstored := h.entry he
  refine ⟨⟨_, entry_reshelve he now, rfl, hstored.fields, hstored.length⟩, h.records.reshelve he hi now, ?_⟩
  have hcreated : ShowsCreated (if e.shelf.isSome then some now else some a.timeCreated) (s.reshelve now rules' (k, e)) :=
    h.created.reshelve he hi now
  rw [hstored.shelf, ← apply_ite some] at hcreated
  exact hcreated

end Alarm.Kept

namespace KeptIn

/-- A round of a loop keeps the alarm of its slot if it does with it what the board does. -/
theorem round {found : Option Alarm} {T : InstanceKey × AlarmEntry → Slot → Slot} {f : Alarm → Option Alarm}
    (h : KeptIn found s) (hf : ∀ a e, found = some a → s.entry = some e → a.Kept s → KeptIn (f a) (T (k, e) s)) :
    KeptIn (found.bind f) (s.round T k) := by
  cases found with
  | none =>
    have he : s.entry = none := h
    show (s.round T k).entry = none
    rw [Slot.round, he]
    exact he
  | some a =>
    have hkept : a.Kept s := h
    obtain ⟨e, he, -⟩ := hkept.stored
    show KeptIn (f a) (s.round T k)
    rw [Slot.round, he]
    exact hf a e rfl he hkept

theorem purge {found : Option Alarm} (h : KeptIn found s) (l : Listing) (filter : AlarmFilter) {keep : Alarm → Bool}
    (hkeep : ∀ a e, found = some a → a.Stored e → (keep a = true ↔ purges l filter (k, e) = false)) :
    KeptIn (found.filter keep) (s.round (Slot.purge l filter) k) := by
  have hfilter : found.filter keep = found.bind fun a => if keep a then some a else none := by
    cases found <;> rfl
  rw [hfilter]
  refine h.round fun a e hfound he hkept => ?_
  have hiff := hkeep a e hfound (hkept.entry he)
  unfold Slot.purge
  cases hp : purges l filter (k, e) with
  | true =>
    have hk : keep a = false := Bool.eq_false_iff.2 fun hk => by
      rw [hiff.1 hk] at hp
      cases hp
    rw [hk]
    exact rfl
  | false =>
    rw [hiff.2 hp]
    exact hkept

theorem compress {found : Option Alarm} (h : KeptIn found s) (hi : SlotInv rules k s) (l : Listing) (filter : AlarmFilter)
    {p : Alarm → Prop} [DecidablePred p]
    (hp : ∀ a e, found = some a → a.Stored e → (p a ↔ compresses l filter (k, e) = true)) :
    KeptIn (found.map fun a => if p a then a.trim (some 1) else a) (s.round (Slot.compress l filter) k) := by
  rw [Option.map_eq_bind]
  refine h.round fun a e hfound he hkept => ?_
  have hiff := hp a e hfound (hkept.entry he)
  show KeptIn (some (if p a then a.trim (some 1) else a)) _
  unfold Slot.compress
  by_cases hc : compresses l filter (k, e) = true
  · rw [if_pos (hiff.2 hc), if_pos hc]
    exact hkept.trim hi he _
  · rw [if_neg fun ha => hc (hiff.1 ha), if_neg hc]
    exact hkept

theorem place {found : Option Alarm} (h : KeptIn found s) (hi : SlotInv rules k s) (now : TimePoint)
    (rules' : ShelvingRules) :
    KeptIn (found.map (·.place now (findMatchingShelf k rules'))) (s.round (Slot.reshelve now rules') k) := by
  rw [Option.map_eq_bind]
  exact h.round fun a e _ he hkept => hkept.place hi he now rules'

theorem trim {found : Option Alarm} (h : KeptIn found s) (hi : SlotInv rules k s) (limit : Option UInt16) :
    KeptIn (found.map (·.trim limit)) (s.round (Slot.trim limit) k) := by
  rw [Option.map_eq_bind]
  exact h.round fun a e _ he hkept => hkept.trim hi he limit

end KeptIn

/-! ### Submissions -/

omit [Libyang] in
theorem differs_iff (now : TimePoint) :
    a.Differs input.severity input.alarmText ↔ Fields.alters (some a.fields) (input.submission now) = true := by
  unfold Alarm.Differs Fields.alters Submission.isClear AlarmInput.submission Alarm.fields
  cases hs : input.severity with
  | cleared => simp
  | active severity =>
    have hvalue : (SeverityWithClear.active severity).value ≠ a.severity.value ↔ severity ≠ a.severity :=
      not_congr ⟨fun h => Severity.value_injective h, fun h => congrArg Severity.value h⟩
    simp [hvalue, or_assoc]

/-- The fields of the alarm are those that the submission makes. -/
theorem fields_submitted (b : Board) (now : TimePoint) (input : AlarmInput) :
    (b.submitted now input).map Alarm.fields =
      Fields.submit ((b.alarms (InstanceKey.fromNode input)).map Alarm.fields) (input.submission now) := by
  unfold Board.submitted
  cases b.alarms (InstanceKey.fromNode input) with
  | none =>
    rw [Option.map_none, Fields.submit_none]
    cases hs : input.severity with
    | cleared => simp [Submission.isClear, AlarmInput.submission, hs]
    | active severity =>
      simp [Submission.isClear, AlarmInput.submission, hs, Alarm.raise, Alarm.fields, SeverityWithClear.value]
  | some a =>
    rw [Option.map_some, Fields.submit]
    simp only
    by_cases hd : a.Differs input.severity input.alarmText
    · rw [if_pos hd, if_pos ((differs_iff now).1 hd)]
      cases hs : input.severity with
      | cleared => simp [Submission.isClear, AlarmInput.submission, hs, Alarm.change, Alarm.fields, Fields.raises]
      | active severity =>
        simp [Submission.isClear, AlarmInput.submission, hs, Alarm.change, Alarm.fields, Fields.raises,
          SeverityWithClear.value]
    · rw [if_neg hd, if_neg fun h => hd ((differs_iff now).2 h)]
      rfl

theorem lookup_of_keptIn {found : Option Alarm} (h : KeptIn found (w.slot k)) :
    (w.alarms.lookup k).map AlarmEntry.fields = found.map Alarm.fields := by
  cases found with
  | none => exact congrArg (Option.map AlarmEntry.fields) (show w.alarms.lookup k = none from h)
  | some a =>
    have hkept : a.Kept (w.slot k) := h
    obtain ⟨e, he, hstored⟩ := hkept.stored
    have hlookup : w.alarms.lookup k = some e := he
    rw [hlookup, Option.map_some, hstored.fields]
    rfl

/-- A submission that asks for nothing leaves the alarm on the board as it is. -/
theorem submitted_of_not_asksChange (h : KeptIn (b.alarms (InstanceKey.fromNode input)) (w.slot (InstanceKey.fromNode input)))
    (hn : ¬ AsksChange input w) (now : TimePoint) : b.submitted now input = b.alarms (InstanceKey.fromNode input) := by
  have halters : Fields.alters ((b.alarms (InstanceKey.fromNode input)).map Alarm.fields) (input.submission now) = false := by
    rw [← lookup_of_keptIn h]
    exact Bool.eq_false_iff.2 fun hc => hn ((alters_iff now).1 hc)
  unfold Board.submitted
  cases hfound : b.alarms (InstanceKey.fromNode input) with
  | none =>
    rw [hfound] at halters
    cases hs : input.severity with
    | cleared => rfl
    | active severity => simp [Fields.alters, Submission.isClear, AlarmInput.submission, hs] at halters
  | some a =>
    rw [hfound] at halters
    simp only
    rw [if_neg fun hd => Bool.false_ne_true (halters.symm.trans ((differs_iff now).1 hd))]

/-- What the entry of a submission has recorded. -/
theorem length_submission (w : World) (env : Env) (input : AlarmInput) {changes : List Change}
    (h : ((w.alarms.lookup (InstanceKey.fromNode input)).elim [] (·.statusChanges)).length + 1 = changes.length) :
    (w.submission env input).1.statusChanges.length = (newest w.maxAlarmStatusChanges changes).length := by
  refine length_newest w.maxAlarmStatusChanges ?_
  rw [← h]
  unfold AlarmEntry.recorded
  cases w.alarms.lookup (InstanceKey.fromNode input) <;> simp [AlarmEntry.orFresh, AlarmEntry.new]

/-- A submission that asks for a change makes the same of the alarm in its slot and on the board. -/
theorem keptIn_submitted (hi : Inv w)
    (h : KeptIn (b.alarms (InstanceKey.fromNode input)) (w.slot (InstanceKey.fromNode input)))
    (hrules : w.rules = b.rules) (hlimit : w.maxAlarmStatusChanges = b.limit) (ha : AsksChange input w)
    (hf : Fresh env input w) :
    KeptIn (b.submitted env.now input) ((w.submitted env input).slot (InstanceKey.fromNode input)) := by
  have hslot : ((w.submitted env input).slot (InstanceKey.fromNode input)).entry = some (w.submission env input).1 := by
    rw [World.submitted, World.slot_recount, World.slot_upsert_self]
    rfl
  have hshelf : (w.submission env input).1.shelf = findMatchingShelf (InstanceKey.fromNode input) w.rules :=
    submission_shelf env hi
  have hfields : (b.submitted env.now input).map Alarm.fields = some (w.submission env input).1.fields := by
    rw [fields_submitted, ← lookup_of_keptIn h, submit_fields ha]
  have hcreated : ShowsCreated (some (w.submission env input).1.created)
      ((w.submitted env input).slot (InstanceKey.fromNode input)) := showsCreated_submitted
  -- the alarm on the board has these changes, before the limit is applied
  have hkept : ∀ a changes, b.submitted env.now input = some a → a.shelf = (w.submission env input).1.shelf →
      a.timeCreated = a.created → a.changes = newest b.limit changes →
      ((w.alarms.lookup (InstanceKey.fromNode input)).elim [] (·.statusChanges)).length + 1 = changes.length →
      SlotRecords (changes.reverse.map Change.published) ((w.submitted env input).slot (InstanceKey.fromNode input)) →
      KeptIn (b.submitted env.now input) ((w.submitted env input).slot (InstanceKey.fromNode input)) := by
    intro a changes hsome hs htime hchanges hlength hrecords
    rw [hsome] at hfields ⊢
    have hfields' : (w.submission env input).1.fields = a.fields := (Option.some.inj hfields).symm
    have hlength' : (w.submission env input).1.statusChanges.length = a.changes.length := by
      rw [length_submission w env input hlength, hlimit, hchanges]
    refine ⟨⟨_, hslot, hs.symm, hfields', hlength'⟩, ?_, ?_⟩
    · have hsuffix : a.published <:+ changes.reverse.map Change.published := by
        rw [Alarm.published, hchanges]
        exact newest_suffix b.limit changes
      refine hrecords.of_length hsuffix fun e he => ?_
      cases hslot.symm.trans he
      rw [hlength', Alarm.length_published]
    · rw [htime, show a.created = (w.submission env input).1.created from congrArg Fields.created hfields'.symm]
      exact hcreated
  cases hfound : b.alarms (InstanceKey.fromNode input) with
  | none =>
    rw [hfound] at h
    have hlookup : w.alarms.lookup (InstanceKey.fromNode input) = none := h
    cases hs : input.severity with
    | cleared =>
      obtain ⟨e, he, -⟩ := raised_of_clear ha.notCleared hs
      cases hlookup.symm.trans he
    | active severity =>
      have habsent : SlotRecords [] (w.slot (InstanceKey.fromNode input)) := .of_absent hlookup
      have hrecords := slotRecords_submitted hi ha hf habsent
      rw [hlookup] at hrecords
      refine hkept (.raise b.limit (findMatchingShelf (InstanceKey.fromNode input) b.rules) env.now severity
        input.alarmText) [⟨env.now, .active severity, input.alarmText⟩] ?_ ?_ rfl rfl ?_ ?_
      · unfold Board.submitted
        rw [hfound, hs]
      · rw [hshelf, hrules]
        rfl
      · rw [hlookup]
        rfl
      · rw [← hs]
        exact hrecords
  | some a =>
    rw [hfound] at h
    have hkept' : a.Kept (w.slot (InstanceKey.fromNode input)) := h
    obtain ⟨e, he, hstored⟩ := hkept'.stored
    have hlookup : w.alarms.lookup (InstanceKey.fromNode input) = some e := he
    have hdiffers : a.Differs input.severity input.alarmText := by
      have halters := (alters_iff env.now).2 ha
      rw [lookup_of_keptIn (k := InstanceKey.fromNode input) h] at halters
      exact (differs_iff env.now).2 halters
    have hrecords := slotRecords_submitted hi ha hf hkept'.records
    rw [hlookup] at hrecords
    refine hkept (a.change b.limit ⟨env.now, input.severity, input.alarmText⟩)
      (⟨env.now, input.severity, input.alarmText⟩ :: a.changes) ?_ ?_ rfl rfl ?_ ?_
    · unfold Board.submitted
      rw [hfound]
      exact if_pos hdiffers
    · rw [hshelf, ← ((hi.slots _).present e he).shelf]
      exact hstored.shelf.symm
    · rw [hlookup, List.length_cons]
      exact congrArg (· + 1) hstored.length
    · rw [List.reverse_cons, List.map_append]
      exact hrecords

/-! ### Criteria -/

omit [Libyang] in
theorem toPurge_iff {l : Listing} {input : PurgeInput} {now : TimePoint} (h : a.Stored e) :
    a.ToPurge l input now ↔ Listing.ofShelf e.shelf = l ∧ MeetsStatus input e ∧ BelowThreshold input now e := by
  have hlist : Listing.ofShelf e.shelf = a.list := congrArg Listing.ofShelf h.shelf
  have hcleared : e.isCleared = a.isCleared := congrArg Fields.isCleared h.fields
  have hseverity : e.lastSeverity = a.severity.value := congrArg Fields.lastSeverity h.fields
  have hchanged : e.lastChanged = a.lastChanged := congrArg Fields.lastChanged h.fields
  constructor
  · intro hp
    refine ⟨hlist.trans hp.listed, ⟨?_, fun spec hspec => ?_⟩, fun spec hspec => ?_⟩
    · cases hstatus : input.alarmClearanceStatus with
      | any => trivial
      | cleared => exact hcleared.trans (hp.cleared hstatus)
      | notCleared => exact hcleared.trans (hp.notCleared hstatus)
    · rw [← SeveritySpec.check_iff, hseverity]
      exact hp.severity spec hspec
    · rw [hchanged]
      exact hp.age spec hspec
  · rintro ⟨hl, hs, ht⟩
    refine ⟨hlist.symm.trans hl, fun hstatus => ?_, fun hstatus => ?_, fun spec hspec => ?_, fun spec hspec => ?_⟩
    · have hmeets := hs.clearance
      rw [hstatus] at hmeets
      exact hcleared.symm.trans hmeets
    · have hmeets := hs.clearance
      rw [hstatus] at hmeets
      exact hcleared.symm.trans hmeets
    · rw [← hseverity, SeveritySpec.check_iff]
      exact hs.severity spec hspec
    · rw [← hchanged]
      exact ht spec hspec

omit [Libyang] in
theorem toCompress_iff {l : Listing} {input : CompressInput} (h : a.Stored e) :
    a.ToCompress l input k ↔ compresses l (compressFilter input) (k, e) = true := by
  have hlist : Listing.ofShelf e.shelf = a.list := congrArg Listing.ofShelf h.shelf
  rw [compresses_iff]
  constructor
  · exact fun hc => ⟨hlist.trans hc.listed, hc.resource, hc.alarmTypeId, hc.alarmTypeQualifier⟩
  · exact fun hc => ⟨hlist.symm.trans hc.listed, hc.resource, hc.alarmTypeId, hc.alarmTypeQualifier⟩

/-! ### The limit -/

omit [Libyang] in
theorem limit_scanned (changes : List ControlChange) (d : Daemon) (shrink : Bool) :
    (scanChanges changes d shrink).daemon.maxAlarmStatusChanges = limitAfter changes d.maxAlarmStatusChanges := by
  induction changes generalizing d shrink with
  | nil => rfl
  | cons c changes ih =>
    cases c with
    | alarmShelving => rfl
    | notifyStatusChanges value => exact ih _ _
    | notifySeverityLevel value => exact ih _ _
    | maxAlarmStatusChanges value => exact ih _ _
    | other => exact ih _ _

/-- An alarm within the limit is not trimmed. -/
theorem KeptIn.trim_self {found : Option Alarm} (h : KeptIn found s) (hw : ∀ e, s.entry = some e → e.excess limit = 0) :
    KeptIn (found.map (·.trim limit)) s := by
  cases found with
  | none => exact h
  | some a =>
    have hkept : a.Kept s := h
    obtain ⟨e, he, hstored⟩ := hkept.stored
    have hself : a.trim limit = a := by
      have hnewest : newest limit a.changes = a.changes := by
        cases limit with
        | none => rfl
        | some n =>
          have hexcess := hw e he
          unfold AlarmEntry.excess at hexcess
          simp only at hexcess
          refine List.take_of_length_le ?_
          rw [← hstored.length]
          omega
      rw [Alarm.trim, hnewest]
    rw [Option.map_some, hself]
    exact hkept

/-! ### Calls -/

theorem act_of_not_admits (hn : ¬ b.Admits o input) (env : Env) : b.act (.createOrUpdateAlarm o input) env = b := by
  simp only [Board.act, if_neg hn]

theorem act_of_admits (ha : b.Admits o input) (env : Env) :
    b.act (.createOrUpdateAlarm o input) env = b.submit env.now input := by
  simp only [Board.act, if_pos ha]

/-- A submission without effect leaves the slot of its alarm, like all the others, alone. -/
theorem Ends.slot_of_not_effective (he : Ends w ⟨.createOrUpdateAlarm o input, env, r⟩ w')
    (hn : ¬ (Served o ∧ Effective env input w)) (k : InstanceKey) : w'.slot k = w.slot k := by
  by_cases hk : InstanceKey.fromNode input = k
  · subst hk
    rcases he.slot_of_submission with ⟨ho, heff, -, -⟩ | ⟨ho, heff, -, -⟩ | ⟨-, hs⟩
    · exact absurd ⟨ho, heff⟩ hn
    · exact absurd ⟨ho, heff⟩ hn
    · exact hs
  · exact he.slot_of_other hk

theorem keptIn_submit (h : ∀ k, KeptIn (b.alarms k) (w.slot k)) (hi : Inv w) (hrules : w.rules = b.rules)
    (hlimit : w.maxAlarmStatusChanges = b.limit) (hc : CachesInventory b.inventory w) (hreads : env.getDataThrows = false)
    (he : Ends w ⟨.createOrUpdateAlarm o input, env, r⟩ w')
    (hr : ¬ ReusesTime ⟨w, ⟨.createOrUpdateAlarm o input, env, r⟩, w'⟩) (k : InstanceKey) :
    KeptIn ((b.act (.createOrUpdateAlarm o input) env).alarms k) (w'.slot k) := by
  have hfetched : (w.inventoryDirty && env.getDataThrows) = false := by rw [hreads, Bool.and_false]
  by_cases ha : b.Admits o input
  · rw [act_of_admits ha]
    by_cases hasks : AsksChange input w
    · have heff : Effective env input w := ⟨hasks, ha.quotable, hfetched, hc.announced_iff.2 ha.announced⟩
      have hf : Fresh env input w := Classical.not_not.1 fun hf => hr ⟨o, input, rfl, ha.served, heff, hf⟩
      by_cases hk : InstanceKey.fromNode input = k
      · subst hk
        have hslot : w'.slot (InstanceKey.fromNode input) = (w.submitted env input).slot (InstanceKey.fromNode input) := by
          rcases he.slot_of_submission with ⟨-, -, -, hs⟩ | ⟨-, -, hf', -⟩ | ⟨hn, -⟩
          · rw [hs, World.submitted, World.slot_recount, World.slot_upsert_self]
            rfl
          · exact absurd hf hf'
          · exact absurd ⟨ha.served, heff⟩ hn
        rw [hslot]
        show KeptIn (Function.update b.alarms _ _ (InstanceKey.fromNode input)) _
        rw [Function.update_self]
        exact keptIn_submitted hi (h _) hrules hlimit hasks hf
      · rw [he.slot_of_other hk]
        show KeptIn (Function.update b.alarms _ _ k) _
        rw [Function.update_of_ne (Ne.symm hk)]
        exact h k
    · rw [he.slot_of_not_effective fun heff => hasks heff.2.toAsksChange]
      have hsame : b.submit env.now input = b := by
        rw [Board.submit, submitted_of_not_asksChange (h _) hasks, Function.update_eq_self]
      rw [hsame]
      exact h k
  · rw [act_of_not_admits ha, he.slot_of_not_effective fun heff =>
      ha ⟨heff.1, heff.2.quotable, hc.announced_iff.1 heff.2.announced⟩]
    exact h k

theorem keptIn_purge {l : Listing} {input : PurgeInput} (h : ∀ k, KeptIn (b.alarms k) (w.slot k)) (hi : Inv w)
    (he : Ends w ⟨.purgeAlarms l input, env, r⟩ w') (k : InstanceKey) :
    KeptIn ((b.act (.purgeAlarms l input) env).alarms k) (w'.slot k) := by
  classical
  by_cases hv : input.Valid
  · simp only [Board.act, if_pos hv]
    obtain ⟨filter, hfilter, hmatches⟩ := purgeFilter_ok hv env.filterNow
    rw [he.slot_of_purge hi hfilter]
    refine (h k).purge l filter fun a e _ hstored => ?_
    have hpurges : purges l filter (k, e) = true ↔ a.ToPurge l input env.filterNow := by
      rw [toPurge_iff hstored, ← hmatches k e, purges, Bool.and_eq_true, decide_eq_true_iff, eq_comm]
    rw [decide_eq_true_iff, ← hpurges, Bool.not_eq_true]
  · simp only [Board.act, if_neg hv]
    have hinvalid : input.severity = some none ∨ input.olderThan = some none := by
      by_contra hno
      exact hv ⟨fun hs => hno (.inl hs), fun ht => hno (.inr ht)⟩
    rw [he.slot_of_invalid_purge (purgeFilter_error_iff.2 ⟨rfl, hinvalid⟩)]
    exact h k

theorem keptIn_compress {l : Listing} {input : CompressInput} (h : ∀ k, KeptIn (b.alarms k) (w.slot k)) (hi : Inv w)
    (he : Ends w ⟨.compressAlarms l input, env, r⟩ w') (k : InstanceKey) :
    KeptIn ((b.act (.compressAlarms l input) env).alarms k) (w'.slot k) := by
  classical
  rw [he.slot_of_compress hi]
  exact (h k).compress (hi.slots k) l (compressFilter input) fun a e _ hstored => toCompress_iff hstored

theorem keptIn_configure {changes : List ControlChange} {shelving : ShelvingRules}
    (h : ∀ k, KeptIn (b.alarms k) (w.slot k)) (hi : Inv w) (hlimit : w.maxAlarmStatusChanges = b.limit)
    (hreads : env.getDataThrows = false) (he : Ends w ⟨.controlChanged changes shelving, env, r⟩ w')
    (hw : WithinLimit w') (k : InstanceKey) :
    KeptIn ((b.act (.controlChanged changes shelving) env).alarms k) (w'.slot k) := by
  have hafter := SameFor.of_control (k := k) he
  rw [hreads, Bool.and_false, if_neg Bool.false_ne_true] at hafter
  have hwithin := hw k
  rw [hafter.limit] at hwithin
  rw [hafter.slot] at hwithin ⊢
  have hlimit' : (w.controlled env.now changes shelving).maxAlarmStatusChanges = limitAfter changes b.limit := by
    rw [(sameSettings_controlled env.now changes shelving w).maxAlarmStatusChanges, ← hlimit]
    exact limit_scanned changes w.toDaemon false
  rw [hlimit'] at hwithin
  have hscanned : (w.scanned changes).slot k = w.slot k := by
    rw [World.scanned_eq]
    rfl
  have hmoved : KeptIn ((b.alarms k).map fun a =>
      if ControlChange.alarmShelving ∈ changes then a.place env.now (findMatchingShelf k shelving) else a)
      ((w.controlReshelved env.now changes shelving).slot k) := by
    unfold World.controlReshelved
    by_cases hs : ControlChange.alarmShelving ∈ changes
    · simp only [if_pos hs, if_pos (needsReshelve_iff.2 hs)]
      rw [slot_reshelved_round, hscanned]
      exact (h k).place (hi.slots k) env.now shelving
    · simp only [if_neg hs, if_neg (fun hn => hs (needsReshelve_iff.1 hn)), Option.map_id']
      rw [hscanned]
      exact h k
  have hslots := (hi.controlReshelved env.now changes shelving).slots k
  have hmap : (b.act (.controlChanged changes shelving) env).alarms k = ((b.alarms k).map fun a =>
      if ControlChange.alarmShelving ∈ changes then a.place env.now (findMatchingShelf k shelving) else a).map
        (·.trim (limitAfter changes b.limit)) := by
    rw [Option.map_map]
    rfl
  rw [hmap]
  have hcontrolled : (w.controlReshelved env.now changes shelving).maxAlarmStatusChanges = limitAfter changes b.limit := by
    rw [World.controlReshelved_limit, ← hlimit]
    exact limit_scanned changes w.toDaemon false
  by_cases hshrink : needsShrink changes w = true
  · rw [World.controlled, if_pos hshrink, slot_shrunk, hcontrolled] at hwithin ⊢
    by_cases hnone : (limitAfter changes b.limit).isNone = true
    · rw [if_pos hnone] at hwithin ⊢
      exact hmoved.trim_self hwithin
    · rw [if_neg hnone] at hwithin ⊢
      exact hmoved.trim hslots _
  · rw [World.controlled, if_neg hshrink] at hwithin ⊢
    exact hmoved.trim_self hwithin

end
end IetfAlarms

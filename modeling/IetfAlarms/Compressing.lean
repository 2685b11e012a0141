import IetfAlarms.History
import IetfAlarms.Purging

/-!
# What a compression removes

`compressAlarms` leaves the alarms of its list that meet the criteria with their newest status change, in
memory and in the tree, and touches nothing else. The two agree on what is the newest as long as no
submission found its time in the history of its alarm.
-/

namespace IetfAlarms
open Program Trace DataTree DataTree.Node

section
variable [Libyang] {b : Boot} {w w' : World} {env : Env} {l : Listing} {input : CompressInput} {k : InstanceKey}
variable {e : AlarmEntry} {n : Node} {tr : History} {r : Except Failure Reply} {hs : List PublishedChange}

/-! ### Criteria -/

/-- The alarm is in this list and has what the request gives. -/
structure ToCompress (l : Listing) (input : CompressInput) (k : InstanceKey) (e : AlarmEntry) : Prop where
  listed : Listing.ofShelf e.shelf = l
  resource : ∀ resource, input.resource = some resource → k.resource = resource
  alarmTypeId : ∀ id, input.alarmTypeId = some id → k.type.id.text = id
  alarmTypeQualifier : ∀ qualifier, input.alarmTypeQualifier = some qualifier → k.type.qualifier = qualifier

omit [Libyang] in
theorem compresses_iff : compresses l (compressFilter input) (k, e) = true ↔ ToCompress l input k e := by
  have hsplit : ToCompress l input k e ↔ Listing.ofShelf e.shelf = l ∧
      (∀ resource, input.resource = some resource → k.resource = resource) ∧
      (∀ id, input.alarmTypeId = some id → k.type.id.text = id) ∧
      (∀ qualifier, input.alarmTypeQualifier = some qualifier → k.type.qualifier = qualifier) :=
    ⟨fun h => ⟨h.listed, h.resource, h.alarmTypeId, h.alarmTypeQualifier⟩, fun h => ⟨h.1, h.2.1, h.2.2.1, h.2.2.2⟩⟩
  obtain ⟨resource, alarmTypeId, qualifier⟩ := input
  rw [hsplit, compresses, Bool.and_eq_true, decide_eq_true_iff, eq_comm (a := l)]
  refine and_congr_right fun _ => ?_
  cases resource <;> cases alarmTypeId <;> cases qualifier <;> simp [compressFilter, AlarmFilter.matches]

/-! ### The compression -/

/-- The alarm is left with its newest status change. -/
structure Compressed (e : AlarmEntry) (s s' : Slot) : Prop where
  entry : s'.entry = some { e with statusChanges := e.statusChanges.getLast?.toList }
  elsewhere : ∀ l, l ≠ Listing.ofShelf e.shelf → s'.node l = s.node l
  published : ∃ n n', s.node (Listing.ofShelf e.shelf) = some n ∧ s'.node (Listing.ofShelf e.shelf) = some n' ∧
    n'.instances .statusChange = (n.instances .statusChange).head?.toList ∧
    (n'.instances .statusChange).map (·.1) = (e.statusChanges.getLast?.map fun c => changeStep c.time).toList ∧
    ∀ a, n'.leaf a = n.leaf a

/-- The call compresses these alarms and nothing else, and is done with them. -/
structure CompressesExactly (env : Env) (l : Listing) (input : CompressInput) (w : World) (r : Except Failure Reply)
    (w' : World) : Prop where
  compressed : ∀ k e, w.alarms.lookup k = some e → ToCompress l input k e → Compressed e (w.slot k) (w'.slot k)
  kept : ∀ k, (∀ e, w.alarms.lookup k = some e → ¬ ToCompress l input k e) → w'.slot k = w.slot k
  statistics : ∀ p ∈ statisticsPaths, w'.edit.find p = w.edit.find p
  answer : ∃ compressed : List InstanceKey, compressed.Nodup ∧
    (∀ k, k ∈ compressed ↔ ∃ e, w.alarms.lookup k = some e ∧ ToCompress l input k e ∧ 1 < e.statusChanges.length) ∧
    Answers env .compressedAlarms compressed.length w r w'
  repeated : exec (compressAlarms env l input) w' = (.ok (.compressedAlarms "0"), w')

omit [Libyang] in
theorem removes_one_iff : removes (some 1) (k, e) = true ↔ 1 < e.statusChanges.length := by
  have hone : (1 : UInt16).toNat = 1 := rfl
  rw [removes, AlarmEntry.shrinkStatusChanges_eq, Bool.not_eq_true', List.isEmpty_eq_false_iff]
  simp only [AlarmEntry.excess, hone, ne_eq, List.map_eq_nil_iff, List.take_eq_nil_iff]
  constructor
  · intro h
    by_contra hle
    exact h (.inl (by omega))
  · rintro h (hz | hnil)
    · omega
    · rw [hnil] at h
      simp at h

omit [Libyang] in
theorem drop_length_sub_one {α : Type} (xs : List α) : xs.drop (xs.length - 1) = xs.getLast?.toList := by
  rcases xs.eq_nil_or_concat with rfl | ⟨ys, y, rfl⟩
  · rfl
  · simp

/-- Trimming to one change leaves the newest. -/
theorem compressed_trim {s : Slot} {rules : ShelvingRules} (hi : SlotInv rules k s) (he : s.entry = some e)
    (h : Recorded s) : Compressed e s (s.trim (some 1) (k, e)) := by
  obtain ⟨changes, -, h⟩ := h
  obtain ⟨n, hs, hn, -, hr⟩ := h e he
  obtain ⟨n', hn', hm⟩ := (hi.present e he).mirrored
  obtain rfl := Option.some.inj (hn.symm.trans hn')
  have hexcess : e.excess (some 1) = e.statusChanges.length - 1 := rfl
  have hlength : e.statusChanges.length = hs.length := by
    have := congrArg List.length hr.times
    rwa [List.length_map, List.length_map] at this
  have hdrop := hr.drop hm.wf (some 1)
  rw [hexcess, hlength, drop_length_sub_one] at hdrop
  refine ⟨?_, fun l hl => if_neg hl, n, dropChanges (e.shrinkStatusChanges (some 1)).2 n, hn, ?_, ?_, ?_, ?_⟩
  · show some (e.shrinkStatusChanges (some 1)).1 = _
    rw [AlarmEntry.shrinkStatusChanges_eq, hexcess, drop_length_sub_one]
  · show (if Listing.ofShelf e.shelf = Listing.ofShelf e.shelf then _ else _) = _
    rw [if_pos rfl]
    show some (dropChanges _ ((s.node (Listing.ofShelf e.shelf)).getD Node.empty)) = _
    rw [hn]
    rfl
  · rw [hdrop.published, hr.published]
    rcases hs.eq_nil_or_concat with rfl | ⟨ys, y, rfl⟩
    · rfl
    · simp
  · have htime : e.statusChanges.getLast?.map (·.time) = hs.getLast?.map (·.time) := by
      rw [← List.getLast?_map, hr.times, List.getLast?_map]
    have hstep : (e.statusChanges.getLast?.map fun c => changeStep c.time) =
        (hs.getLast?.map (·.time)).map changeStep := by
      rw [← htime, Option.map_map]
      rfl
    rw [hdrop.published, hstep]
    cases hs.getLast? <;> rfl
  · exact leaf_dropChanges _ n

theorem exec_compressAlarms_of_recorded (hi : Inv w) (hr : ∀ k, Recorded (w.slot k)) :
    exec (compressAlarms env l input) w = compressResult env l input w := by
  rcases exec_compressAlarms env hi l input with hex | ⟨w', -, hbad⟩
  · exact hex
  · refine absurd (fun x hx => ?_) hbad
    obtain ⟨changes, -, hc⟩ := hr x.1
    have he : (w.slot x.1).entry = some x.2 := AssocMap.mem_entries_iff.1 hx
    exact hc.trimOk he (hi.slots x.1) (some 1)

theorem slot_compressed (l : Listing) (filter : AlarmFilter) (k : InstanceKey) :
    (w.compressed l filter).slot k =
      match w.alarms.lookup k with
      | some e => (w.slot k).compress l filter (k, e)
      | none => w.slot k :=
  World.slot_foldl (World.slot_compress_self l filter) (World.slot_compress_of_ne l filter) k

/-- A call that has compressed what there is, written or not. -/
theorem same_of_compress (hi : Inv w) (hr : ∀ k, Recorded (w.slot k)) (hex : exec (compressAlarms env l input) w = (r, w')) :
    SameMemory (w.compressed l (compressFilter input)) w' := by
  rw [exec_compressAlarms_of_recorded hi hr, compressResult] at hex
  split at hex
  · rename_i hz
    obtain ⟨-, rfl⟩ := Prod.mk.inj hex
    rw [World.compressed_eq_self hi hz]
    exact .refl w
  · exact same_of_written hex

/-- A compressed alarm has nothing to lose. -/
theorem compressCount_of_compress (hi : Inv w) (hr : ∀ k, Recorded (w.slot k))
    (hex : exec (compressAlarms env l input) w = (r, w')) : compressCount l (compressFilter input) w' = 0 := by
  refine List.countP_eq_zero.2 ?_
  rintro ⟨k, e⟩ hx hp
  obtain ⟨hc, hlong⟩ := Bool.and_eq_true_iff.1 hp
  have he : (w'.slot k).entry = some e := AssocMap.mem_entries_iff.1 hx
  have hk := slot_compressed (w := w) l (compressFilter input) k
  rw [(same_of_compress hi hr hex).slot] at he
  cases hl : w.alarms.lookup k with
  | none =>
    have hnone : (w.slot k).entry = none := hl
    simp only [hl] at hk
    rw [hk, hnone] at he
    cases he
  | some e' =>
    have hsome : (w.slot k).entry = some e' := hl
    simp only [hl] at hk
    rw [hk, Slot.compress] at he
    split at he
    · have htrim := (compressed_trim (hi.slots k) hsome (hr k)).entry
      rw [he] at htrim
      obtain rfl := Option.some.inj htrim
      have hshort := removes_one_iff.1 hlong
      simp only at hshort
      cases hlast : e'.statusChanges.getLast? with
      | none => simp [hlast] at hshort
      | some c => simp [hlast] at hshort
    · rename_i hno
      rw [hsome] at he
      obtain rfl := Option.some.inj he
      exact hno hc

/-- As long as no time has been used twice, a compression does exactly what it should. -/
theorem compressesExactly_of_run (env : Env) (l : Listing) (input : CompressInput) (hrun : DaemonRun b tr w)
    (hr : ∀ t ∈ tr, ¬ ReusesTime t) :
    CompressesExactly env l input w (exec (compressAlarms env l input) w).1
      (exec (compressAlarms env l input) w).2 := by
  have hi := Inv.of_run hrun
  have hrec := recorded_of_run hrun hr
  obtain ⟨r, w', hex⟩ : ∃ r w', exec (compressAlarms env l input) w = (r, w') := ⟨_, _, rfl⟩
  rw [hex]
  have hsame := same_of_compress hi hrec hex
  refine ⟨fun k e he hto => ?_, fun k hno => ?_, fun p hp => ?_, ?_, ?_⟩
  · have hk := slot_compressed (w := w) l (compressFilter input) k
    simp only [he] at hk
    rw [hsame.slot, hk, Slot.compress, if_pos (compresses_iff.2 hto)]
    exact compressed_trim (hi.slots k) he (hrec k)
  · have hk := slot_compressed (w := w) l (compressFilter input) k
    rw [hsame.slot, hk]
    cases he : w.alarms.lookup k with
    | none => rfl
    | some e =>
      simp only
      rw [Slot.compress, if_neg fun hp => hno e he (compresses_iff.1 hp)]
  · rw [hsame.edit]
    exact foldl_view (v := fun w : World => w.edit.find p) fun x _ w => World.find_compress hp l (compressFilter input) w x
  · refine ⟨(w.alarms.entries.filter fun x => compresses l (compressFilter input) x && removes (some 1) x).map Prod.fst,
      w.alarms.nodup.sublist (List.filter_sublist.map _), fun k => ?_, ?_⟩
    · rw [List.mem_map]
      constructor
      · rintro ⟨⟨k, e⟩, hx, rfl⟩
        obtain ⟨hx, hp⟩ := List.mem_filter.1 hx
        obtain ⟨hc, hlong⟩ := Bool.and_eq_true_iff.1 hp
        exact ⟨e, AssocMap.mem_entries_iff.1 hx, compresses_iff.1 hc, removes_one_iff.1 hlong⟩
      · rintro ⟨e, he, hto, hlong⟩
        have hp := Bool.and_eq_true_iff.2 ⟨compresses_iff.2 hto, (removes_one_iff (k := k)).2 hlong⟩
        exact ⟨(k, e), List.mem_filter.2 ⟨AssocMap.mem_entries_iff.2 he, hp⟩, rfl⟩
    · rw [List.length_map, ← List.countP_eq_length_filter]
      rw [exec_compressAlarms_of_recorded hi hrec] at hex
      exact answers_of_written (w.compressed_frame l (compressFilter input)) hex
  · have hends : Ends w ⟨.compressAlarms l input, env, r⟩ w' :=
      .compress ((exec_compressAlarms_of_recorded hi hrec).symm.trans hex)
    obtain ⟨w₁, he, hs⟩ := hends.effect
    have hi' : Inv w' := (hi.effect he).same hs
    have hfresh : ¬ ReusesTime ⟨w, ⟨.compressAlarms l input, env, r⟩, w'⟩ := by
      rintro ⟨o, input, hcall, -⟩
      cases hcall
    have hrec' : ∀ k, Recorded (w'.slot k) := fun k => by
      rw [hs.slot]
      exact he.recorded hi hfresh hrec k
    have hz := compressCount_of_compress hi hrec hex
    rw [exec_compressAlarms_of_recorded hi' hrec', compressResult, hz]
    rfl

/-- The node has status changes. -/
def showsChanges (w : World) (l : Listing) (k : InstanceKey) : Bool :=
  (w.edit.find (alarmPath l k)).any fun n => !(n.instances .statusChange).isEmpty

/-- An exact compression of everything leaves every published history with something. -/
theorem CompressesExactly.showsChanges (h : CompressesExactly env l ⟨none, none, none⟩ w r w')
    (he : ((w.alarms.lookup k).any fun e => decide (Listing.ofShelf e.shelf = l)) = true)
    (hn : showsChanges w l k = true) : showsChanges w' l k = true := by
  obtain ⟨e, he, hl⟩ := Option.any_eq_true .. |>.1 he
  have hl : Listing.ofShelf e.shelf = l := of_decide_eq_true hl
  have hto : ToCompress l ⟨none, none, none⟩ k e :=
    ⟨hl, fun _ h => absurd h.symm (Option.some_ne_none _), fun _ h => absurd h.symm (Option.some_ne_none _),
      fun _ h => absurd h.symm (Option.some_ne_none _)⟩
  obtain ⟨n, n', hfind, hfind', hhead, -⟩ := (h.compressed k e he hto).published
  rw [hl] at hfind hfind'
  have hfind : w.edit.find (alarmPath l k) = some n := hfind
  have hfind' : w'.edit.find (alarmPath l k) = some n' := hfind'
  rw [IetfAlarms.showsChanges, hfind] at hn
  rw [IetfAlarms.showsChanges, hfind']
  show (!(n'.instances .statusChange).isEmpty) = true
  rw [hhead]
  cases hc : n.instances .statusChange with
  | nil =>
    have hn : (!(n.instances .statusChange).isEmpty) = true := hn
    rw [hc] at hn
    cases hn
  | cons c cs => rfl

end

namespace AlarmsTest

theorem compressesExactly_mixed :
    CompressesExactly (atTime 5) .shelvedAlarms ⟨none, none, none⟩ (scenario [] mixedCalls).2
      (exec (compressAlarms (atTime 5) .shelvedAlarms ⟨none, none, none⟩) (scenario [] mixedCalls).2).1
      (exec (compressAlarms (atTime 5) .shelvedAlarms ⟨none, none, none⟩) (scenario [] mixedCalls).2).2 :=
  compressesExactly_of_run (atTime 5) .shelvedAlarms ⟨none, none, none⟩ mixedCalls_run.1
    fun _ ht => not_reusesTime_of_clean mixedCalls_run.1 mixedCalls_run.2.1 mixedCalls_run.2.2 ht

/-- The severity of an alarm changes while the clock stands still. -/
def sameTimeCalls : List (Call × Env) :=
  [(submit "wss" (.active .critical) "Getting worse.", atTime 1),
    (submit "wss" (.active .major) "Hey, I'm overheating.", atTime 1)]

theorem sameTimeCalls_run : DaemonRun (boot []) (scenario [] sameTimeCalls).1 (scenario [] sameTimeCalls).2 :=
  daemonRun_scenario (by decide +kernel)

/-- The entry has the change twice, the tree once: the compression removes that one. -/
theorem not_compressesExactly_sameTime : ¬ ∀ (b : Boot) (tr : History) (w : World) (env : Env) (l : Listing)
    (input : CompressInput), DaemonRun b tr w →
    CompressesExactly env l input w (exec (compressAlarms env l input) w).1 (exec (compressAlarms env l input) w).2 := by
  intro hall
  have hexact := hall _ _ _ (atTime 2) .alarmList ⟨none, none, none⟩ sameTimeCalls_run
  have hshows := hexact.showsChanges (k := key "wss") (by decide +kernel) (by decide +kernel)
  have hempty : showsChanges (exec (compressAlarms (atTime 2) .alarmList ⟨none, none, none⟩)
      (scenario [] sameTimeCalls).2).2 .alarmList (key "wss") = false := by decide +kernel
  rw [hempty] at hshows
  cases hshows

end AlarmsTest
end IetfAlarms

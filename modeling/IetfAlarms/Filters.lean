import IetfAlarms.AlarmEntry
import Mathlib.Algebra.Group.Int.Defs
import Mathlib.Algebra.Group.Nat.Defs

/-!
# Alarm filters

`src/alarms/Filters.cpp`: the criteria of the purge and compress RPCs.
-/

namespace IetfAlarms

abbrev AlarmPredicate : Type := InstanceKey → AlarmEntry → Bool

structure AlarmFilter where
  filters : List AlarmPredicate

def AlarmFilter.matches (filter : AlarmFilter) (alarmKey : InstanceKey) (alarmEntry : AlarmEntry) : Bool :=
  filter.filters.all fun f => f alarmKey alarmEntry

/-! ### Purging -/

inductive ClearanceStatus
  | any | cleared | notCleared
deriving DecidableEq, Repr

/-- The choice `sev-spec`. -/
inductive SeveritySpec
  | above (s : Severity)
  | is (s : Severity)
  | below (s : Severity)
deriving DecidableEq, Repr

/-- The choice `age-spec`. -/
inductive AgeSpec
  | seconds (n : UInt16)
  | minutes (n : UInt16)
  | hours (n : UInt16)
  | days (n : UInt16)
  | weeks (n : UInt16)
deriving DecidableEq, Repr

/-- `filter-input`. The containers may be present without a case of their choice. -/
structure PurgeInput where
  alarmClearanceStatus : ClearanceStatus
  severity : Option (Option SeveritySpec)
  olderThan : Option (Option AgeSpec)
deriving DecidableEq, Repr

/-- A signed 64-bit value, wrapped around. -/
def wrap64 (x : Int) : Int := Int.bmod x (2 ^ 64)

def nanosecondsPerSecond : Int := 1000000000

/-- The age in nanoseconds, in the arithmetic of `std::chrono::nanoseconds`. -/
def AgeSpec.nanoseconds : AgeSpec → Int
  | seconds n => wrap64 (n.toNat * nanosecondsPerSecond)
  | minutes n => wrap64 (n.toNat * (60 * nanosecondsPerSecond))
  | hours n => wrap64 (n.toNat * (3600 * nanosecondsPerSecond))
  | days n => wrap64 (n.toNat * (86400 * nanosecondsPerSecond))
  | weeks n => wrap64 (7 * n.toNat * (86400 * nanosecondsPerSecond))

def SeveritySpec.check : SeveritySpec → Int → Bool
  | above s, alarmValue => s.value < alarmValue
  | is s, alarmValue => s.value == alarmValue
  | below s, alarmValue => s.value > alarmValue

def ClearanceStatus.check : ClearanceStatus → AlarmEntry → Bool
  | any, _ => true
  | cleared, alarm => alarm.isCleared
  | notCleared, alarm => !alarm.isCleared

/-- `PurgeFilter::PurgeFilter`, reading the clock as `now`. -/
def purgeFilter (filterInput : PurgeInput) (now : TimePoint) : Except Failure AlarmFilter :=
  let clearance : List AlarmPredicate := [fun _ alarm => filterInput.alarmClearanceStatus.check alarm]
  let severity : Except Failure (List AlarmPredicate) :=
    match filterInput.severity with
    | none => .ok []
    | some (some choice) => .ok [fun _ alarm => choice.check alarm.lastSeverity]
    | some none => .error .invalidFilter
  let olderThan : Except Failure (List AlarmPredicate) :=
    match filterInput.olderThan with
    | none => .ok []
    | some (some choice) =>
      let threshold := wrap64 (now - choice.nanoseconds)
      .ok [fun _ alarm => alarm.lastChanged < threshold]
    | some none => .error .invalidFilter
  match severity, olderThan with
  | .ok severity, .ok olderThan => .ok ⟨clearance ++ severity ++ olderThan⟩
  | _, _ => .error .invalidFilter

/-! ### Ages -/

/-- The age in nanoseconds. -/
def AgeSpec.length : AgeSpec → Int
  | seconds n => n.toNat * nanosecondsPerSecond
  | minutes n => n.toNat * (60 * nanosecondsPerSecond)
  | hours n => n.toNat * (3600 * nanosecondsPerSecond)
  | days n => n.toNat * (86400 * nanosecondsPerSecond)
  | weeks n => n.toNat * (604800 * nanosecondsPerSecond)

/-- What a signed 64-bit value can be. -/
def Fits64 (x : Int) : Prop := -2 ^ 63 ≤ x ∧ x < 2 ^ 63

/-- The results on the way to the threshold: the days of a number of weeks, the age and the difference. -/
def AgeSpec.intermediates (now : Int) (spec : AgeSpec) : List Int :=
  match spec with
  | weeks n => [7 * n.toNat, spec.length, now - spec.length]
  | _ => [spec.length, now - spec.length]

/-- The filter by this age alone matches what is older, and nothing overflows on the way. -/
def AgeRight (spec : AgeSpec) (now : Int) : Prop :=
  (∃ filter, purgeFilter ⟨.any, none, some (some spec)⟩ now = .ok filter ∧
    ∀ k e, filter.matches k e = true ↔ e.lastChanged + spec.length < now) ∧
  ∀ x ∈ spec.intermediates now, Fits64 x

theorem wrap64_of_fits {x : Int} (h : Fits64 x) : wrap64 x = x := by
  obtain ⟨h1, h2⟩ := h
  exact Int.bmod_eq_of_le_mul_two (by omega) (by omega)

theorem AgeSpec.nanoseconds_eq (spec : AgeSpec) : spec.nanoseconds = wrap64 spec.length := by
  cases spec with
  | weeks n =>
    have hdays : (7 * n.toNat * (86400 * nanosecondsPerSecond) : Int) = n.toNat * (604800 * nanosecondsPerSecond) := by
      unfold nanosecondsPerSecond
      omega
    rw [nanoseconds, length, hdays]
  | _ => rfl

theorem AgeSpec.length_nonneg (spec : AgeSpec) : 0 ≤ spec.length := by
  cases spec <;> simp only [length, nanosecondsPerSecond] <;> omega

/-- Only a number of weeks can be too long. -/
theorem AgeSpec.length_lt_iff (spec : AgeSpec) :
    spec.length < 2 ^ 63 ↔ ∀ n, spec = .weeks n → n.toNat ≤ 15250 := by
  have hle : ∀ n : UInt16, n.toNat < 65536 := fun n => n.toNat_lt
  cases spec with
  | seconds n | minutes n | hours n | days n =>
    have := hle n
    refine iff_of_true ?_ fun m hm => AgeSpec.noConfusion hm
    simp only [length, nanosecondsPerSecond]
    omega
  | weeks n =>
    simp only [length, nanosecondsPerSecond]
    constructor
    · intro h m hm
      cases hm
      omega
    · intro h
      have := h n rfl
      omega

theorem AgeSpec.threshold_eq {spec : AgeSpec} {now : Int} (h0 : 0 ≤ now) (h1 : now < 2 ^ 63)
    (h : spec.length < 2 ^ 63) : wrap64 (now - spec.nanoseconds) = now - spec.length := by
  have hpos := spec.length_nonneg
  have hfits : Fits64 spec.length := ⟨by omega, h⟩
  have hdiff : Fits64 (now - spec.length) := ⟨by omega, by omega⟩
  rw [nanoseconds_eq, wrap64_of_fits hfits, wrap64_of_fits hdiff]

theorem matches_age (spec : AgeSpec) (now : TimePoint) : ∃ filter,
    purgeFilter ⟨.any, none, some (some spec)⟩ now = .ok filter ∧
      ∀ k e, filter.matches k e = decide (e.lastChanged < wrap64 (now - spec.nanoseconds)) :=
  ⟨_, rfl, fun k e => by simp [AlarmFilter.matches, ClearanceStatus.check]⟩

/-- The age criterion is right for every age but the numbers of weeks beyond 15250. -/
theorem ageRight_iff (spec : AgeSpec) (now : Int) (h0 : 0 ≤ now) (h1 : now < 2 ^ 63) :
    AgeRight spec now ↔ ∀ n, spec = .weeks n → n.toNat ≤ 15250 := by
  rw [← AgeSpec.length_lt_iff]
  constructor
  · rintro ⟨-, hfits⟩
    have hmem : spec.length ∈ spec.intermediates now := by
      cases spec <;> simp [AgeSpec.intermediates]
    exact (hfits _ hmem).2
  · intro h
    have hpos := spec.length_nonneg
    obtain ⟨filter, hfilter, hmatches⟩ := matches_age spec now
    refine ⟨⟨filter, hfilter, fun k e => ?_⟩, fun x hx => ?_⟩
    · rw [hmatches, AgeSpec.threshold_eq h0 h1 h, decide_eq_true_iff]
      exact ⟨Int.add_lt_of_lt_sub_right, Int.lt_sub_right_of_add_lt⟩
    · have hcases : x = spec.length ∨ x = now - spec.length ∨ ∃ n : UInt16, x = 7 * n.toNat := by
        cases spec with
        | weeks n =>
          simp only [AgeSpec.intermediates, List.mem_cons, List.not_mem_nil, or_false] at hx
          rcases hx with rfl | rfl | rfl
          · exact .inr (.inr ⟨n, rfl⟩)
          · exact .inl rfl
          · exact .inr (.inl rfl)
        | _ =>
          simp only [AgeSpec.intermediates, List.mem_cons, List.not_mem_nil, or_false] at hx
          rcases hx with rfl | rfl
          · exact .inl rfl
          · exact .inr (.inl rfl)
      unfold Fits64
      rcases hcases with rfl | rfl | ⟨n, rfl⟩
      · omega
      · omega
      · have := n.toNat_lt
        omega

theorem ageRight_two_weeks : AgeRight (.weeks 2) 1700000000000000000 :=
  (ageRight_iff _ _ (by decide) (by decide)).2 fun n hn => by
    cases hn
    decide

/-- By the age of 20000 weeks, an alarm that changes right now is older. -/
theorem not_ageRight_centuries : ¬ ∀ (spec : AgeSpec) (now : Int), 0 ≤ now → now < 2 ^ 63 → AgeRight spec now := by
  intro hall
  obtain ⟨⟨filter, hfilter, hmatches⟩, -⟩ := hall (.weeks 20000) 1700000000000000000 (by decide) (by decide)
  obtain ⟨filter', hfilter', hmatches'⟩ := matches_age (.weeks 20000) 1700000000000000000
  obtain rfl := Except.ok.inj (hfilter.symm.trans hfilter')
  let e : AlarmEntry := { AlarmEntry.new with lastChanged := 1700000000000000000 }
  have hold := (hmatches ⟨⟨⟨"", fun c hc => by cases hc⟩, ""⟩, ""⟩ e).1 (by rw [hmatches']; decide)
  revert hold
  decide

/-! ### Compressing -/

structure CompressInput where
  resource : Option String
  alarmTypeId : Option String
  alarmTypeQualifier : Option String
deriving DecidableEq, Repr

def compressFilter (filterInput : CompressInput) : AlarmFilter :=
  ⟨(filterInput.resource.map fun resource key _ => key.resource == resource).toList ++
    (filterInput.alarmTypeId.map fun alarmTypeId key _ => key.type.id.text == alarmTypeId).toList ++
    (filterInput.alarmTypeQualifier.map fun qualifier key _ => key.type.qualifier == qualifier).toList⟩

end IetfAlarms

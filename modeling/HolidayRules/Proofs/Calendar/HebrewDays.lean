import Mathlib.Data.Int.ConditionallyCompleteOrder
import Mathlib.Data.List.Basic
import Mathlib.Order.ConditionallyCompleteLattice.Basic
import HolidayRules.Proofs.Calendar.HebrewYears

set_option autoImplicit false

/-!
# The days of the Hebrew calendar

The months of a year take up consecutive days and together as many as the year has. So the days of all
years are numbered without a gap, each number belongs to one day, and the numbers grow with year, month
and day.
-/
namespace HolidayRules.Hebrew

structure Day where
  year : Int
  month : Month
  day : Nat
  month_mem : month ∈ months year
  day_bounds : 1 ≤ day ∧ day ≤ monthLength year month

def Day.number (d : Day) : Int := Hebrew.number d.year d.month d.day

def place (year : Int) (month : Month) : Nat := (months year).idxOf month

def consecutive (start : Int) (count : Nat) : List Int :=
  (List.range count).map fun (k : Nat) => start + k

def monthNumbers (year : Int) (month : Month) : List Int :=
  (List.range' 1 (monthLength year month)).map (number year month)

theorem mem_consecutive {start n : Int} {count : Nat} :
    n ∈ consecutive start count ↔ start ≤ n ∧ n < start + count := by
  unfold consecutive
  rw [List.mem_map]
  constructor
  · rintro ⟨k, hk, rfl⟩
    rw [List.mem_range] at hk
    omega
  · intro h
    exact ⟨(n - start).toNat, List.mem_range.2 (by omega), by omega⟩

theorem consecutive_add (start : Int) (m n : Nat) :
    consecutive start (m + n) = consecutive start m ++ consecutive (start + m) n := by
  unfold consecutive
  rw [List.range_add, List.map_append, List.map_map]
  congr 1
  apply List.map_congr_left
  intro k _
  simp only [Function.comp_apply]
  omega

theorem nodup_months (year : Int) : (months year).Nodup := by
  unfold months monthsToAdar
  cases isLeap year <;> decide

theorem daysOf_append (year : Int) (a b : List Month) :
    daysOf year (a ++ b) = daysOf year a + daysOf year b := by
  induction a with
  | nil => simp [daysOf]
  | cons month a ih =>
    rw [List.cons_append, daysOf, daysOf, ih]
    omega

theorem daysOf_le_of_prefix {year : Int} {a b : List Month} (h : a <+: b) :
    daysOf year a ≤ daysOf year b := by
  obtain ⟨rest, rfl⟩ := h
  rw [daysOf_append]
  omega

theorem daysOf_months (year : Int) : (daysOf year (months year) : Int) = yearLength year := by
  cases hl : isLeap year with
  | false =>
    have hy := yearLength_of_common hl
    have h : yearLength year = 353 ∨ yearLength year = 354 ∨ yearLength year = 355 := by omega
    rcases h with h | h | h <;> simp [months, monthsToAdar, monthsFromNisan, daysOf, monthLength, isShort, hl, h]
  | true =>
    have hy := yearLength_of_leap hl
    have h : yearLength year = 383 ∨ yearLength year = 384 ∨ yearLength year = 385 := by omega
    rcases h with h | h | h <;> simp [months, monthsToAdar, monthsFromNisan, daysOf, monthLength, isShort, hl, h]

theorem takeWhile_ne (list : List Month) (month : Month) :
    list.takeWhile (· ≠ month) = list.take (list.idxOf month) := by
  have htest : (fun other : Month => !decide (other ≠ month)) = (· == month) := by
    funext other
    by_cases h : other = month <;> simp [h]
  unfold List.idxOf
  rw [List.takeWhile_eq_take_findIdx_not, htest]

/-- Both parts of the sum follow the order of the year. -/
theorem daysBeforeMonth_eq {year : Int} {month : Month} (h : month ∈ months year) :
    daysBeforeMonth year month = daysOf year ((months year).take (place year month)) := by
  unfold daysBeforeMonth place months
  rw [takeWhile_ne, takeWhile_ne]
  split
  next hnisan =>
    have hadar : month ∉ monthsToAdar year := fun hadar =>
      (List.nodup_append.1 (nodup_months year)).2.2 month hadar month hnisan rfl
    rw [List.idxOf_append_of_notMem hadar, List.take_length_add_append]
  next hnisan =>
    have hadar : month ∈ monthsToAdar year := (List.mem_append.1 h).resolve_right hnisan
    rw [List.idxOf_append_of_mem hadar,
      List.take_append_of_le_length (Nat.le_of_lt (List.idxOf_lt_length_of_mem hadar))]

theorem place_lt {year : Int} {month : Month} (h : month ∈ months year) :
    place year month < (months year).length :=
  List.idxOf_lt_length_of_mem h

theorem getElem_place {year : Int} {month : Month} (h : month ∈ months year) :
    (months year)[place year month]? = some month := by
  rw [List.getElem?_eq_getElem (place_lt h)]
  exact congrArg some (List.getElem_idxOf (place_lt h))

theorem place_injective {year : Int} {month other : Month} (h : month ∈ months year)
    (h' : other ∈ months year) (heq : place year month = place year other) : month = other := by
  have hget := getElem_place h
  rw [heq, getElem_place h'] at hget
  exact (Option.some.inj hget).symm

theorem take_place_succ {year : Int} {month : Month} (h : month ∈ months year) :
    (months year).take (place year month + 1) =
      (months year).take (place year month) ++ [month] := by
  rw [List.take_succ_eq_append_getElem (place_lt h)]
  congr 2
  exact List.getElem_idxOf (place_lt h)

theorem daysOf_take_succ {year : Int} {month : Month} (h : month ∈ months year) :
    daysOf year ((months year).take (place year month + 1)) =
      daysBeforeMonth year month + monthLength year month := by
  rw [take_place_succ h, daysOf_append, daysBeforeMonth_eq h]
  rfl

theorem daysBeforeMonth_of_place_lt {year : Int} {month later : Month} (h : month ∈ months year)
    (h' : later ∈ months year) (hlt : place year month < place year later) :
    daysBeforeMonth year month + monthLength year month ≤ daysBeforeMonth year later := by
  rw [← daysOf_take_succ h, daysBeforeMonth_eq h']
  exact daysOf_le_of_prefix (List.take_prefix_take_left (by omega))

theorem daysBeforeMonth_le {year : Int} {month : Month} (h : month ∈ months year) :
    (daysBeforeMonth year month + monthLength year month : Int) ≤ yearLength year := by
  have hle : daysOf year ((months year).take (place year month + 1)) ≤ daysOf year (months year) :=
    daysOf_le_of_prefix (List.take_prefix _ _)
  rw [daysOf_take_succ h] at hle
  rw [← daysOf_months]
  omega

namespace Day

theorem number_bounds (d : Day) :
    yearStart d.year ≤ d.number ∧ d.number < yearStart (d.year + 1) := by
  have hlen := daysBeforeMonth_le d.month_mem
  have hday := d.day_bounds
  unfold number Hebrew.number
  unfold yearLength at hlen
  omega

end Day

theorem yearStart_lt_succ (year : Int) : yearStart year < yearStart (year + 1) := by
  have hl : 353 ≤ yearLength year := by
    cases h : isLeap year with
    | false => exact (yearLength_of_common h).1
    | true => exact Int.le_trans (by decide) (yearLength_of_leap h).1
  unfold yearLength at hl
  omega

theorem yearStart_strictMono : StrictMono yearStart := strictMono_int_of_lt_succ yearStart_lt_succ

namespace Day

def Before (d e : Day) : Prop :=
  d.year < e.year ∨ d.year = e.year ∧
    (place d.year d.month < place d.year e.month ∨ d.month = e.month ∧ d.day < e.day)

theorem number_lt_of_before {d e : Day} (h : d.Before e) : d.number < e.number := by
  have hd := d.number_bounds
  have he := e.number_bounds
  rcases h with hyear | ⟨hyear, hplace | ⟨hmonth, hday⟩⟩
  · have := yearStart_strictMono.monotone (show d.year + 1 ≤ e.year by omega)
    omega
  · have hmonth := daysBeforeMonth_of_place_lt d.month_mem (hyear ▸ e.month_mem) hplace
    have := d.day_bounds
    have := e.day_bounds
    unfold number Hebrew.number
    rw [← hyear]
    omega
  · unfold number Hebrew.number
    rw [← hyear, ← hmonth]
    omega

theorem eq_or_before (d e : Day) : d = e ∨ d.Before e ∨ e.Before d := by
  obtain ⟨year, month, day, hm, hd⟩ := d
  obtain ⟨year', month', day', hm', hd'⟩ := e
  unfold Before
  dsimp only
  rcases Int.lt_trichotomy year year' with h | rfl | h
  · exact .inr (.inl (.inl h))
  · by_cases hmonth : month = month'
    · subst hmonth
      rcases Nat.lt_trichotomy day day' with h | rfl | h
      · exact .inr (.inl (.inr ⟨rfl, .inr ⟨rfl, h⟩⟩))
      · exact .inl rfl
      · exact .inr (.inr (.inr ⟨rfl, .inr ⟨rfl, h⟩⟩))
    · have hplace : place year month ≠ place year month' := fun h =>
        hmonth (place_injective hm hm' h)
      rcases Nat.lt_or_gt_of_ne hplace with h | h
      · exact .inr (.inl (.inr ⟨rfl, .inl h⟩))
      · exact .inr (.inr (.inr ⟨rfl, .inl h⟩))
  · exact .inr (.inr (.inl h))

theorem number_injective : Function.Injective Day.number := by
  intro d e h
  rcases eq_or_before d e with rfl | hlt | hlt
  · rfl
  · have := number_lt_of_before hlt
    omega
  · have := number_lt_of_before hlt
    omega

end Day

theorem monthNumbers_eq (year : Int) (month : Month) :
    monthNumbers year month =
      consecutive (yearStart year + daysBeforeMonth year month) (monthLength year month) := by
  unfold monthNumbers consecutive
  rw [List.range'_eq_map_range, List.map_map]
  apply List.map_congr_left
  intro k _
  simp only [Function.comp_apply, number]
  omega

theorem flatMap_take (year : Int) {k : Nat} (hk : k ≤ (months year).length) :
    ((months year).take k).flatMap (monthNumbers year) =
      consecutive (yearStart year) (daysOf year ((months year).take k)) := by
  induction k with
  | zero => rfl
  | succ k ih =>
    have hlt : k < (months year).length := hk
    have hmem : (months year)[k] ∈ months year := List.getElem_mem hlt
    have hplace : place year (months year)[k] = k := (nodup_months year).idxOf_getElem k hlt
    have hnumbers := monthNumbers_eq year (months year)[k]
    rw [daysBeforeMonth_eq hmem, hplace] at hnumbers
    rw [List.take_succ_eq_append_getElem hlt, List.flatMap_append, ih (Nat.le_of_succ_le hk),
      daysOf_append, consecutive_add, List.flatMap_singleton, hnumbers]
    rfl

theorem flatMap_months (year : Int) :
    (months year).flatMap (monthNumbers year) =
      consecutive (yearStart year) (daysOf year (months year)) := by
  have h := flatMap_take year (Nat.le_refl (months year).length)
  rwa [List.take_length] at h

theorem exists_day_of_year {year n : Int} (hl : yearStart year ≤ n)
    (hu : n < yearStart (year + 1)) : ∃ d : Day, d.year = year ∧ d.number = n := by
  have hlen := daysOf_months year
  unfold yearLength at hlen
  have hmem : n ∈ (months year).flatMap (monthNumbers year) := by
    rw [flatMap_months, mem_consecutive]
    omega
  obtain ⟨month, hmonth, hn⟩ := List.mem_flatMap.1 hmem
  obtain ⟨day, hday, hnum⟩ := List.mem_map.1 hn
  rw [List.mem_range'_1] at hday
  exact ⟨⟨year, month, day, hmonth, by omega⟩, rfl, hnum⟩

theorem exists_year {first n : Int} {count : Nat} (hl : yearStart first ≤ n)
    (hu : n < yearStart (first + count)) :
    ∃ year, (first ≤ year ∧ year < first + count) ∧
      yearStart year ≤ n ∧ n < yearStart (year + 1) := by
  induction count with
  | zero =>
    rw [Int.natCast_zero, Int.add_zero] at hu
    omega
  | succ count ih =>
    by_cases h : n < yearStart (first + count)
    · obtain ⟨year, hyear, hn⟩ := ih h
      exact ⟨year, by omega, hn⟩
    · exact ⟨first + count, by omega, by omega, by rwa [Int.add_assoc]⟩

theorem bijOn_number (first last : Int) :
    Set.BijOn Day.number {d | first ≤ d.year ∧ d.year ≤ last}
      (Set.Ico (yearStart first) (yearStart (last + 1))) := by
  refine ⟨?_, Day.number_injective.injOn, ?_⟩
  · rintro d ⟨hfirst, hlast⟩
    have hd := d.number_bounds
    have := yearStart_strictMono.monotone hfirst
    have := yearStart_strictMono.monotone (show d.year + 1 ≤ last + 1 by omega)
    exact ⟨by omega, by omega⟩
  · rintro n ⟨hl, hu⟩
    have hlt : first < last + 1 := yearStart_strictMono.lt_iff_lt.1 (Int.lt_of_le_of_lt hl hu)
    obtain ⟨count, hcount⟩ := Int.eq_ofNat_of_zero_le (show 0 ≤ last + 1 - first by omega)
    rw [show last + 1 = first + count by omega] at hu
    obtain ⟨year, hyear, hn⟩ := exists_year hl hu
    obtain ⟨d, rfl, hd⟩ := exists_day_of_year hn.1 hn.2
    exact ⟨d, ⟨hyear.1, by omega⟩, hd⟩

/-! ## Months by their numbers -/

theorem eraseDups_monthOfNumber? (year : Int) :
    ((List.range' 1 13).filterMap (monthOfNumber? year)).eraseDups = months year := by
  cases h : isLeap year <;>
    simp [months, monthsToAdar, monthsFromNisan, monthOfNumber?, List.range', h] <;> decide

theorem place_of_monthOfNumber? {year : Int} {k : Nat} {month : Month}
    (h : monthOfNumber? year k = some month) :
    month ∈ months year ∧ 1 ≤ k ∧
      place year month = if isLeap year = true ∨ k ≤ 6 then k - 1 else k - 2 := by
  unfold monthOfNumber? at h
  split at h <;> cases h <;> cases hl : isLeap year <;>
    simp only [months, monthsToAdar, place, hl] <;> decide

theorem date?_eq_some_iff {year : Int} {k day : Nat} {e : Date} :
    date? year k day = some e ↔ ∃ month, monthOfNumber? year k = some month ∧
      (1 ≤ day ∧ day ≤ monthLength year month) ∧ e.number = number year month day := by
  unfold date?
  simp only [bind, Option.bind_eq_some_iff]
  constructor
  · rintro ⟨month, hmonth, h⟩
    split at h
    · cases h
    · exact ⟨month, hmonth, by omega, Date.number_of_ofNumber? h⟩
  · rintro ⟨month, hmonth, hday, h⟩
    refine ⟨month, hmonth, ?_⟩
    rw [if_neg (by omega)]
    exact Date.ofNumber?_eq_some_iff.2 h

theorem date?_seven_of_common {year : Int} (h : isLeap year = false) (day : Nat) :
    date? year 7 day = date? year 6 day := by
  unfold date? monthOfNumber?
  rw [h]
  rfl

theorem exists_day_of_date? {year : Int} {k day : Nat} {e : Date} (h : date? year k day = some e) :
    ∃ d : Day, monthOfNumber? year k = some d.month ∧ d.year = year ∧ d.day = day ∧
      d.number = e.number := by
  obtain ⟨month, hmonth, hday, hn⟩ := date?_eq_some_iff.1 h
  exact ⟨⟨year, month, day, (place_of_monthOfNumber? hmonth).1, hday⟩, hmonth, rfl, rfl, hn.symm⟩

theorem number_lt_of_date? {year year' : Int} {k k' day day' : Nat} {e e' : Date}
    (h : date? year k day = some e) (h' : date? year' k' day' = some e')
    (hlt : year < year' ∨ year = year' ∧
      (k < k' ∧ ¬ (isLeap year = false ∧ k = 6 ∧ k' = 7) ∨ k = k' ∧ day < day')) :
    e.number < e'.number := by
  obtain ⟨d, hmonth, rfl, rfl, hn⟩ := exists_day_of_date? h
  obtain ⟨d', hmonth', rfl, rfl, hn'⟩ := exists_day_of_date? h'
  rw [← hn, ← hn']
  apply Day.number_lt_of_before
  rcases hlt with hyear | ⟨hyear, ⟨hk, halias⟩ | ⟨rfl, hday⟩⟩
  · exact .inl hyear
  · rw [← hyear] at hmonth'
    obtain ⟨-, hpos, hplace⟩ := place_of_monthOfNumber? hmonth
    obtain ⟨-, -, hplace'⟩ := place_of_monthOfNumber? hmonth'
    refine .inr ⟨hyear, .inl ?_⟩
    rw [hplace, hplace']
    cases hl : isLeap d.year with
    | false =>
      -- From 7 on the numbers of a common year are one ahead, so that 6 and 7 share a place.
      simp only [hl, true_and] at halias
      simp only [Bool.false_eq_true, false_or]
      split <;> split <;> omega
    | true =>
      simp only [true_or, if_true]
      omega
  · rw [← hyear, hmonth] at hmonth'
    exact .inr ⟨hyear, .inr ⟨Option.some.inj hmonth', hday⟩⟩

/-- The days of the years from one to another have the numbers from the first of these years to the
last, each number once. Month by month the days of a year have consecutive numbers, and so the dates
grow with year, number of the month and day. -/
theorem number_enumerates_days :
    (∀ first last : Int,
      Set.BijOn Day.number {d | first ≤ d.year ∧ d.year ≤ last}
        (Set.Ico (yearStart first) (yearStart (last + 1)))) ∧
    (∀ year : Int,
      ((List.range' 1 13).filterMap (monthOfNumber? year)).eraseDups = months year ∧
      ((months year).flatMap fun month =>
          (List.range' 1 (monthLength year month)).map (number year month)) =
        (List.range (yearLength year).toNat).map fun (k : Nat) => yearStart year + k) ∧
    (∀ (year : Int) (day : Nat), isLeap year = false → date? year 7 day = date? year 6 day) ∧
    ∀ (year year' : Int) (k k' day day' : Nat) (e e' : Date),
      date? year k day = some e → date? year' k' day' = some e' →
      (year < year' ∨ year = year' ∧
        (k < k' ∧ ¬ (isLeap year = false ∧ k = 6 ∧ k' = 7) ∨ k = k' ∧ day < day')) →
      e.number < e'.number := by
  refine ⟨bijOn_number, fun year => ⟨eraseDups_monthOfNumber? year, ?_⟩,
    fun year day h => date?_seven_of_common h day,
    fun year year' k k' day day' e e' h h' hlt => number_lt_of_date? h h' hlt⟩
  rw [← daysOf_months]
  exact flatMap_months year

/-- The year 5779 has an Adar before its Adar II, and in 5778 both numbers name the one Adar. -/
theorem date?_fourteenth_of_adar :
    date? 5779 6 14 = some ⟨⟨2019, 2, 19⟩, by decide⟩ ∧
      date? 5779 7 14 = some ⟨⟨2019, 3, 21⟩, by decide⟩ ∧
      (⟨⟨2019, 2, 19⟩, by decide⟩ : Date).number < (⟨⟨2019, 3, 21⟩, by decide⟩ : Date).number ∧
      date? 5778 7 14 = date? 5778 6 14 := by
  have hadar : date? 5779 6 14 = some ⟨⟨2019, 2, 19⟩, by decide⟩ := by decide
  have hadarII : date? 5779 7 14 = some ⟨⟨2019, 3, 21⟩, by decide⟩ := by decide
  obtain ⟨-, -, hcommon, hgrow⟩ := number_enumerates_days
  exact ⟨hadar, hadarII, hgrow 5779 5779 6 7 14 14 _ _ hadar hadarII (by decide),
    hcommon 5778 14 (by decide)⟩

end HolidayRules.Hebrew

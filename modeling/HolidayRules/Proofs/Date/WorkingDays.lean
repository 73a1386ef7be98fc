import HolidayRules.Phrase.Adjustment
import HolidayRules.Proofs.Phrase.Offsets

set_option autoImplicit false

/-!
# Counting working days day by day

A walk goes on day by day until it has met so many working days, whether or not the days on its way are
in the supported years. Every seven days it meets five of them, so that whole weeks can be taken at
once after the first few days. A walk keeps its direction: where its last day is in the supported years
no day before it leaves them.
-/
namespace HolidayRules

def IsWorkingDay (n : Int) : Prop := (Weekday.ofNumber n).isWeekend = false

/-- From day `n` in steps of `step` days until `count` working days were met, of which `m` is the
last. -/
inductive Walk (step : Int) : Nat → Int → Int → Prop where
  | stop (n : Int) : Walk step 0 n n
  | working {count : Nat} {n m : Int} (h : IsWorkingDay (n + step))
      (rest : Walk step count (n + step) m) : Walk step (count + 1) n m
  | weekend {count : Nat} {n m : Int} (h : ¬ IsWorkingDay (n + step))
      (rest : Walk step (count + 1) (n + step) m) : Walk step (count + 1) n m

def IsDayStep (step : Int) : Prop := step = 1 ∨ step = -1

theorem isDayStep_sign {days : Int} (h : days ≠ 0) : IsDayStep days.sign := by
  rcases Int.lt_or_gt_of_ne h with hneg | hpos
  · exact .inr (Int.sign_eq_neg_one_of_neg hneg)
  · exact .inl (Int.sign_eq_one_of_pos hpos)

theorem isWorkingDay_iff {n : Int} : IsWorkingDay n ↔ (n - 1) % 7 < 5 := by
  have hindex := Weekday.index_ofNumber n
  unfold IsWorkingDay
  cases hday : Weekday.ofNumber n <;> rw [hday] at hindex <;> simp [Weekday.isWeekend] <;>
    simp only [Weekday.index] at hindex <;> omega

theorem isWorkingDay_add_weeks (n k : Int) : IsWorkingDay (n + k * 7) ↔ IsWorkingDay n := by
  unfold IsWorkingDay
  rw [Weekday.ofNumber_add_weeks]

namespace Walk

variable {step n m k : Int} {count more : Nat}

theorem unique (h : Walk step count n m) (h' : Walk step count n k) : m = k := by
  induction h with
  | stop => cases h'; rfl
  | working hday _ ih =>
    cases h' with
    | working _ rest => exact ih rest
    | weekend hday' _ => exact absurd hday hday'
  | weekend hday _ ih =>
    cases h' with
    | working hday' _ => exact absurd hday' hday
    | weekend _ rest => exact ih rest

theorem weekend_iff (h : ¬ IsWorkingDay (n + step)) :
    Walk step (count + 1) (n + step) m ↔ Walk step (count + 1) n m := by
  constructor
  · exact .weekend h
  · intro hwalk
    cases hwalk with
    | working hday _ => exact absurd hday h
    | weekend _ rest => exact rest

theorem trans (h : Walk step count n m) (h' : Walk step more m k) :
    Walk step (count + more) n k := by
  induction h with
  | stop => rwa [Nat.zero_add]
  | working hday _ ih =>
    rw [Nat.succ_add]
    exact .working hday (ih h')
  | weekend hday _ ih =>
    rw [Nat.succ_add] at ih ⊢
    exact .weekend hday (ih h')

theorem exists_steps (h : Walk step count n m) : ∃ k : Nat, m = n + k * step := by
  induction h with
  | stop n => exact ⟨0, by simp⟩
  | working _ _ ih | weekend _ _ ih =>
    obtain ⟨k, hk⟩ := ih
    refine ⟨k + 1, ?_⟩
    rw [hk, Int.natCast_succ, Int.add_mul, Int.one_mul]
    omega

theorem isWorkingDay (h : Walk step (count + 1) n m) : IsWorkingDay m := by
  generalize hc : count + 1 = total at h
  induction h generalizing count with
  | stop => cases hc
  | @working count' n m hday rest ih =>
    cases count' with
    | zero =>
      cases rest
      exact hday
    | succ => exact ih rfl
  | weekend _ _ ih => exact ih hc

theorem exists_of_isWorkingDay {steps : Nat} (h : IsWorkingDay (n + (steps + 1 : Nat) * step)) :
    ∃ count, Walk step (count + 1) n (n + (steps + 1 : Nat) * step) := by
  induction steps generalizing n with
  | zero =>
    rw [Nat.zero_add, Int.natCast_one, Int.one_mul] at h ⊢
    exact ⟨0, .working h (.stop _)⟩
  | succ steps ih =>
    have hshift : n + (steps + 1 + 1 : Nat) * step = n + step + (steps + 1 : Nat) * step := by
      rw [Int.natCast_succ (steps + 1), Int.add_mul, Int.one_mul]
      omega
    rw [hshift] at h ⊢
    obtain ⟨count, hrest⟩ := ih h
    by_cases hday : IsWorkingDay (n + step)
    · exact ⟨count + 1, .working hday hrest⟩
    · exact ⟨count, .weekend hday hrest⟩

end Walk

/-! ## Whole weeks -/

/-- The working days from a fixed Monday on, of which each full week has five. -/
def workingDaysUpTo (n : Int) : Int := 5 * ((n - 1) / 7) + min ((n - 1) % 7 + 1) 5

theorem workingDaysUpTo_of_working {n : Int} (h : IsWorkingDay n) :
    workingDaysUpTo n = workingDaysUpTo (n - 1) + 1 := by
  rw [isWorkingDay_iff] at h
  unfold workingDaysUpTo
  omega

theorem workingDaysUpTo_of_weekend {n : Int} (h : ¬ IsWorkingDay n) :
    workingDaysUpTo n = workingDaysUpTo (n - 1) := by
  rw [isWorkingDay_iff] at h
  unfold workingDaysUpTo
  omega

theorem workingDaysUpTo_add_week (n : Int) : workingDaysUpTo (n + 7) = workingDaysUpTo n + 5 := by
  unfold workingDaysUpTo
  omega

namespace Walk

variable {step n m k : Int} {count more : Nat}

theorem count_forwards (h : Walk 1 count n m) : workingDaysUpTo m = workingDaysUpTo n + count := by
  induction h with
  | stop => simp
  | @working count n m hday _ ih =>
    have hnext := workingDaysUpTo_of_working hday
    rw [Int.add_sub_cancel] at hnext
    omega
  | @weekend count n m hday _ ih =>
    have hnext := workingDaysUpTo_of_weekend hday
    rw [Int.add_sub_cancel] at hnext
    omega

theorem count_backwards (h : Walk (-1) count n m) :
    workingDaysUpTo (m - 1) + count = workingDaysUpTo (n - 1) := by
  induction h with
  | stop => simp
  | @working count n m hday _ ih =>
    have hnext := workingDaysUpTo_of_working hday
    rw [← Int.sub_eq_add_neg] at hnext ih
    omega
  | @weekend count n m hday _ ih =>
    have hnext := workingDaysUpTo_of_weekend hday
    rw [← Int.sub_eq_add_neg] at hnext ih
    omega

theorem week (hs : IsDayStep step) (h : IsWorkingDay n) : Walk step 5 n (n + 7 * step) := by
  have hday : IsWorkingDay (n + (6 + 1 : Nat) * step) := by
    rw [← isWorkingDay_add_weeks n step, Int.mul_comm] at h
    exact h
  obtain ⟨count, hwalk⟩ := exists_of_isWorkingDay hday
  have hcount : count + 1 = 5 := by
    rcases hs with rfl | rfl
    · have hforwards := hwalk.count_forwards
      rw [show n + (6 + 1 : Nat) * 1 = n + 7 by omega, workingDaysUpTo_add_week] at hforwards
      omega
    · have hbackwards := hwalk.count_backwards
      have hweek := workingDaysUpTo_add_week (n - 1 - 7)
      rw [show n + (6 + 1 : Nat) * -1 - 1 = n - 1 - 7 by omega] at hbackwards
      rw [Int.sub_add_cancel] at hweek
      omega
  rw [hcount] at hwalk
  exact hwalk

theorem weeks (hs : IsDayStep step) (h : IsWorkingDay n) (weeks : Nat) :
    Walk step (weeks * 5) n (n + weeks * 7 * step) := by
  induction weeks generalizing n with
  | zero =>
    rw [show n + (0 : Nat) * 7 * step = n by simp, Nat.zero_mul]
    exact .stop n
  | succ weeks ih =>
    have hday : IsWorkingDay (n + 7 * step) := by
      rwa [Int.mul_comm, isWorkingDay_add_weeks]
    have hshift : n + (weeks + 1 : Nat) * 7 * step = n + 7 * step + weeks * 7 * step := by
      rw [Int.natCast_succ, Int.add_mul, Int.add_mul, Int.one_mul]
      omega
    rw [hshift, Nat.succ_mul, Nat.add_comm]
    exact (week hs h).trans (ih hday)

theorem exists_one (hs : IsDayStep step) (n : Int) : ∃ m, Walk step 1 n m := by
  by_cases hfirst : IsWorkingDay (n + step)
  · exact ⟨_, .working hfirst (.stop _)⟩
  by_cases hsecond : IsWorkingDay (n + step + step)
  · exact ⟨_, .weekend hfirst (.working hsecond (.stop _))⟩
  · have hthird : IsWorkingDay (n + step + step + step) := by
      rw [isWorkingDay_iff] at hfirst hsecond ⊢
      rcases hs with rfl | rfl <;> omega
    exact ⟨_, .weekend hfirst (.weekend hsecond (.working hthird (.stop _)))⟩

theorem exists_walk (hs : IsDayStep step) (count : Nat) (n : Int) : ∃ m, Walk step count n m := by
  induction count generalizing n with
  | zero => exact ⟨n, .stop n⟩
  | succ count ih =>
    obtain ⟨m, hfirst⟩ := exists_one hs n
    obtain ⟨k, hrest⟩ := ih m
    rw [Nat.add_comm]
    exact ⟨k, hfirst.trans hrest⟩

theorem exists_cut (hs : IsDayStep step) (h : Walk step (count + more) n m) :
    ∃ k, Walk step count n k ∧ Walk step more k m := by
  obtain ⟨k, hfirst⟩ := exists_walk hs count n
  obtain ⟨m', hrest⟩ := exists_walk hs more k
  obtain rfl := (hfirst.trans hrest).unique h
  exact ⟨k, hfirst, hrest⟩

end Walk

/-! ## Walks of dates -/

namespace Date

variable {step : Int} {count : Nat} {d e : Date}

theorem exists_between (d e : Date) {n : Int}
    (h : d.number ≤ n ∧ n ≤ e.number ∨ e.number ≤ n ∧ n ≤ d.number) : ∃ f : Date, f.number = n := by
  have hd := ofNumber?_isSome_iff.1 (Option.isSome_of_mem (ofNumber?_number d))
  have he := ofNumber?_isSome_iff.1 (Option.isSome_of_mem (ofNumber?_number e))
  have hn : (ofNumber? n).isSome := ofNumber?_isSome_iff.2 (by omega)
  obtain ⟨f, hf⟩ := Option.isSome_iff_exists.1 hn
  exact ⟨f, number_of_ofNumber? hf⟩

theorem exists_stop {n : Int} {j k : Nat} (hs : IsDayStep step) (hj : n = d.number + j * step)
    (hk : e.number = n + k * step) : ∃ f : Date, f.number = n := by
  rcases hs with rfl | rfl
  · exact exists_between d e (.inl ⟨by omega, by omega⟩)
  · exact exists_between d e (.inr ⟨by omega, by omega⟩)

theorem exists_cut {more : Nat} (hs : IsDayStep step)
    (h : Walk step (count + more) d.number e.number) :
    ∃ f : Date, Walk step count d.number f.number ∧ Walk step more f.number e.number := by
  obtain ⟨n, hfirst, hrest⟩ := h.exists_cut hs
  obtain ⟨j, hj⟩ := hfirst.exists_steps
  obtain ⟨k, hk⟩ := hrest.exists_steps
  obtain ⟨f, rfl⟩ := exists_stop hs hj hk
  exact ⟨f, hfirst, hrest⟩

theorem exists_next (hs : IsDayStep step) (h : Walk step (count + 1) d.number e.number) :
    ∃ f, d.daysLater? step = some f := by
  have hrest : ∃ k : Nat, e.number = d.number + step + k * step := by
    cases h with
    | working _ rest | weekend _ rest => exact rest.exists_steps
  obtain ⟨k, hk⟩ := hrest
  have hfirst : d.number + step = d.number + (1 : Nat) * step := by
    rw [Int.natCast_one, Int.one_mul]
  obtain ⟨f, hf⟩ := exists_stop hs hfirst hk
  exact ⟨f, daysLater?_eq_some_iff.2 hf⟩

/-- One step on, after which a weekend is left by what `leave` says. -/
theorem step_eq_some_iff (hs : IsDayStep step) {leave : Date → Option Date}
    (hleave : ∀ f : Date, f.number = d.number + step → ¬ IsWorkingDay f.number →
      (leave f = some e ↔ Walk step 1 f.number e.number)) :
    ((d.daysLater? step).bind fun f => if !f.weekday.isWeekend then some f else leave f) = some e ↔
      Walk step 1 d.number e.number := by
  have hstep (f : Date) (hf : f.number = d.number + step) :
      (if !f.weekday.isWeekend then some f else leave f) = some e ↔
        Walk step 1 d.number e.number := by
    by_cases hday : IsWorkingDay f.number
    · have hwalk : Walk step 1 d.number f.number := by
        rw [hf] at hday ⊢
        exact .working hday (.stop _)
      rw [show f.weekday.isWeekend = false from hday]
      simp only [Bool.not_false, if_true, Option.some.injEq]
      constructor
      · rintro rfl
        exact hwalk
      · exact fun h => eq_of_number_eq (hwalk.unique h)
    · have hweekend : f.weekday.isWeekend = true := Bool.not_eq_false _ ▸ hday
      simp only [hweekend, Bool.not_true, Bool.false_eq_true, if_false]
      rw [hleave f hf hday]
      rw [hf] at hday ⊢
      exact Walk.weekend_iff hday
  constructor
  · intro h
    obtain ⟨f, hf, h⟩ := Option.bind_eq_some_iff.1 h
    exact (hstep f (daysLater?_eq_some_iff.1 hf)).1 h
  · intro h
    obtain ⟨f, hf⟩ := exists_next hs h
    rw [hf, Option.bind_some]
    exact (hstep f (daysLater?_eq_some_iff.1 hf)).2 h

theorem workingDayAfter?_eq_some_iff (hs : IsDayStep step) :
    workingDayAfter? step d = some e ↔ Walk step 1 d.number e.number := by
  refine step_eq_some_iff hs fun first hfirst hday =>
    step_eq_some_iff hs fun second hsecond hday' => ?_
  have hthird : IsWorkingDay (second.number + step) := by
    rw [isWorkingDay_iff] at hday hday' ⊢
    rcases hs with rfl | rfl <;> omega
  have hwalk : Walk step 1 second.number (second.number + step) := .working hthird (.stop _)
  rw [daysLater?_eq_some_iff]
  constructor
  · intro h
    rwa [h]
  · exact fun h => h.unique hwalk

theorem workingDaysAfter?_eq_some_iff (hs : IsDayStep step) :
    workingDaysAfter? step count d = some e ↔ Walk step count d.number e.number := by
  induction count generalizing d with
  | zero =>
    constructor
    · intro h
      cases h
      exact .stop _
    · intro h
      exact congrArg some (eq_of_number_eq (h.unique (.stop _)).symm)
  | succ count ih =>
    rw [workingDaysAfter?, Option.bind_eq_some_iff, Nat.add_comm]
    simp only [workingDayAfter?_eq_some_iff hs, ih]
    constructor
    · rintro ⟨f, hfirst, hrest⟩
      exact hfirst.trans hrest
    · exact exists_cut hs

theorem splitWorkingWeeks_eq {total : Nat} (h : total ≠ 0) :
    ∃ weeks days, splitWorkingWeeks total = (weeks, days + 1) ∧ total = days + 1 + weeks * 5 := by
  unfold splitWorkingWeeks
  split
  · exact ⟨total / 5 - 1, 4, rfl, by omega⟩
  · exact ⟨total / 5, total % 5 - 1, by congr 1; omega, by omega⟩

theorem workingDaysLater?_eq_some_iff {days : Int} (h : days ≠ 0) :
    d.workingDaysLater? days = some e ↔ Walk days.sign days.natAbs d.number e.number := by
  have hs := isDayStep_sign h
  obtain ⟨weeks, left, hsplit, htotal⟩ := splitWorkingWeeks_eq (Int.natAbs_ne_zero.2 h)
  unfold workingDaysLater?
  rw [if_neg h, hsplit, htotal]
  simp only [Option.bind_eq_some_iff, workingDaysAfter?_eq_some_iff hs, daysLater?_eq_some_iff]
  constructor
  · rintro ⟨f, hfirst, he⟩
    rw [he]
    exact hfirst.trans (Walk.weeks hs hfirst.isWorkingDay weeks)
  · intro h
    obtain ⟨f, hfirst, hrest⟩ := exists_cut hs h
    exact ⟨f, hfirst, hrest.unique (Walk.weeks hs hfirst.isWorkingDay weeks)⟩

end Date

theorem Phrase.apply_workingDays {days : Int} (h : inWord days = true) (d : Date) :
    Phrase.apply [.offset days .weekday] (some d) =
      (d.workingDaysLater? days).elim (.error .outOfRange) .ok := by
  have htotals : Adjustment.ofPhrase? [.offset days .weekday] =
      some ⟨.unnamed, [], ⟨0, 0, days⟩, none, none⟩ := by
    have hsum : Totals.addScaled? 0 days 1 = some days := by
      unfold Totals.addScaled?
      rw [Int.mul_one, Int.zero_add, h]
      rfl
    simp [Adjustment.ofPhrase?, Adjustment.add?, Adjustment.identity, Totals.add?, hsum]
  rw [Phrase.apply_of_offsets htotals, Date.monthsLater?_zero, Option.bind_some,
    Date.daysLater?_zero, Option.bind_some]

namespace Date

/-- Any number of working days from a date is the day at which going on day by day, forwards or back,
stops after so many of them. There is no other such day, and the one failure is that it is out of the
supported years. -/
theorem workingDaysLater?_walks (d : Date) {days : Int} (h : days ≠ 0) :
    ∃ m, (∀ n, Walk days.sign days.natAbs d.number n ↔ n = m) ∧
      d.workingDaysLater? days = ofNumber? m ∧
      (d.workingDaysLater? days = none ↔
        m ≤ daysBeforeYear minYear ∨ daysBeforeYear (maxYear + 1) < m) ∧
      (inWord days = true → Phrase.apply [.offset days .weekday] (some d) =
        (ofNumber? m).elim (.error .outOfRange) .ok) := by
  obtain ⟨m, hwalk⟩ := Walk.exists_walk (isDayStep_sign h) days.natAbs d.number
  have heq : d.workingDaysLater? days = ofNumber? m := by
    apply Option.ext
    intro e
    rw [workingDaysLater?_eq_some_iff h, ofNumber?_eq_some_iff]
    constructor
    · exact fun he => he.unique hwalk
    · rintro rfl
      exact hwalk
  refine ⟨m, fun n => ⟨fun hn => hn.unique hwalk, fun hn => hn ▸ hwalk⟩, heq, ?_, fun hword => ?_⟩
  · have hsome := @ofNumber?_isSome_iff m
    rw [heq, ← Option.not_isSome_iff_eq_none, hsome]
    omega
  · rw [Phrase.apply_workingDays hword, heq]

/-- Ten working days back from Sunday the sixth of May are the two weeks from the Monday before the
last. -/
theorem workingDaysLater?_before_sunday :
    (-10 : Int) ≠ 0 ∧
      Walk (-1) 10 (number ⟨⟨2018, 5, 6⟩, by decide⟩) (number ⟨⟨2018, 4, 23⟩, by decide⟩) ∧
      workingDaysLater? ⟨⟨2018, 5, 6⟩, by decide⟩ (-10) = some ⟨⟨2018, 4, 23⟩, by decide⟩ ∧
      Phrase.apply [.offset (-10) .weekday] (some ⟨⟨2018, 5, 6⟩, by decide⟩) =
        .ok ⟨⟨2018, 4, 23⟩, by decide⟩ := by
  have hdate : workingDaysLater? ⟨⟨2018, 5, 6⟩, by decide⟩ (-10) =
      some ⟨⟨2018, 4, 23⟩, by decide⟩ := by decide +kernel
  obtain ⟨m, hwalk, heq, -, hphrase⟩ :=
    workingDaysLater?_walks ⟨⟨2018, 5, 6⟩, by decide⟩ (show (-10 : Int) ≠ 0 by decide)
  rw [hdate] at heq
  have hm := number_of_ofNumber? heq.symm
  have happly := hphrase (by decide)
  rw [← heq] at happly
  exact ⟨by decide, (hwalk _).2 hm, hdate, happly⟩

end Date
end HolidayRules

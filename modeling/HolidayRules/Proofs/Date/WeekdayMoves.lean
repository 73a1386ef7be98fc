import HolidayRules.Proofs.Date.WorkingDays

set_option autoImplicit false

/-!
# Moves to a weekday

A move leads to the nearest date with its weekday on one side of the date that it starts from. It
fails only if the supported years have no such date.
-/
namespace HolidayRules

theorem ofNumber_add_wholeWeekIfZero (n : Int) (days : Nat) :
    Weekday.ofNumber (n + wholeWeekIfZero days) = Weekday.ofNumber (n + days) := by
  have hindex := Weekday.index_ofNumber (n + days)
  rw [Weekday.ofNumber_eq_iff]
  unfold wholeWeekIfZero
  split <;> omega

theorem ofNumber_sub_wholeWeekIfZero (n : Int) (days : Nat) :
    Weekday.ofNumber (n + -wholeWeekIfZero days) = Weekday.ofNumber (n - days) := by
  have hindex := Weekday.index_ofNumber (n - days)
  rw [Weekday.ofNumber_eq_iff]
  unfold wholeWeekIfZero
  split <;> omega

namespace Movement

/-- The side of a date on which a move looks for its weekday. -/
def Allows (movement : Movement) (start e : Date) : Prop :=
  match movement with
  | thisOrNext => start.number ≤ e.number
  | next => start.number < e.number
  | previous => e.number < start.number

def Leads (movement : Movement) (start : Date) (goal : Weekday) : Date → Prop :=
  match movement with
  | thisOrNext => Date.IsEarliest fun e => e.weekday = goal ∧ thisOrNext.Allows start e
  | next => Date.IsEarliest fun e => e.weekday = goal ∧ next.Allows start e
  | previous => Date.IsLatest fun e => e.weekday = goal ∧ previous.Allows start e

variable {movement : Movement} {x d e f : Date} {goal : Weekday}

theorem Leads.goal_and_allows (h : movement.Leads x goal e) :
    e.weekday = goal ∧ movement.Allows x e := by
  cases movement with
  | thisOrNext | next | previous => exact h.1

theorem Leads.unique (hd : movement.Leads x goal d) (he : movement.Leads x goal e) : d = e := by
  cases movement with
  | thisOrNext | next => exact Date.eq_of_number_eq (Int.le_antisymm (hd.2 e he.1) (he.2 d hd.1))
  | previous => exact Date.eq_of_number_eq (Int.le_antisymm (he.2 d hd.1) (hd.2 e he.1))

theorem ofNumber_distance (movement : Movement) (x : Date) (goal : Weekday) :
    Weekday.ofNumber (x.number + movement.distance x.weekday goal) = goal := by
  cases movement with
  | thisOrNext => exact Weekday.ofNumber_add_daysUntil x.number goal
  | next =>
    exact (ofNumber_add_wholeWeekIfZero x.number _).trans
      (Weekday.ofNumber_add_daysUntil x.number goal)
  | previous =>
    exact (ofNumber_sub_wholeWeekIfZero x.number _).trans
      (Weekday.ofNumber_sub_daysUntil x.number goal)

/-- Counted from its start, the first of the seven days to which a move may lead. -/
def firstDay : Movement → Int
  | thisOrNext => 0
  | next => 1
  | previous => -7

theorem distance_bounds (movement : Movement) (start goal : Weekday) :
    movement.firstDay ≤ movement.distance start goal ∧
      movement.distance start goal < movement.firstDay + 7 := by
  have hforwards := Weekday.daysUntil_lt start goal
  have hback := Weekday.daysUntil_lt goal start
  unfold firstDay distance wholeWeekIfZero
  cases movement with
  | thisOrNext =>
    dsimp only
    omega
  | next | previous =>
    dsimp only
    split <;> omega

theorem allows_of_number_eq (h : e.number = x.number + movement.distance x.weekday goal) :
    movement.Allows x e := by
  obtain ⟨hlow, hhigh⟩ := distance_bounds movement x.weekday goal
  unfold Allows
  unfold firstDay at hlow hhigh
  cases movement with
  | thisOrNext | next | previous =>
    dsimp only at hlow hhigh ⊢
    omega

theorem distance_between (hf : f.weekday = goal) (hside : movement.Allows x f) :
    x.number ≤ x.number + movement.distance x.weekday goal ∧
        x.number + movement.distance x.weekday goal ≤ f.number ∨
      f.number ≤ x.number + movement.distance x.weekday goal ∧
        x.number + movement.distance x.weekday goal ≤ x.number := by
  obtain ⟨hlow, hhigh⟩ := distance_bounds movement x.weekday goal
  have hsame := hf.trans (ofNumber_distance movement x goal).symm
  have hnear := @Weekday.eq_of_ofNumber_eq f.number _ hsame
  unfold Allows at hside
  unfold firstDay at hlow hhigh
  cases movement with
  | thisOrNext | next | previous =>
    dsimp only at hside hlow hhigh
    omega

end Movement

namespace Date

variable {movement : Movement} {x e : Date} {goal : Weekday}

theorem leads_of_toWeekday? (h : x.toWeekday? movement goal = some e) :
    movement.Leads x goal e := by
  have hnumber := daysLater?_eq_some_iff.1 h
  have hgoal : e.weekday = goal := by
    rw [weekday, hnumber, Movement.ofNumber_distance]
  have hbetween {f : Date} := @Movement.distance_between movement x f goal
  rw [← hnumber] at hbetween
  have hside := Movement.allows_of_number_eq hnumber
  unfold Movement.Allows at hside
  cases movement with
  | thisOrNext | next | previous =>
    refine ⟨⟨hgoal, hside⟩, fun f hf => ?_⟩
    have hwhere := hbetween hf.1 hf.2
    obtain ⟨-, hallows⟩ := hf
    unfold Movement.Allows at hallows
    dsimp only at hside hallows
    omega

theorem toWeekday?_eq_none_iff :
    x.toWeekday? movement goal = none ↔ ∀ f : Date, f.weekday = goal → ¬ movement.Allows x f := by
  constructor
  · intro h f hf hside
    obtain ⟨e, he⟩ := exists_between x f (Movement.distance_between hf hside)
    rw [toWeekday?, daysLater?_eq_some_iff.2 he] at h
    cases h
  · intro h
    rw [Option.eq_none_iff_forall_ne_some]
    intro e he
    obtain ⟨hgoal, hside⟩ := (leads_of_toWeekday? he).goal_and_allows
    exact h e hgoal hside

theorem toWeekday?_eq_some_iff : x.toWeekday? movement goal = some e ↔ movement.Leads x goal e := by
  constructor
  · exact leads_of_toWeekday?
  · intro h
    obtain ⟨hgoal, hside⟩ := h.goal_and_allows
    cases hmove : x.toWeekday? movement goal with
    | none => exact absurd hside (toWeekday?_eq_none_iff.1 hmove e hgoal)
    | some d => rw [(leads_of_toWeekday? hmove).unique h]

/-! ## Leaving the weekend -/

theorem exists_monday {f : Date} (hx : x.weekday.isWeekend = true)
    (hf : f.weekday.isWeekend = false) (hle : x.number ≤ f.number) :
    ∃ m : Date, m.weekday = .monday ∧ x.number < m.number ∧ m.number ≤ f.number := by
  have hrest : ¬ (x.number - 1) % 7 < 5 := by
    rw [← isWorkingDay_iff, IsWorkingDay, Bool.not_eq_false]
    exact hx
  have hwork : (f.number - 1) % 7 < 5 := isWorkingDay_iff.1 hf
  obtain ⟨m, hm⟩ := exists_between x f (n := f.number - (f.number - 1) % 7) (.inl (by omega))
  refine ⟨m, Weekday.ofNumber_eq_iff.2 ?_, by omega, by omega⟩
  change _ = ((0 : Nat) : Int)
  omega

theorem leads_to_monday_iff (hx : x.weekday.isWeekend = true) :
    Movement.next.Leads x .monday e ↔
      IsEarliest (fun f => f.weekday.isWeekend = false ∧ x.number ≤ f.number) e := by
  have hmonday {f : Date} (h : f.weekday = .monday ∧ x.number < f.number) :
      f.weekday.isWeekend = false ∧ x.number ≤ f.number := by
    rw [h.1]
    exact ⟨rfl, Int.le_of_lt h.2⟩
  constructor
  · rintro ⟨he, hearliest⟩
    refine ⟨hmonday he, fun f hf => ?_⟩
    obtain ⟨m, hm, hlater, hle⟩ := exists_monday hx hf.1 hf.2
    exact Int.le_trans (hearliest m ⟨hm, hlater⟩) hle
  · rintro ⟨he, hearliest⟩
    obtain ⟨m, hm, hlater, hle⟩ := exists_monday hx he.1 he.2
    obtain rfl : m = e :=
      eq_of_number_eq (Int.le_antisymm hle (hearliest m (hmonday ⟨hm, hlater⟩)))
    exact ⟨⟨hm, hlater⟩, fun f hf => hearliest f (hmonday hf)⟩

theorem isEarliest_from_self_iff {P : Date → Prop} (hx : P x) :
    IsEarliest (fun f => P f ∧ x.number ≤ f.number) e ↔ e = x := by
  have hself : IsEarliest (fun f => P f ∧ x.number ≤ f.number) x :=
    ⟨⟨hx, Int.le_refl _⟩, fun f hf => hf.2⟩
  constructor
  · intro h
    exact h.unique hself
  · rintro rfl
    exact hself

/-- The next Monday from a weekend on, and every other day as it is, is the first working day. -/
theorem leave_weekend_eq_some_iff :
    (if x.weekday.isWeekend then x.toWeekday? .next .monday else some x) = some e ↔
      IsEarliest (fun f => f.weekday.isWeekend = false ∧ x.number ≤ f.number) e := by
  cases hweekend : x.weekday.isWeekend with
  | true => rw [if_pos rfl, toWeekday?_eq_some_iff, leads_to_monday_iff hweekend]
  | false =>
    rw [if_neg Bool.false_ne_true, isEarliest_from_self_iff hweekend, Option.some.injEq, eq_comm]

theorem IsEarliest.le_of_le {P : Date → Prop} {y a b : Date}
    (ha : IsEarliest (fun f => P f ∧ x.number ≤ f.number) a)
    (hb : IsEarliest (fun f => P f ∧ y.number ≤ f.number) b) (hle : x.number ≤ y.number) :
    a.number ≤ b.number :=
  ha.2 b ⟨hb.1.1, Int.le_trans hle hb.1.2⟩

end Date
end HolidayRules

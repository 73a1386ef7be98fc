import HolidayRules.Phrase.Adjustment
import HolidayRules.Proofs.Date.Months

set_option autoImplicit false

/-!
# Days of a named month

A phrase such as `last monday of may` picks a day of a month of the base's year. The month takes the
day of the base along before the pick is made, so the pick stays in the named month exactly if that
month has such a day; otherwise it is made in the month after.
-/
namespace HolidayRules

/-- What an item picks in a month: an edge, the first to the fourth of a weekday, or the last. -/
inductive Picks (m : YearMonth) : Item → Date → Prop where
  | first {d : Date} (h : d.toYmd = ⟨m.year, m.month, 1⟩) : Picks m (.edge .first) d
  | last {d : Date} (h : d.toYmd = ⟨m.year, m.month, m.length⟩) : Picks m (.edge .last) d
  | nth {n : Int} {w : Weekday} {d : Date} (hn : 1 ≤ n ∧ n ≤ 4) (hm : d.yearMonth = m)
      (hw : d.weekday = w) (hd : 7 * (n - 1) < d.day ∧ d.day ≤ 7 * n) : Picks m (.nth n w) d
  | lastNth {w : Weekday} {d : Date} (hm : d.yearMonth = m) (hw : d.weekday = w)
      (hd : m.length < d.day + 7) : Picks m (.nth (-1) w) d

namespace Item

def IsPick : Item → Prop
  | .edge _ => True
  | .nth n _ => (1 ≤ n ∧ n ≤ 4) ∨ n = -1
  | _ => False

def pick? (m : YearMonth) : Item → Option Date
  | .edge e => m.edge? e
  | .nth n w => m.weekday? n w
  | _ => none

end Item

theorem Picks.yearMonth_eq {m : YearMonth} {item : Item} {d : Date} (h : Picks m item d) :
    d.yearMonth = m := by
  cases h with
  | first h => exact YearMonth.yearMonth_of_toYmd h
  | last h => exact YearMonth.yearMonth_of_toYmd h
  | nth _ hm _ _ => exact hm
  | lastNth hm _ _ => exact hm

theorem exists_pick? {m : YearMonth} (hm : m.InRange) (hm' : (m.plus 1).InRange) {item : Item}
    (hi : item.IsPick) : ∃ d, item.pick? m = some d ∧ Picks m item d := by
  match item, hi with
  | .edge .first, _ =>
    obtain ⟨d, hd, he, -⟩ := YearMonth.exists_first? hm
    exact ⟨d, hd, .first he⟩
  | .edge .last, _ =>
    obtain ⟨d, hd, he, -⟩ := YearMonth.exists_last? hm hm'
    exact ⟨d, hd, .last he⟩
  | .nth n w, .inl hn =>
    obtain ⟨d, hd, he, hw, hr⟩ := YearMonth.exists_weekday? hm hn w
    exact ⟨d, hd, .nth hn he hw hr⟩
  | .nth _ w, .inr rfl =>
    obtain ⟨d, hd, he, hw, hr⟩ := YearMonth.exists_last_weekday? hm hm' (by decide : (-1 : Int) < 0) w
    exact ⟨d, hd, .lastNth he hw hr⟩

theorem inRange_of_last? {m : YearMonth} {d : Date} (h : m.last? = some d) :
    (m.plus 1).InRange := by
  obtain ⟨e, he, -⟩ := Option.bind_eq_some_iff.1 h
  rw [← YearMonth.yearMonth_of_toYmd (Ymd.date?_eq_some_iff.1 he).symm]
  exact YearMonth.inRange_yearMonth e

/-- A pick never leaves its month, also where the month after is not supported. -/
theorem picks_of_pick? {m : YearMonth} (hm : m.InRange) {item : Item} (hi : item.IsPick) {d : Date}
    (h : item.pick? m = some d) : Picks m item d := by
  by_cases hm' : (m.plus 1).InRange
  · obtain ⟨e, he, hp⟩ := exists_pick? hm hm' hi
    rw [h] at he
    exact Option.some.inj he ▸ hp
  · match item, hi with
    | .edge .first, _ =>
      exact .first (Ymd.date?_eq_some_iff.1 h).symm
    | .edge .last, _ =>
      exact absurd (inRange_of_last? h) hm'
    | .nth n w, .inl hn =>
      obtain ⟨e, he, hy, hw, hr⟩ := YearMonth.exists_weekday? hm hn w
      rw [show m.weekday? n w = some d from h] at he
      exact Option.some.inj he ▸ .nth hn hy hw hr
    | .nth _ w, .inr rfl =>
      obtain ⟨e, he, -⟩ := Option.bind_eq_some_iff.1 (show m.last?.bind _ = some d from h)
      exact absurd (inRange_of_last? he) hm'

namespace Adjustment

def PicksOnly (a : Adjustment) : Item → Prop
  | .edge e => a.edge = some e ∧ a.nth = none
  | .nth n w => a.edge = none ∧ a.nth = some (n, w)
  | _ => False

theorem monthStart?_of_picksOnly {a : Adjustment} {item : Item} (h : a.PicksOnly item) (d : Date) :
    a.monthStart? d = d.yearMonth.first? := by
  unfold monthStart?
  cases item with
  | edge e => rw [h.1]; rfl
  | nth n w => rw [h.1, h.2]; rfl
  | _ => exact absurd h id

theorem toNth?_toEdge? {a : Adjustment} {item : Item} (h : a.PicksOnly item) (d : Date) :
    (a.toEdge? d).bind a.toNth? = item.pick? d.yearMonth := by
  unfold toEdge? toNth?
  cases item with
  | edge e =>
    rw [h.1, h.2]
    exact Option.bind_fun_some _
  | nth n w => rw [h.1, h.2]; rfl
  | _ => exact absurd h id

theorem run?_of_picksOnly {a : Adjustment} {months : Int} {item : Item} (hmoves : a.moves = [])
    (htotals : a.totals = ⟨months, 0, 0⟩) (hpick : a.PicksOnly item) (start : Ymd) :
    a.run? start = ((YearMonth.mk start.year start.month).day? start.day).bind fun d =>
      (d.yearMonth.plus months).first?.bind fun e => item.pick? e.yearMonth := by
  unfold run?
  rw [hmoves, htotals]
  congr 1
  funext d
  obtain ⟨e, he, hy, -⟩ := YearMonth.exists_first? (YearMonth.inRange_yearMonth d)
  have hm : e.monthsLater? months = (d.yearMonth.plus months).first? := by
    unfold Date.monthsLater?
    rw [YearMonth.yearMonth_of_toYmd hy, hy, YearMonth.day?_one]
  simp only [List.foldlM_nil, pure, bind, Option.bind_some, monthStart?_of_picksOnly hpick, he, hm,
    Date.daysLater?_zero, Date.workingDaysLater?_zero, toNth?_toEdge? hpick]

end Adjustment

namespace Phrase

theorem apply_pick_month (b : Date) (m : Nat) {item : Item} (hi : item.IsPick) :
    Phrase.apply [item, .month m none] (some b) =
      match ((YearMonth.mk b.year m).day? b.day).bind fun d => item.pick? d.yearMonth with
      | none => .error .outOfRange
      | some d => .ok d := by
  have hzero (d : Date) :
      ((d.yearMonth.plus 0).first?.bind fun e => item.pick? e.yearMonth) =
        item.pick? d.yearMonth := by
    have hm := YearMonth.inRange_yearMonth d
    obtain ⟨e, he, hy, -⟩ := YearMonth.exists_first? hm
    rw [YearMonth.plus_zero hm.2, he, Option.bind_some, YearMonth.yearMonth_of_toYmd hy]
  have hrun (a : Adjustment) (hmoves : a.moves = []) (htotals : a.totals = ⟨0, 0, 0⟩)
      (hpick : a.PicksOnly item) :
      a.run? ⟨b.year, m, b.day⟩ =
        ((YearMonth.mk b.year m).day? b.day).bind fun d => item.pick? d.yearMonth := by
    rw [Adjustment.run?_of_picksOnly hmoves htotals hpick]
    simp only [hzero]
  cases item with
  | edge e =>
    rw [← hrun ⟨⟨none, some m, none⟩, [], ⟨0, 0, 0⟩, some e, none⟩ rfl rfl ⟨rfl, rfl⟩]
    rfl
  | nth n w =>
    rw [← hrun ⟨⟨none, some m, none⟩, [], ⟨0, 0, 0⟩, none, some (n, w)⟩ rfl rfl ⟨rfl, rfl⟩]
    rfl
  | _ => exact absurd hi id

theorem apply_pick_month_of_le (b : Date) {m : Nat} {item : Item} (hm : 1 ≤ m ∧ m ≤ 12)
    (hn : (YearMonth.plus ⟨b.year, m⟩ 1).InRange) (hi : item.IsPick)
    (hd : b.day ≤ monthLength b.year m) :
    ∃ d, Phrase.apply [item, .month m none] (some b) = .ok d ∧ Picks ⟨b.year, m⟩ item d := by
  have hr : (YearMonth.mk b.year m).InRange := ⟨b.valid.1, hm⟩
  obtain ⟨e, he, hy⟩ := YearMonth.day?_of_le hr ⟨b.valid.2.2.1, hd⟩
  obtain ⟨d, hp, hpick⟩ := exists_pick? hr hn hi
  refine ⟨d, ?_, hpick⟩
  rw [apply_pick_month b m hi, he, Option.bind_some, YearMonth.yearMonth_of_toYmd hy, hp]

/-- A day that the named month lacks lies in the month after, and the pick is made there. -/
theorem picks_next_of_apply (b : Date) {m : Nat} {item : Item} (hm : 1 ≤ m ∧ m ≤ 12)
    (hn : (YearMonth.plus ⟨b.year, m⟩ 1).InRange) (hi : item.IsPick)
    (hd : monthLength b.year m < b.day) {d : Date}
    (h : Phrase.apply [item, .month m none] (some b) = .ok d) : Picks ⟨b.year, m + 1⟩ item d := by
  have hr : (YearMonth.mk b.year m).InRange := ⟨b.valid.1, hm⟩
  have hb := b.day_le
  have hl := YearMonth.length_bounds ⟨b.year, m⟩
  have hl' := YearMonth.length_bounds (YearMonth.plus ⟨b.year, m⟩ 1)
  have hlt : m ≠ 12 := YearMonth.month_ne_december (m := ⟨b.year, m⟩) hd hb
  have hp := YearMonth.plus_one hr.2
  rw [if_neg hlt] at hp
  obtain ⟨e, he, hy⟩ := YearMonth.day?_of_gt hr hn ⟨hd, by omega⟩
  rw [apply_pick_month b m hi, he, Option.bind_some, YearMonth.yearMonth_of_toYmd hy, hp] at h
  rw [hp] at hn
  cases hq : item.pick? ⟨b.year, m + 1⟩ with
  | none =>
    rw [hq] at h
    cases h
  | some f =>
    rw [hq] at h
    cases h
    exact picks_of_pick? hn hi hq

/-- The phrase stays in the named month exactly for the bases whose day that month has. -/
theorem apply_pick_month_iff (b : Date) {m : Nat} {item : Item} (hm : 1 ≤ m ∧ m ≤ 12)
    (hn : (YearMonth.plus ⟨b.year, m⟩ 1).InRange) (hi : item.IsPick) :
    ((∃ d, Phrase.apply [item, .month m none] (some b) = .ok d ∧ Picks ⟨b.year, m⟩ item d) ↔
        b.day ≤ monthLength b.year m) ∧
      (monthLength b.year m < b.day → ∀ d,
        Phrase.apply [item, .month m none] (some b) = .ok d → Picks ⟨b.year, m + 1⟩ item d) := by
  refine ⟨⟨?_, apply_pick_month_of_le b hm hn hi⟩, fun hd d => picks_next_of_apply b hm hn hi hd⟩
  rintro ⟨d, hd, hp⟩
  apply Nat.le_of_not_lt
  intro hlt
  have hnext := picks_next_of_apply b hm hn hi hlt hd
  have hy := hp.yearMonth_eq.symm.trans hnext.yearMonth_eq
  have hmonth := congrArg YearMonth.month hy
  dsimp only at hmonth
  omega

theorem apply_last_monday_of_february :
    (1 ≤ 2 ∧ 2 ≤ 12) ∧ (YearMonth.plus ⟨2024, 2⟩ 1).InRange ∧ (Item.nth (-1) .monday).IsPick ∧
      ∃ d, Phrase.apply [.nth (-1) .monday, .month 2 none] (some ⟨⟨2024, 1, 29⟩, by decide⟩) =
        .ok d ∧ Picks ⟨2024, 2⟩ (.nth (-1) .monday) d :=
  ⟨by decide, by decide, Or.inr rfl,
    (apply_pick_month_iff ⟨⟨2024, 1, 29⟩, by decide⟩ (by decide) (by decide)
      (show (Item.nth (-1) .monday).IsPick from Or.inr rfl)).1.2 (by decide)⟩

/-- February has no day 31: its last day, asked for on the last of January, is one of March. -/
theorem apply_last_day_of_february :
    ¬ ∀ (b : Date) (m : Nat) (item : Item), 1 ≤ m ∧ m ≤ 12 →
      (YearMonth.plus ⟨b.year, m⟩ 1).InRange → item.IsPick →
      ∃ d, Phrase.apply [item, .month m none] (some b) = .ok d ∧ Picks ⟨b.year, m⟩ item d := by
  intro h
  obtain ⟨d, hd, hp⟩ := h ⟨⟨2018, 1, 31⟩, by decide⟩ 2 (.edge .last) (by decide) (by decide) trivial
  have hmarch : Phrase.apply [.edge .last, .month 2 none] (some ⟨⟨2018, 1, 31⟩, by decide⟩) =
      .ok ⟨⟨2018, 3, 31⟩, by decide⟩ := by rfl
  rw [hmarch] at hd
  cases hd
  exact absurd hp.yearMonth_eq (by decide)

end Phrase
end HolidayRules

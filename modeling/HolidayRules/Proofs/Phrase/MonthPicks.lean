import HolidayRules.Proofs.Phrase.NamedMonth
import HolidayRules.Proofs.Phrase.Offsets

set_option autoImplicit false

/-!
# Picks after offsets of months

A phrase that picks a day of a month counts its offsets of months and years from the first of the month.
The pick is therefore made in the month that they come to, whatever the day of the base.
-/
namespace HolidayRules

namespace YearMonth

/-- The weekday among the days from `7 * (n - 1) + 1` to `7 * n`, counted from the first of the month
on, also where they run into the months after. -/
def IsNth (m : YearMonth) (n : Int) (w : Weekday) (d : Date) : Prop :=
  d.weekday = w ∧ ∃ r, (7 * (n - 1) + 1 ≤ r ∧ r ≤ 7 * n) ∧ d.number = m.firstNumber + (r - 1)

def IsLast (m : YearMonth) (w : Weekday) (d : Date) : Prop :=
  d.weekday = w ∧ d.yearMonth = m ∧ m.length < d.day + 7

variable {m : YearMonth} {n : Int} {w : Weekday} {d e : Date}

theorem isNth_iff :
    m.IsNth n w d ↔
      d.weekday = w ∧ m.firstNumber + 7 * (n - 1) ≤ d.number ∧
        d.number < m.firstNumber + 7 * n := by
  refine and_congr_right fun _ => ⟨?_, fun h => ⟨d.number - m.firstNumber + 1, ?_, by omega⟩⟩
  · rintro ⟨r, hr, hn⟩
    omega
  · omega

theorem weekday?_eq_some_iff_isNth (hm : m.InRange) (hn : 1 ≤ n) :
    m.weekday? n w = some d ↔ m.IsNth n w d := by
  rw [weekday?_eq_some_iff hm (by omega), isNth_iff]

theorem isLast_iff (hm : m.InRange) :
    m.IsLast w d ↔
      d.weekday = w ∧ m.firstNumber + m.length - 7 ≤ d.number ∧
        d.number < m.firstNumber + m.length := by
  have hl := m.length_bounds
  have hn := number_eq d
  refine and_congr_right fun _ => ⟨?_, fun h => ?_⟩
  · rintro ⟨hy, hd⟩
    have hbounds := (yearMonth_eq_iff hm).1 hy
    rw [hy] at hn
    omega
  · have hy := (yearMonth_eq_iff hm).2 ⟨by omega, h.2⟩
    rw [hy] at hn
    exact ⟨hy, by omega⟩

theorem IsLast.unique (hm : m.InRange) (hd : m.IsLast w d) (he : m.IsLast w e) : d = e := by
  obtain ⟨hdw, hdn⟩ := (isLast_iff hm).1 hd
  obtain ⟨hew, hen⟩ := (isLast_iff hm).1 he
  exact Date.eq_of_number_eq (Weekday.eq_of_ofNumber_eq (hdw.trans hew.symm) (by omega))

theorem exists_weekday?_eq_isLast (hm : m.InRange) (hm' : (m.plus 1).InRange) (hn : n < 0) :
    ∃ d, m.weekday? n w = some d ∧ ∀ e, m.IsLast w e ↔ e = d := by
  obtain ⟨d, hd, hy, hw, hday⟩ := exists_last_weekday? hm hm' hn w
  have hlast : m.IsLast w d := ⟨hw, hy, hday⟩
  exact ⟨d, hd, fun e => ⟨fun he => he.unique hm hlast, fun he => he ▸ hlast⟩⟩

theorem exists_fifth? (hm : m.InRange) (hm' : (m.plus 1).InRange) (w : Weekday) :
    ∃ d, m.weekday? 5 w = some d := by
  have hl := m.length_bounds
  have hl' := (m.plus 1).length_bounds
  have hnext := firstNumber_plus_one hm.2
  obtain ⟨e, he, -, hf⟩ := exists_first? hm
  have hu := Weekday.daysUntil_lt e.weekday w
  have hsome : ∃ d : Date, d.number = e.number + (e.weekday.daysUntil w + (5 - 1) * 7) := by
    by_cases hin : e.weekday.daysUntil w + 28 < m.length
    · obtain ⟨d, -, hd⟩ := exists_date hm (e.weekday.daysUntil w + 29) ⟨by omega, by omega⟩
      exact ⟨d, by omega⟩
    · obtain ⟨d, -, hd⟩ := exists_date hm' (e.weekday.daysUntil w + 29 - m.length)
        ⟨by omega, by omega⟩
      exact ⟨d, by omega⟩
  obtain ⟨d, hd⟩ := hsome
  refine ⟨d, ?_⟩
  unfold weekday?
  rw [if_neg (by decide), he, Option.bind_some, Date.daysLater?_eq_some_iff, hd]

theorem weekday?_last_eq (hm : m.InRange) (hm' : (m.plus 1).InRange) {fifth : Date}
    (h : m.weekday? 5 w = some fifth) :
    m.weekday? (-1) w = if fifth.yearMonth = m then some fifth else m.weekday? 4 w := by
  have hl := m.length_bounds
  obtain ⟨hw, hlow, hhigh⟩ := (weekday?_eq_some_iff hm (by decide)).1 h
  obtain ⟨d, hd, hlast⟩ := exists_weekday?_eq_isLast (w := w) hm hm' (show (-1 : Int) < 0 by decide)
  rw [hd]
  split
  next hy =>
    have hbounds := (yearMonth_eq_iff hm).1 hy
    rw [(hlast fifth).1 ((isLast_iff hm).2 ⟨hw, by omega, hbounds.2⟩)]
  next hy =>
    obtain ⟨fourth, hfourth, hy', -⟩ := exists_weekday? hm (show 1 ≤ (4 : Int) ∧ 4 ≤ 4 by decide) w
    obtain ⟨hw', hlow', hhigh'⟩ := (weekday?_eq_some_iff hm (by decide)).1 hfourth
    have hbounds := (yearMonth_eq_iff hm).1 hy'
    have hweek : fifth.number = fourth.number + 7 := by
      refine Weekday.eq_of_ofNumber_eq ?_ (by omega)
      have hsame := Weekday.ofNumber_add_weeks fourth.number 1
      rw [Int.one_mul] at hsame
      exact hw.trans (hw'.symm.trans hsame.symm)
    have hout := mt (yearMonth_eq_iff hm).2 hy
    rw [hfourth, (hlast fourth).1 ((isLast_iff hm).2 ⟨hw', by omega, hbounds.2⟩)]

end YearMonth

/-! ## Phrases with a pick -/

inductive Item.PicksDay : Item → Prop where
  | edge (edge : MonthEdge) : PicksDay (.edge edge)
  | nth (n : Int) (w : Weekday) : PicksDay (.nth n w)

/-- The answers to each pick are the days of the month `m`. -/
structure PicksFrom (m : YearMonth) (pick : Item → Except PhraseError Date) : Prop where
  first : ∃ d, pick (.edge .first) = .ok d ∧ d.toYmd = ⟨m.year, m.month, 1⟩
  last : ∃ d, pick (.edge .last) = .ok d ∧ d.toYmd = ⟨m.year, m.month, m.length⟩
  nth : ∀ n w d, 1 ≤ n → (pick (.nth n w) = .ok d ↔ m.IsNth n w d)
  nth_inside : ∀ n w, 1 ≤ n → n ≤ 4 → ∃ d, pick (.nth n w) = .ok d ∧ d.yearMonth = m
  lastNth : ∀ w, ∃ d, pick (.nth (-1) w) = .ok d ∧ ∀ e, m.IsLast w e ↔ e = d
  lastNth_eq : ∀ w, ∃ fifth, pick (.nth 5 w) = .ok fifth ∧
    pick (.nth (-1) w) = if fifth.yearMonth = m then .ok fifth else pick (.nth 4 w)

def Item.answer (m : YearMonth) (item : Item) : Except PhraseError Date :=
  (item.pick? m).elim (.error .outOfRange) .ok

theorem Item.answer_eq_ok_iff {m : YearMonth} {item : Item} {d : Date} :
    item.answer m = .ok d ↔ item.pick? m = some d := by
  unfold answer
  cases item.pick? m <;> simp

theorem picksFrom_answer {m : YearMonth} (hm : m.InRange) (hm' : (m.plus 1).InRange) :
    PicksFrom m (·.answer m) where
  first := by
    obtain ⟨d, hd, hy, -⟩ := YearMonth.exists_first? hm
    exact ⟨d, Item.answer_eq_ok_iff.2 hd, hy⟩
  last := by
    obtain ⟨d, hd, hy, -⟩ := YearMonth.exists_last? hm hm'
    exact ⟨d, Item.answer_eq_ok_iff.2 hd, hy⟩
  nth n w d hn := Item.answer_eq_ok_iff.trans (YearMonth.weekday?_eq_some_iff_isNth hm hn)
  nth_inside n w hn hn' := by
    obtain ⟨d, hd, hy, -⟩ := YearMonth.exists_weekday? hm ⟨hn, hn'⟩ w
    exact ⟨d, Item.answer_eq_ok_iff.2 hd, hy⟩
  lastNth w := by
    obtain ⟨d, hd, hlast⟩ := YearMonth.exists_weekday?_eq_isLast (w := w) hm hm'
      (show (-1 : Int) < 0 by decide)
    exact ⟨d, Item.answer_eq_ok_iff.2 hd, hlast⟩
  lastNth_eq w := by
    obtain ⟨fifth, hfifth⟩ := YearMonth.exists_fifth? hm hm' w
    refine ⟨fifth, Item.answer_eq_ok_iff.2 hfifth, ?_⟩
    change (m.weekday? (-1) w).elim _ _ = if _ then _ else (m.weekday? 4 w).elim _ _
    rw [YearMonth.weekday?_last_eq hm hm' hfifth]
    split <;> rfl

namespace Adjustment

theorem ofPhrase?_of_picksDay {before after : Phrase} {item : Item} (hitem : item.PicksDay)
    (h : ∀ x ∈ before ++ after, x.CountsMonths) :
    ofPhrase? (before ++ item :: after) =
      (identity.add? item).bind fun a => (before ++ after).foldlM add? a := by
  have hago : item ≠ .ago := by
    rintro rfl
    cases hitem
  refine foldlM_add?_middle identity after hago fun x hx => ?_
  have hcounts := h x (List.mem_append_left after hx)
  refine ⟨hcounts.ne_ago, ?_⟩
  rw [hcounts.group?_eq]
  cases hitem <;> exact nofun

theorem exists_ofPhrase?_of_picksDay {before after : Phrase} {item : Item}
    (hitem : item.PicksDay) (h : (before ++ after).IsMonthSum)
    (hfit : (before ++ after).AmountsFit) :
    ∃ a, ofPhrase? (before ++ item :: after) = some a ∧ a.named = .unnamed ∧
      a.moves = [] ∧ a.totals = ⟨Phrase.months (before ++ after), 0, 0⟩ ∧ a.PicksOnly item := by
  have hrun (a : Adjustment) (ha : a.totals = ⟨0, 0, 0⟩) :
      (before ++ after).foldlM add? a = some (a.plusMonths (Phrase.months (before ++ after))) ∧
        (a.plusMonths (Phrase.months (before ++ after))).totals =
          ⟨Phrase.months (before ++ after), 0, 0⟩ := by
    have hmonths : a.totals.months = 0 := by rw [ha]
    constructor
    · refine foldlM_add?_of_countsMonths h.countsMonths hfit a fun q hq => ?_
      rw [hmonths, Int.zero_add]
      exact h.sum q hq
    · unfold plusMonths
      rw [ha]
      simp only [Int.zero_add]
  rw [ofPhrase?_of_picksDay hitem h.countsMonths]
  cases hitem with
  | edge edge =>
    obtain ⟨hgather, htotals⟩ := hrun { identity with edge := some edge } rfl
    exact ⟨_, hgather, rfl, rfl, htotals, rfl, rfl⟩
  | nth n w =>
    obtain ⟨hgather, htotals⟩ := hrun { identity with nth := some (n, w) } rfl
    exact ⟨_, hgather, rfl, rfl, htotals, rfl, rfl⟩

end Adjustment

namespace Phrase

variable {before after : Phrase} {item : Item}

theorem apply_of_picksDay (hitem : item.PicksDay) (h : (before ++ after).IsMonthSum)
    (hfit : (before ++ after).AmountsFit) (b : Date) :
    Phrase.apply (before ++ item :: after) (some b) =
      ((b.yearMonth.plus (months (before ++ after))).first?.bind fun e =>
        item.pick? e.yearMonth).elim (.error .outOfRange) .ok := by
  obtain ⟨a, hgather, hnamed, hmoves, htotals, hpick⟩ :=
    Adjustment.exists_ofPhrase?_of_picksDay hitem h hfit
  have hstart : (YearMonth.mk b.year b.month).day? b.day = some b := YearMonth.day?_day b
  have hrun := Adjustment.run?_of_picksOnly hmoves htotals hpick ⟨b.year, b.month, b.day⟩
  rw [hstart, Option.bind_some] at hrun
  have hnone : a.named.start? (some b) = some ⟨b.year, b.month, b.day⟩ := by
    rw [hnamed, NamedDay.start?_unnamed]
  rw [apply_of_start? hgather hnone, hrun]

theorem apply_of_not_amountsFit (hitem : item.PicksDay) (h : (before ++ after).IsMonthSum)
    (hfit : ¬ (before ++ after).AmountsFit) (b : Option Date) :
    Phrase.apply (before ++ item :: after) b = .error .outOfRange := by
  have hgather : Adjustment.ofPhrase? (before ++ item :: after) = none := by
    rw [Adjustment.ofPhrase?_of_picksDay hitem h.countsMonths]
    cases Adjustment.identity.add? item with
    | none => rfl
    | some a => exact Adjustment.foldlM_add?_of_not_amountsFit h.countsMonths hfit a
  unfold Phrase.apply
  rw [hgather]

/-- The pick is made in the month that the offsets come to, whatever the day of the base, if every
amount can be held; else the phrase fails. -/
theorem apply_pick_after_months (b : Date) (h : (before ++ after).IsMonthSum)
    (hm : (b.yearMonth.plus (months (before ++ after))).InRange)
    (hm' : ((b.yearMonth.plus (months (before ++ after))).plus 1).InRange) :
    ((before ++ after).AmountsFit →
      PicksFrom (b.yearMonth.plus (months (before ++ after))) fun item =>
        Phrase.apply (before ++ item :: after) (some b)) ∧
    (¬ (before ++ after).AmountsFit → ∀ item : Item, item.PicksDay →
      Phrase.apply (before ++ item :: after) (some b) = .error .outOfRange) ∧
    ∀ c : Date, c.yearMonth = b.yearMonth → ∀ item : Item, item.PicksDay →
      Phrase.apply (before ++ item :: after) (some c) =
        Phrase.apply (before ++ item :: after) (some b) := by
  have happly (hfit : (before ++ after).AmountsFit) (c : Date) {item : Item}
      (hitem : item.PicksDay) (hc : c.yearMonth = b.yearMonth) :
      Phrase.apply (before ++ item :: after) (some c) =
        item.answer (b.yearMonth.plus (months (before ++ after))) := by
    obtain ⟨e, he, hy, -⟩ := YearMonth.exists_first? hm
    rw [apply_of_picksDay hitem h hfit, hc, he, Option.bind_some, YearMonth.yearMonth_of_toYmd hy]
    rfl
  refine ⟨fun hfit => ?_, fun hfit item hitem => apply_of_not_amountsFit hitem h hfit _,
    fun c hc item hitem => ?_⟩
  · have hanswer := picksFrom_answer hm hm'
    have hedge (edge : MonthEdge) := happly hfit b (.edge edge) rfl
    have hnth (n : Int) (w : Weekday) := happly hfit b (.nth n w) rfl
    constructor
    all_goals simp only [hedge, hnth]
    · exact hanswer.first
    · exact hanswer.last
    · exact hanswer.nth
    · exact hanswer.nth_inside
    · exact hanswer.lastNth
    · exact hanswer.lastNth_eq
  · by_cases hfit : (before ++ after).AmountsFit
    · rw [happly hfit c hitem hc, happly hfit b hitem rfl]
    · rw [apply_of_not_amountsFit hitem h hfit, apply_of_not_amountsFit hitem h hfit]

/-- From the last of January 2018, a year and a month on, the picks are days of February 2019. -/
theorem apply_picks_of_february :
    let before : Phrase := [.offset 1 .year]
    let after : Phrase := [.offset 1 .month]
    let b : Date := ⟨⟨2018, 1, 31⟩, by decide⟩
    (before ++ after).IsMonthSum ∧ (b.yearMonth.plus (months (before ++ after))).InRange ∧
      ((b.yearMonth.plus (months (before ++ after))).plus 1).InRange ∧
      (before ++ after).AmountsFit ∧
      PicksFrom ⟨2019, 2⟩ (fun item => Phrase.apply (before ++ item :: after) (some b)) ∧
      Phrase.apply (before ++ .edge .last :: after) (some ⟨⟨2018, 1, 1⟩, by decide⟩) =
        Phrase.apply (before ++ .edge .last :: after) (some b) := by
  intro before after b
  have hsum : (before ++ after).IsMonthSum := by decide
  have hm : (b.yearMonth.plus (months (before ++ after))).InRange := by decide
  have hm' : ((b.yearMonth.plus (months (before ++ after))).plus 1).InRange := by decide
  have hfit : (before ++ after).AmountsFit := by decide
  have hmonth : b.yearMonth.plus (months (before ++ after)) = ⟨2019, 2⟩ := by decide
  obtain ⟨hpicks, -, hday⟩ := apply_pick_after_months b hsum hm hm'
  rw [hmonth] at hpicks
  exact ⟨hsum, hm, hm', hfit, hpicks hfit, hday ⟨⟨2018, 1, 1⟩, by decide⟩ rfl _ (.edge .last)⟩

/-- The years of this phrase are more months than a word can hold, although no sum is. -/
theorem apply_first_day_of_too_many_years :
    ¬ ∀ (b : Date) (before after : Phrase), (before ++ after).IsMonthSum →
      (b.yearMonth.plus (months (before ++ after))).InRange →
      ((b.yearMonth.plus (months (before ++ after))).plus 1).InRange →
      PicksFrom (b.yearMonth.plus (months (before ++ after))) fun item =>
        Phrase.apply (before ++ item :: after) (some b) := by
  intro h
  have hpicks := h ⟨⟨2018, 5, 15⟩, by decide⟩ []
    [.offset (-5) .month, .offset 768614336404564651 .year, .offset (-9223372036854775807) .month]
    (by decide) (by decide) (by decide)
  obtain ⟨d, hd, -⟩ := hpicks.first
  have hfails : Phrase.apply [.edge .first, .offset (-5) .month, .offset 768614336404564651 .year,
      .offset (-9223372036854775807) .month] (some ⟨⟨2018, 5, 15⟩, by decide⟩) =
        .error .outOfRange := by rfl
  exact absurd (hfails.symm.trans hd) nofun

end Phrase
end HolidayRules

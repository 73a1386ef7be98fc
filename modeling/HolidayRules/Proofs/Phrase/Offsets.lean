import HolidayRules.Proofs.Date.Months
import HolidayRules.Proofs.Phrase.ItemOrder

set_option autoImplicit false

/-!
# Offsets of months and years

A phrase of offsets moves its base by their sums. Where the offsets are of months and years only, the
day of the month stays as it is, unless the month that is reached lacks it: then it becomes one of the
first three days of the month after.
-/
namespace HolidayRules

namespace Item

def CountsMonths (item : Item) : Prop := ∃ n, item = .offset n .month ∨ item = .offset n .year

instance : DecidablePred CountsMonths
  | .offset n .month => isTrue ⟨n, .inl rfl⟩
  | .offset n .year => isTrue ⟨n, .inr rfl⟩
  | .offset _ .day | .offset _ .week | .offset _ .fortnight | .offset _ .weekday | .date ..
  | .month .. | .ago | .weekday .. | .edge _ | .nth .. =>
    isFalse (by rintro ⟨n, h | h⟩ <;> cases h)

def months : Item → Int
  | .offset n .month => n
  | .offset n .year => n * 12
  | _ => 0

theorem CountsMonths.group?_eq {item : Item} (h : item.CountsMonths) :
    item.group? = some (.offset .months) := by
  obtain ⟨n, rfl | rfl⟩ := h <;> rfl

theorem CountsMonths.ne_ago {item : Item} (h : item.CountsMonths) : item ≠ .ago := by
  obtain ⟨n, rfl | rfl⟩ := h <;> exact Item.noConfusion

end Item

namespace Phrase

def months : Phrase → Int
  | [] => 0
  | item :: rest => item.months + months rest

/-- Offsets of months and years, of which no sum of the first ones leaves the range of a word. -/
structure IsMonthSum (p : Phrase) : Prop where
  countsMonths : ∀ item ∈ p, item.CountsMonths
  sum : ∀ q, q <+: p → inWord (months q) = true

instance (p : Phrase) : Decidable p.IsMonthSum :=
  decidable_of_iff ((∀ item ∈ p, item.CountsMonths) ∧
    ∀ n ≤ p.length, inWord (months (p.take n)) = true)
    ⟨fun h => ⟨h.1, fun q hq => List.prefix_iff_eq_take.1 hq ▸ h.2 q.length hq.length_le⟩,
      fun h => ⟨h.countsMonths, fun n _ => h.sum _ (List.take_prefix n p)⟩⟩

def AmountsFit (p : Phrase) : Prop := ∀ item ∈ p, inWord item.months = true

instance (p : Phrase) : Decidable p.AmountsFit :=
  inferInstanceAs (Decidable (∀ item ∈ p, inWord item.months = true))

end Phrase

/-! ## Gathering -/

namespace Adjustment

def plusMonths (a : Adjustment) (months : Int) : Adjustment :=
  { a with totals := { a.totals with months := a.totals.months + months } }

theorem plusMonths_zero (a : Adjustment) : a.plusMonths 0 = a := by
  unfold plusMonths
  rw [Int.add_zero]

theorem plusMonths_plusMonths (a : Adjustment) (first second : Int) :
    (a.plusMonths first).plusMonths second = a.plusMonths (first + second) := by
  unfold plusMonths
  dsimp only
  rw [Int.add_assoc]

theorem add?_of_countsMonths (a : Adjustment) {item : Item} (h : item.CountsMonths) :
    a.add? item =
      if inWord item.months && inWord (a.totals.months + item.months) then
        some (a.plusMonths item.months)
      else none := by
  have hadd (n scale : Int) :
      ((Totals.addScaled? a.totals.months n scale).map fun months =>
        { a.totals with months := months }).map (fun totals => { a with totals := totals }) =
      if inWord (n * scale) && inWord (a.totals.months + n * scale) then
        some (a.plusMonths (n * scale))
      else none := by
    unfold Totals.addScaled?
    split <;> rfl
  obtain ⟨n, rfl | rfl⟩ := h
  · have hmonth := hadd n 1
    rw [Int.mul_one] at hmonth
    exact hmonth
  · exact hadd n 12

theorem foldlM_add?_of_countsMonths {p : Phrase} (hp : ∀ item ∈ p, item.CountsMonths)
    (hfit : p.AmountsFit) (a : Adjustment)
    (hsum : ∀ q, q <+: p → inWord (a.totals.months + Phrase.months q) = true) :
    p.foldlM add? a = some (a.plusMonths (Phrase.months p)) := by
  induction p generalizing a with
  | nil =>
    change some a = some (a.plusMonths 0)
    rw [plusMonths_zero]
  | cons item p ih =>
    obtain ⟨hitem, hp⟩ := List.forall_mem_cons.1 hp
    obtain ⟨hamount, hfit⟩ := List.forall_mem_cons.1 hfit
    have hfirst : inWord (a.totals.months + item.months) = true := by
      have hsingle := hsum [item] (List.prefix_append [item] p)
      rwa [show Phrase.months [item] = item.months from Int.add_zero _] at hsingle
    have hrest : ∀ q, q <+: p →
        inWord ((a.plusMonths item.months).totals.months + Phrase.months q) = true := by
      intro q hq
      have hlonger := hsum (item :: q) (List.cons_prefix_cons.2 ⟨rfl, hq⟩)
      rwa [Phrase.months, ← Int.add_assoc] at hlonger
    rw [List.foldlM_cons, add?_of_countsMonths a hitem, hamount, hfirst]
    change p.foldlM add? (a.plusMonths item.months) = _
    rw [ih hp hfit _ hrest, plusMonths_plusMonths]
    rfl

theorem foldlM_add?_of_not_amountsFit {p : Phrase} (hp : ∀ item ∈ p, item.CountsMonths)
    (hfit : ¬ p.AmountsFit) (a : Adjustment) : p.foldlM add? a = none := by
  induction p generalizing a with
  | nil => exact absurd (fun item hitem => nomatch hitem) hfit
  | cons item p ih =>
    obtain ⟨hitem, hp⟩ := List.forall_mem_cons.1 hp
    rw [List.foldlM_cons, add?_of_countsMonths a hitem]
    cases hamount : inWord item.months with
    | false => rfl
    | true =>
      have hrest : ¬ Phrase.AmountsFit p := fun hrest =>
        hfit (List.forall_mem_cons.2 ⟨hamount, hrest⟩)
      split
      · exact ih hp hrest _
      · rfl

end Adjustment

/-! ## Applying -/

namespace Phrase

theorem apply_of_offsets {p : Phrase} {totals : Totals}
    (h : Adjustment.ofPhrase? p = some ⟨.unnamed, [], totals, none, none⟩) (d : Date) :
    Phrase.apply p (some d) =
      ((d.monthsLater? totals.months).bind fun e => (e.daysLater? totals.days).bind fun f =>
        f.workingDaysLater? totals.workingDays).elim (.error .outOfRange) .ok := by
  have hstart : (YearMonth.mk d.year d.month).day? d.day = some d := YearMonth.day?_day d
  have hrun : Adjustment.run? ⟨.unnamed, [], totals, none, none⟩ ⟨d.year, d.month, d.day⟩ =
      (d.monthsLater? totals.months).bind fun e => (e.daysLater? totals.days).bind fun f =>
        f.workingDaysLater? totals.workingDays := by
    unfold Adjustment.run?
    simp only [hstart, bind, Option.bind_some, List.foldlM_nil, pure, Adjustment.monthStart?,
      Option.isSome_none, Bool.or_self, Bool.false_eq_true, if_false, Adjustment.toEdge?,
      Adjustment.toNth?, Option.bind_fun_some]
  rw [apply_of_start? h (NamedDay.start?_unnamed d), hrun]

theorem apply_of_isMonthSum {p : Phrase} (h : p.IsMonthSum) (hfit : p.AmountsFit) (d : Date) :
    Phrase.apply p (some d) = (d.monthsLater? p.months).elim (.error .outOfRange) .ok := by
  have hgather : Adjustment.ofPhrase? p = some (Adjustment.identity.plusMonths p.months) := by
    refine Adjustment.foldlM_add?_of_countsMonths h.countsMonths hfit _ fun q hq => ?_
    rw [show Adjustment.identity.totals.months = 0 from rfl, Int.zero_add]
    exact h.sum q hq
  have hmonths : Adjustment.identity.plusMonths p.months =
      ⟨.unnamed, [], ⟨p.months, 0, 0⟩, none, none⟩ := by
    unfold Adjustment.plusMonths
    rw [show Adjustment.identity.totals.months = 0 from rfl, Int.zero_add]
    rfl
  rw [hmonths] at hgather
  rw [apply_of_offsets hgather]
  simp only [Date.daysLater?_zero, Date.workingDaysLater?_zero, Option.bind_fun_some]

end Phrase

/-! ## The month that is reached -/

theorem YearMonth.inWord_index {m : YearMonth} (hm : m.InRange) : inWord m.index = true := by
  obtain ⟨⟨hmin, hmax⟩, hfirst, hlast⟩ := hm
  unfold minYear at hmin
  unfold maxYear at hmax
  unfold inWord index
  simp only [Bool.and_eq_true, decide_eq_true_eq]
  omega

namespace Phrase

/-- Offsets of months and years lead to the day of the base in the month that they come to, or to one
of the first three days of the month after, if that month lacks the day. Up to the 28th it is the same
to go there in two parts. -/
theorem apply_monthSum_rolls_over (b : Date) {p : Phrase} (h : p.IsMonthSum) (hfit : p.AmountsFit) :
    let m := b.yearMonth.plus p.months
    (¬ m.InRange ∨ inWord (b.yearMonth.index + p.months) = false →
      Phrase.apply p (some b) = .error .outOfRange) ∧
    (m.InRange → b.day ≤ m.length →
      ∃ d, Phrase.apply p (some b) = .ok d ∧ d.toYmd = ⟨m.year, m.month, b.day⟩) ∧
    (m.InRange → m.length < b.day →
      ∃ d, Phrase.apply p (some b) = .ok d ∧
        d.toYmd = ⟨(m.plus 1).year, (m.plus 1).month, b.day - m.length⟩ ∧ 1 ≤ d.day ∧ d.day ≤ 3) ∧
    (p.months = 0 → Phrase.apply p (some b) = .ok b) ∧
    (m.InRange → b.day ≤ 28 → ∀ q r : Phrase, q.IsMonthSum → q.AmountsFit → r.IsMonthSum →
      r.AmountsFit → r.months = p.months + q.months →
      (Phrase.apply p (some b) >>= fun d => Phrase.apply q (some d)) = Phrase.apply r (some b)) := by
  intro m
  have happly := apply_of_isMonthSum h hfit b
  refine ⟨fun hout => ?_, fun hm hday => ?_, fun hm hday => ?_, fun hzero => ?_,
    fun hm hday q r hq hqfit hr hrfit hmonths => ?_⟩
  · have hm : ¬ m.InRange := by
      rcases hout with hm | hindex
      · exact hm
      · intro hm
        have hword := YearMonth.inWord_index hm
        rw [YearMonth.index_plus, hindex] at hword
        cases hword
    rw [happly, Date.monthsLater?_of_not_inRange hm]
    rfl
  · obtain ⟨d, hd, hy⟩ := Date.monthsLater?_of_le hm hday
    exact ⟨d, by rw [happly, hd]; rfl, hy⟩
  · obtain ⟨d, hd, hy, hdays⟩ := Date.monthsLater?_of_gt hm hday
    exact ⟨d, by rw [happly, hd]; rfl, hy, hdays⟩
  · rw [happly, hzero, Date.monthsLater?_zero]
    rfl
  · rw [happly, apply_of_isMonthSum hr hrfit b, hmonths, ← Date.monthsLater?_bind q.months hm hday]
    cases b.monthsLater? p.months with
    | none => rfl
    | some d => exact apply_of_isMonthSum hq hqfit d

/-- A month after the last of January 2019 is the third of March, and a month and a year from the 28th of
May may be gone in two parts. -/
theorem apply_monthSum_of_one_month :
    let p : Phrase := [.offset 1 .year, .offset (-11) .month]
    let q : Phrase := [.offset 12 .month]
    let r : Phrase := [.offset 1 .year, .offset 1 .month]
    (p.IsMonthSum ∧ p.AmountsFit) ∧ (q.IsMonthSum ∧ q.AmountsFit) ∧ (r.IsMonthSum ∧ r.AmountsFit) ∧
      Phrase.apply p (some ⟨⟨262142, 12, 31⟩, by decide⟩) = .error .outOfRange ∧
      (∃ d, Phrase.apply p (some ⟨⟨2018, 12, 31⟩, by decide⟩) = .ok d ∧ d.toYmd = ⟨2019, 1, 31⟩) ∧
      (∃ d, Phrase.apply p (some ⟨⟨2019, 1, 31⟩, by decide⟩) = .ok d ∧ d.toYmd = ⟨2019, 3, 3⟩) ∧
      (Phrase.apply p (some ⟨⟨2018, 5, 28⟩, by decide⟩) >>= fun d => Phrase.apply q (some d)) =
        Phrase.apply r (some ⟨⟨2018, 5, 28⟩, by decide⟩) := by
  intro p q r
  have hp : p.IsMonthSum ∧ p.AmountsFit := by decide
  have hq : q.IsMonthSum ∧ q.AmountsFit := by decide
  have hr : r.IsMonthSum ∧ r.AmountsFit := by decide
  have rolls (b : Date) := apply_monthSum_rolls_over b hp.1 hp.2
  obtain ⟨d, hd, hy⟩ := (rolls ⟨⟨2018, 12, 31⟩, by decide⟩).2.1 (by decide) (by decide)
  obtain ⟨e, he, hz, -⟩ := (rolls ⟨⟨2019, 1, 31⟩, by decide⟩).2.2.1 (by decide) (by decide)
  exact ⟨hp, hq, hr, (rolls _).1 (.inl (by decide)), ⟨d, hd, hy⟩, ⟨e, he, hz.trans (by decide)⟩,
    (rolls _).2.2.2.2 (by decide) (by decide) q r hq.1 hq.2 hr.1 hr.2 rfl⟩

end Phrase
end HolidayRules

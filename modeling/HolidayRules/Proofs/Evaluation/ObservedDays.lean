import HolidayRules.Proofs.Chain.Guards
import HolidayRules.Proofs.Evaluation.LiteralCodes
import HolidayRules.Proofs.Phrase.WeekdayPhrases

set_option autoImplicit false

/-!
# Holidays that are observed on another day

A guard on the weekday with a move to a weekday behind it shifts the dates for which the guard
holds. Such a code is its own chain, which has one guarded step.
-/
namespace HolidayRules

/-! ## Guards on the weekday -/

def AbbreviatesDays (values : List Text) (days : List Weekday) : Prop :=
  values.map Text.lower = days.map fun day => Text.lower (abbreviation day.name)

/-- A code that asks whether the weekday is one of the values, or is none of them, and if so goes on
with an action. -/
def weekdayCode (negated : Bool) (values : List Text) (action : Text) : Text :=
  inBraces ((if negated then "?D!=" else "?D=").toList ++ [','].intercalate values) ++ action

def weekdayGuard (negated : Bool) (values : List Text) : Guard := ⟨[.weekdayShort], negated, values⟩

theorem weekdayCode_eq (negated : Bool) (values : List Text) (action : Text) :
    weekdayCode negated values action = (weekdayGuard negated values).text ++ action := by
  cases negated <;>
    simp [weekdayCode, weekdayGuard, Guard.text, Guard.body, Guard.sign, inBraces, openBraces,
      closeBraces, Guard.opening, Guard.closing, DateLetter.char]

section

variable {days : List Weekday} {values : List Text}

theorem abbreviation_injective {a b : Weekday}
    (h : Text.lower (abbreviation a.name) = Text.lower (abbreviation b.name)) : a = b := by
  revert h
  cases a <;> cases b <;> decide

theorem mem_of_abbreviatesDays (h : AbbreviatesDays values days) {value : Text}
    (hvalue : value ∈ values) :
    ∃ day ∈ days, Text.lower value = Text.lower (abbreviation day.name) := by
  have hmem : Text.lower value ∈ values.map Text.lower := List.mem_map_of_mem hvalue
  rw [h] at hmem
  obtain ⟨day, hday, heq⟩ := List.mem_map.1 hmem
  exact ⟨day, hday, heq.symm⟩

theorem letters_of_abbreviatesDays (h : AbbreviatesDays values days) {value : Text}
    (hvalue : value ∈ values) : value ≠ [] ∧ ∀ c ∈ value, c.isAlpha = true := by
  obtain ⟨day, -, hlower⟩ := mem_of_abbreviatesDays h hvalue
  have hname : Text.lower (abbreviation day.name) ∈ nameWords day.name :=
    List.mem_cons_of_mem _ List.mem_cons_self
  obtain ⟨-, -, -, -, hrange⟩ := Phrase.weekday_word hname
  rw [← hlower] at hrange
  exact Phrase.letters_of_inRange hrange

theorem passes_weekdayGuard_iff (h : AbbreviatesDays values days) {negated : Bool} {x : Date} :
    (weekdayGuard negated values).Passes x ↔ (x.weekday ∈ days ↔ negated = false) := by
  have hrender : x.render [.weekdayShort] = abbreviation x.weekday.name := by
    simp [Date.render, DateLetter.render]
  have hfound : (∃ v ∈ values, Text.lower v = Text.lower (abbreviation x.weekday.name)) ↔
      x.weekday ∈ days := by
    constructor
    · rintro ⟨v, hv, hlower⟩
      obtain ⟨day, hday, hvalue⟩ := mem_of_abbreviatesDays h hv
      rwa [abbreviation_injective (hlower.symm.trans hvalue)]
    · intro hday
      have hmem : Text.lower (abbreviation x.weekday.name) ∈ values.map Text.lower := by
        rw [h]
        exact List.mem_map.2 ⟨x.weekday, hday, rfl⟩
      exact List.mem_map.1 hmem
  unfold weekdayGuard Guard.Passes
  dsimp only
  rw [hrender, hfound]

theorem isWritable_weekdayGuard (h : AbbreviatesDays values days) (hne : days ≠ [])
    (negated : Bool) : (weekdayGuard negated values).IsWritable := by
  have hletters {v : Text} (hv : v ∈ values) := (letters_of_abbreviatesDays h hv).2
  refine ⟨by simp [weekdayGuard], ?_, ?_, ?_, ?_⟩
  · rintro (hnil : values = [])
    rw [AbbreviatesDays, hnil] at h
    exact hne (List.map_eq_nil_iff.1 h.symm)
  · exact fun v hv => (letters_of_abbreviatesDays h hv).1
  · exact fun v hv => Text.isTrimmed_of_forall fun c hc => isBlank_of_isAlpha (hletters hv c hc)
  · intro v hv
    refine ⟨?_, ?_, ?_⟩ <;> intro hc <;> exact absurd (hletters hv _ hc) (by decide)

end

/-! ## The outcome -/

theorem hasOnlyText_weekdayCode {days : List Weekday} {values : List Text}
    (hvalues : AbbreviatesDays values days) (negated : Bool) {movement : Movement} {goal : Weekday}
    {action : Text} (h : movement.IsWritten goal action) :
    (Template.parse (weekdayCode negated values action)).HasOnlyText := by
  have hlist {c : Char} (hc : c ≠ ',' ∧ c.isAlpha = false) : c ∉ [','].intercalate values := by
    refine Text.not_mem_intercalate hc.1 fun v hv hmem => ?_
    rw [(letters_of_abbreviatesDays hvalues hv).2 c hmem] at hc
    cases hc.2
  have hvaluesFree : Template.BraceFree ([','].intercalate values) := by
    intro c hc
    constructor <;> rintro rfl <;> exact hlist (by decide) hc
  have hactionFree : Template.BraceFree action := by
    intro c hc
    constructor <;> rintro rfl <;> rcases h.isAlpha_or_blank _ hc with hc | hc <;> cases hc
  obtain ⟨sign, hsign, hsignFree⟩ : ∃ sign : Text,
      (if negated then "?D!=" else "?D=").toList = '?' :: sign ∧ Template.BraceFree sign := by
    cases negated with
    | false => exact ⟨['D', '='], rfl, by decide⟩
    | true => exact ⟨['D', '!', '='], rfl, by decide⟩
  unfold weekdayCode
  rw [hsign]
  exact Template.hasOnlyText_parse_question
    (Template.braceFree_append.2 ⟨hsignFree, hvaluesFree⟩) hactionFree

theorem evaluate_weekdayCode (registry : Registry) (x : Date) {days : List Weekday}
    {values : List Text} (hvalues : AbbreviatesDays values days) (hne : days ≠ []) (negated : Bool)
    {movement : Movement} {goal : Weekday} {action : Text} (h : movement.IsWritten goal action) :
    evaluate registry (weekdayCode negated values action) x.toYmd =
      .ok (.ofOption ((if x.weekday ∈ days ↔ negated = false then x.toWeekday? movement goal
        else some x).map Date.toYmd)) := by
  have hwritable := isWritable_weekdayGuard hvalues hne negated
  have hbar : '|' ∉ action := by
    intro hmem
    rcases h.isAlpha_or_blank _ hmem with hc | hc <;> cases hc
  obtain ⟨haction, htrimmed⟩ := h.ne_nil_and_isTrimmed
  have hblank : action.all isBlank ≠ true := by
    rw [Ne, ← Text.trim_eq_nil_iff, Text.trim_eq_self htrimmed]
    exact haction
  have hparse : Chain.parse (weekdayCode negated values action) =
      .ok [.guarded (weekdayGuard negated values) (some [.weekday goal movement])] := by
    rw [weekdayCode_eq, Chain.parse_guarded hwritable hbar, if_neg hblank,
      Text.trim_eq_self htrimmed, Phrase.parse_of_isWritten_movement h]
  have htext := hasOnlyText_weekdayCode hvalues negated h
  rw [Template.evaluate_of_hasOnlyText registry htext]
  unfold Chain.outcome
  rw [hparse, Ymd.date?_toYmd]
  dsimp only
  rw [Chain.apply_guarded]
  have hguard := @passes_weekdayGuard_iff _ _ hvalues negated x
  by_cases hpass : x.weekday ∈ days ↔ negated = false
  · rw [if_pos hpass, if_pos (hguard.2 hpass), Option.elim_some, Phrase.apply_weekday]
    cases x.toWeekday? movement goal <;> rfl
  · rw [if_neg hpass, if_neg (mt hguard.1 hpass)]
    rfl

theorem Date.toYmd_injective {d e : Date} (h : d.toYmd = e.toYmd) : d = e := by
  have hdate := congrArg Ymd.date? h
  rw [Ymd.date?_toYmd, Ymd.date?_toYmd] at hdate
  exact Option.some.inj hdate

theorem ofOption_eq_date_iff {found : Option Date} {d : Ymd} :
    Outcome.ofOption (found.map Date.toYmd) = .date d ↔ ∃ e, found = some e ∧ e.toYmd = d := by
  cases found <;> simp [Outcome.ofOption]

theorem ofOption_eq_date_toYmd_iff {found : Option Date} {e : Date} :
    Outcome.ofOption (found.map Date.toYmd) = .date e.toYmd ↔ found = some e := by
  rw [ofOption_eq_date_iff]
  constructor
  · rintro ⟨f, rfl, hf⟩
    rw [Date.toYmd_injective hf]
  · rintro rfl
    exact ⟨e, rfl, rfl⟩

theorem ofOption_eq_notApplicable_iff {found : Option Date} :
    Outcome.ofOption (found.map Date.toYmd) = .notApplicable ↔ found = none := by
  cases found <;> simp [Outcome.ofOption]

/-! ## Weekends -/

theorem evaluate_weekend (registry : Registry) (x : Date) :
    evaluate registry "{{?D=Sat,Sun}}next Monday".toList x.toYmd =
      .ok (.ofOption ((if x.weekday.isWeekend then x.toWeekday? .next .monday
        else some x).map Date.toYmd)) := by
  have hvalues : AbbreviatesDays ["Sat".toList, "Sun".toList] [.saturday, .sunday] := rfl
  have hnext : Movement.next.IsWritten .monday ("next".toList ++ ' ' :: "Monday".toList) :=
    .behind (by decide) (by decide)
  have hoff := evaluate_weekdayCode registry x hvalues (by simp) false hnext
  cases hweekday : x.weekday <;> rw [hweekday] at hoff <;> exact hoff

theorem evaluate_weekend_eq_date_iff {registry : Registry} {x e : Date} :
    evaluate registry "{{?D=Sat,Sun}}next Monday".toList x.toYmd = .ok (.date e.toYmd) ↔
      Date.IsEarliest (fun f => f.weekday.isWeekend = false ∧ x.number ≤ f.number) e := by
  rw [evaluate_weekend, Except.ok.injEq, ofOption_eq_date_toYmd_iff,
    Date.leave_weekend_eq_some_iff]

/-- Dates on whose weekday the guard holds are moved to the nearest date with the weekday of the
phrase, and do not apply if there is none; other dates stay. With the next Monday for weekends this
is the first day of a working week from the date on, so that doing it twice changes nothing more and
keeps the order of dates. -/
theorem evaluate_observed_day (registry : Registry) :
    (∀ (x : Date) (days : List Weekday) (values : List Text) (negated : Bool)
      (movement : Movement) (goal : Weekday) (action : Text),
      days ≠ [] → AbbreviatesDays values days → movement.IsWritten goal action →
      let outcome := evaluate registry (weekdayCode negated values action) x.toYmd
      ((x.weekday ∈ days ↔ negated = false) →
        (∀ e : Date, outcome = .ok (.date e.toYmd) ↔ movement.Leads x goal e) ∧
          (outcome = .ok .notApplicable ↔
            ∀ f : Date, f.weekday = goal → ¬ movement.Allows x f)) ∧
      (¬ (x.weekday ∈ days ↔ negated = false) → outcome = .ok (.date x.toYmd))) ∧
    let shift := evaluate registry "{{?D=Sat,Sun}}next Monday".toList
    (∀ x e : Date, shift x.toYmd = .ok (.date e.toYmd) ↔
      Date.IsEarliest (fun f => f.weekday.isWeekend = false ∧ x.number ≤ f.number) e) ∧
    (∀ (x : Date) (d : Ymd), shift x.toYmd = .ok (.date d) → shift d = .ok (.date d)) ∧
    ∀ x y a b : Date, shift x.toYmd = .ok (.date a.toYmd) → shift y.toYmd = .ok (.date b.toYmd) →
      x.number ≤ y.number → a.number ≤ b.number := by
  refine ⟨?_, fun x e => evaluate_weekend_eq_date_iff, ?_, ?_⟩
  · intro x days values negated movement goal action hne hvalues haction outcome
    have houtcome := evaluate_weekdayCode registry x hvalues hne negated haction
    change outcome = _ at houtcome
    constructor
    · intro hpass
      rw [if_pos hpass] at houtcome
      rw [houtcome]
      refine ⟨fun e => ?_, ?_⟩
      · rw [Except.ok.injEq, ofOption_eq_date_toYmd_iff, Date.toWeekday?_eq_some_iff]
      · rw [Except.ok.injEq, ofOption_eq_notApplicable_iff, Date.toWeekday?_eq_none_iff]
    · intro hfail
      rw [houtcome, if_neg hfail]
      rfl
  · intro x d h
    have hdate := (evaluate_weekend registry x).symm.trans h
    obtain ⟨e, -, rfl⟩ := ofOption_eq_date_iff.1 (Except.ok.inj hdate)
    have hwork := (evaluate_weekend_eq_date_iff.1 h).1.1
    exact evaluate_weekend_eq_date_iff.2 ((Date.isEarliest_from_self_iff hwork).2 rfl)
  · intro x y a b ha hb hle
    exact (evaluate_weekend_eq_date_iff.1 ha).le_of_le (evaluate_weekend_eq_date_iff.1 hb) hle

/-- A Saturday is moved, the Friday before it and the last day of all, a Monday, are not, and from
that Monday on there is no other. -/
theorem evaluate_observed_saturday :
    let days : List Weekday := [.saturday, .sunday]
    let values := ["sAT".toList, "sun".toList]
    let action := "NEXT mon".toList
    let shift := evaluate .empty "{{?D=Sat,Sun}}next Monday".toList
    let friday : Date := ⟨⟨2018, 5, 4⟩, by decide⟩
    let saturday : Date := ⟨⟨2018, 5, 5⟩, by decide⟩
    let monday : Date := ⟨⟨2018, 5, 7⟩, by decide⟩
    let last : Date := ⟨⟨262142, 12, 31⟩, by decide⟩
    (days ≠ [] ∧ AbbreviatesDays values days ∧ Movement.next.IsWritten .monday action) ∧
      Movement.next.Leads saturday .monday monday ∧
      (∀ f : Date, f.weekday = .monday → ¬ Movement.next.Allows last f) ∧
      evaluate .empty (weekdayCode false values action) last.toYmd = .ok (.date last.toYmd) ∧
      shift monday.toYmd = .ok (.date monday.toYmd) ∧ friday.number ≤ monday.number := by
  intro days values action shift friday saturday monday last
  obtain ⟨houtcome, -, htwice, horder⟩ := evaluate_observed_day .empty
  have hne : days ≠ [] := by simp [days]
  have hvalues : AbbreviatesDays values days := rfl
  have haction : Movement.next.IsWritten .monday action :=
    .behind (show Text.lower "NEXT".toList ∈ _ by decide)
      (show isNameOf _ "mon".toList = true by decide)
  obtain ⟨hmoved, -⟩ := houtcome saturday days values false .next .monday action hne hvalues haction
  obtain ⟨hlast, -⟩ := houtcome last days values true .next .monday action hne hvalues haction
  obtain ⟨-, hstays⟩ := houtcome last days values false .next .monday action hne hvalues haction
  have hsaturday : shift saturday.toYmd = .ok (.date monday.toYmd) := by decide +kernel
  have hfriday : shift friday.toYmd = .ok (.date friday.toYmd) := by decide +kernel
  refine ⟨⟨hne, hvalues, haction⟩, ?_, ?_, ?_, htwice saturday monday.toYmd hsaturday, ?_⟩
  · exact ((hmoved (by decide)).1 monday).1 (by decide +kernel)
  · exact (hlast (by decide)).2.1 (by decide +kernel)
  · exact hstays (by decide)
  · exact horder friday saturday friday monday hfriday hsaturday (by decide)

end HolidayRules

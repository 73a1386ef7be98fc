import HolidayRules.Proofs.Selection.Listing
import HolidayRules.Proofs.Selection.StableSort

set_option autoImplicit false

/-!
# The rule of a day and the holidays of its year

Both look at the outcomes of the same rules, one by date and one by the years a rule is bound to.
They start from different defaults, which do not matter to a rule with a day of its own.
-/
namespace HolidayRules

def Text.Below (s t : Text) : Prop := List.Lex (fun c d : Char => c < d) s t

namespace Rule

def HasOwnDay (r : Rule) : Prop :=
  ∃ month day, r.month = some month ∧ month ≠ 0 ∧ r.day = some day ∧ day ≠ 0

def IsBelow (a b : Rule) : Prop :=
  Text.Below a.exceptedYears b.exceptedYears ∨
    a.exceptedYears = b.exceptedYears ∧ Text.Below a.years b.years

/-- A candidate that no other is above, and the earliest one of its rank. -/
def IsForemost (r : Rule) (rules : List Rule) (candidate : Rule → Prop) : Prop :=
  candidate r ∧ ∃ before after, rules = before ++ r :: after ∧
    (∀ x ∈ before, candidate x → x.IsBelow r) ∧ ∀ x ∈ after, candidate x → ¬ r.IsBelow x

theorem IsForemost.congr {r : Rule} {rules : List Rule} {p q : Rule → Prop}
    (h : ∀ x ∈ rules, (p x ↔ q x)) (hr : r.IsForemost rules p) : r.IsForemost rules q := by
  obtain ⟨hp, before, after, rfl, hbefore, hafter⟩ := hr
  refine ⟨(h r (by simp)).1 hp, before, after, rfl, ?_, ?_⟩
  · intro x hx hq
    exact hbefore x hx ((h x (by simp [hx])).2 hq)
  · intro x hx hq
    exact hafter x hx ((h x (by simp [hx])).2 hq)

theorem orDefault_of_ne_zero {n default : Nat} (h : n ≠ 0) : orDefault (some n) default = n := by
  cases n with
  | zero => exact absurd rfl h
  | succ n => rfl

theorem start_of_hasOwnDay {r : Rule} (h : r.HasOwnDay) {a b : Ymd} (hyear : a.year = b.year) :
    r.start a = r.start b := by
  obtain ⟨month, day, hmonth, hm, hday, hd⟩ := h
  rw [start, start, hmonth, hday, hyear]
  simp only [orDefault_of_ne_zero hm, orDefault_of_ne_zero hd]

theorem outcome_of_hasOwnDay {registry : Registry} {r : Rule} (h : r.HasOwnDay) {a b : Ymd}
    (hyear : a.year = b.year) : r.outcome registry a = r.outcome registry b := by
  rw [outcome, outcome, start_of_hasOwnDay h hyear, hyear]

theorem date?_of_hasOwnDay {registry : Registry} {r : Rule} (h : r.HasOwnDay) {a b : Ymd}
    (hyear : a.year = b.year) : r.date? registry a = r.date? registry b := by
  rw [date?, date?, outcome_of_hasOwnDay h hyear]

theorem isTriedBefore_iff {a b : Rule} :
    a.isTriedBefore b = true ↔ List.le b.exceptedYears a.exceptedYears ∧
      (a.exceptedYears = b.exceptedYears → List.le b.years a.years) := by
  unfold isTriedBefore
  by_cases h : a.exceptedYears = b.exceptedYears
  · rw [if_pos h, h, Text.atMost_iff_le]
    simp [List.le]
  · rw [if_neg h, Text.atMost_iff_le]
    simp [h]

theorem isTriedBefore_iff_not_isBelow {a b : Rule} :
    a.isTriedBefore b = true ↔ ¬ a.IsBelow b := by
  rw [isTriedBefore_iff, IsBelow]
  constructor
  · rintro ⟨hexcepted, hyears⟩ (hbelow | ⟨heq, hbelow⟩)
    · exact hexcepted hbelow
    · exact hyears heq hbelow
  · intro h
    exact ⟨fun hbelow => h (.inl hbelow), fun heq hbelow => h (.inr ⟨heq, hbelow⟩)⟩

theorem isTriedBefore_trans (a b c : Rule) (hab : a.isTriedBefore b = true)
    (hbc : b.isTriedBefore c = true) : a.isTriedBefore c = true := by
  obtain ⟨hab, hyab⟩ := isTriedBefore_iff.1 hab
  obtain ⟨hbc, hybc⟩ := isTriedBefore_iff.1 hbc
  refine isTriedBefore_iff.2 ⟨List.le_trans hbc hab, ?_⟩
  intro hac
  have hb : a.exceptedYears = b.exceptedYears := by
    rw [← hac] at hbc
    exact List.le_antisymm hbc hab
  exact List.le_trans (hybc (hb ▸ hac)) (hyab hb)

theorem isTriedBefore_total (a b : Rule) : (a.isTriedBefore b || b.isTriedBefore a) = true := by
  rw [Bool.or_eq_true, isTriedBefore, isTriedBefore]
  by_cases h : a.exceptedYears = b.exceptedYears
  · rw [if_pos h, if_pos h.symm, Text.atMost_iff_le, Text.atMost_iff_le]
    exact List.le_total b.years a.years
  · rw [if_neg h, if_neg (Ne.symm h), Text.atMost_iff_le, Text.atMost_iff_le]
    exact List.le_total b.exceptedYears a.exceptedYears

end Rule

namespace Selection

variable {s : Selection} {d : Date}

theorem ruleOf?_eq_find? (h : s.Resolves s.selected d.toYmd) :
    s.ruleOf? d = .ok ((s.selected.mergeSort Rule.isTriedBefore).find?
      fun r => r.date? s.registry d.toYmd == some d.toYmd) :=
  firstOn?_eq_find? fun r hr => h r (List.mem_mergeSort.1 hr)

theorem ruleOf?_of_forall_ne (h : s.Resolves s.selected d.toYmd)
    (hne : ∀ r ∈ s.selected, r.date? s.registry d.toYmd ≠ some d.toYmd) :
    s.ruleOf? d = .ok none := by
  rw [ruleOf?_eq_find? h]
  congr 1
  rw [List.find?_eq_none]
  intro r hr
  simpa using hne r (List.mem_mergeSort.1 hr)

theorem exists_ruleOf? (h : s.Resolves s.selected d.toYmd) {r : Rule} (hr : r ∈ s.selected)
    (hdate : r.date? s.registry d.toYmd = some d.toYmd) :
    ∃ found, s.ruleOf? d = .ok (some found) ∧
      found.IsForemost s.selected fun x => x.date? s.registry d.toYmd = some d.toYmd := by
  have hsome : ((s.selected.mergeSort Rule.isTriedBefore).find?
      fun r => r.date? s.registry d.toYmd == some d.toYmd).isSome = true := by
    rw [List.find?_isSome]
    exact ⟨r, List.mem_mergeSort.2 hr, by simpa using hdate⟩
  obtain ⟨found, hfound⟩ := Option.isSome_iff_exists.1 hsome
  refine ⟨found, by rw [ruleOf?_eq_find? h, hfound], ?_, ?_⟩
  · simpa using List.find?_some hfound
  · obtain ⟨before, after, hselected, hbefore, hafter⟩ :=
      exists_of_find?_mergeSort Rule.isTriedBefore_trans Rule.isTriedBefore_total hfound
    refine ⟨before, after, hselected, ?_, ?_⟩
    · intro x hx hdate
      have hnot := hbefore x hx (by simpa using hdate)
      refine Classical.byContradiction fun hbelow => ?_
      rw [Rule.isTriedBefore_iff_not_isBelow.2 hbelow] at hnot
      cases hnot
    · intro x hx hdate
      exact Rule.isTriedBefore_iff_not_isBelow.1 (hafter x hx (by simpa using hdate))

theorem mem_holidays_iff_date? {defaults : Defaults} {list : List Holiday}
    (hown : ∀ r ∈ s.selected, r.HasOwnDay) (h : s.holidays d.year defaults = .ok list) {r : Rule} :
    (d.toYmd, r) ∈ list ↔ r ∈ s.selected ∧ r.date? s.registry d.toYmd = some d.toYmd := by
  rw [mem_holidays h]
  refine and_congr_right fun hr => ?_
  have hdate : r.date? s.registry ⟨d.year, defaults.month, defaults.day⟩ =
      r.date? s.registry d.toYmd := Rule.date?_of_hasOwnDay (hown r hr) rfl
  exact hdate ▸ Iff.rfl

theorem resolves_of_hasOwnDay {defaults : Defaults} {list : List Holiday}
    (hown : ∀ r ∈ s.selected, r.HasOwnDay) (h : s.holidays d.year defaults = .ok list) :
    s.Resolves s.selected d.toYmd := by
  intro r hr
  obtain ⟨outcome, houtcome⟩ := resolves_of_holidays h r hr
  have hdefaults : r.outcome s.registry ⟨d.year, defaults.month, defaults.day⟩ =
      r.outcome s.registry d.toYmd := Rule.outcome_of_hasOwnDay (hown r hr) rfl
  exact ⟨outcome, hdefaults ▸ houtcome⟩

/-- The rule of a day is the foremost of those that the holidays of its year pair with it. -/
theorem ruleOf?_of_holidays {defaults : Defaults} {list : List Holiday}
    (hown : ∀ r ∈ s.selected, r.HasOwnDay) (h : s.holidays d.year defaults = .ok list) :
    ((∀ r, (d.toYmd, r) ∉ list) → s.ruleOf? d = .ok none) ∧
      ((∃ r, (d.toYmd, r) ∈ list) → ∃ r, s.ruleOf? d = .ok (some r) ∧
        r.IsForemost s.selected fun x => (d.toYmd, x) ∈ list) ∧
      s.hasHoliday d = .ok (list.any fun entry => entry.1 == d.toYmd) := by
  have hresolves := resolves_of_hasOwnDay hown h
  have hnone : (∀ r, (d.toYmd, r) ∉ list) → s.ruleOf? d = .ok none := by
    intro hlist
    refine ruleOf?_of_forall_ne hresolves fun r hr hdate => ?_
    exact hlist r ((mem_holidays_iff_date? hown h).2 ⟨hr, hdate⟩)
  have hsome : (∃ r, (d.toYmd, r) ∈ list) → ∃ r, s.ruleOf? d = .ok (some r) ∧
      r.IsForemost s.selected fun x => (d.toYmd, x) ∈ list := by
    rintro ⟨r, hr⟩
    obtain ⟨hr, hdate⟩ := (mem_holidays_iff_date? hown h).1 hr
    obtain ⟨found, hfound, hforemost⟩ := exists_ruleOf? hresolves hr hdate
    refine ⟨found, hfound, hforemost.congr fun x hx => ?_⟩
    rw [mem_holidays_iff_date? hown h, and_iff_right hx]
  refine ⟨hnone, hsome, ?_⟩
  by_cases hlist : ∃ r, (d.toYmd, r) ∈ list
  · obtain ⟨found, hfound, -⟩ := hsome hlist
    rw [hasHoliday, hfound, any_date_eq_true_iff.2 hlist]
    rfl
  · have hany := Bool.eq_false_iff.2 (mt any_date_eq_true_iff.1 hlist)
    rw [hasHoliday, hnone fun r hr => hlist ⟨r, hr⟩, hany]
    rfl

/-- Three rules of one day, one for a single year and one with an excepted year. -/
def firstOfMay : Selection where
  rules := [
    { id := 1, month := some 5, day := some 1, region := "DE".toList },
    { id := 2, years := "2018".toList, month := some 5, day := some 1, region := "DE".toList },
    { id := 3, exceptedYears := "2020".toList, month := some 5, day := some 1,
      region := "DE".toList }]
  region := ⟨"DE".toList, by decide⟩
  kinds := .all
  registry := .builtin

theorem ruleOf?_firstOfMay :
    (∀ r ∈ firstOfMay.selected, r.HasOwnDay) ∧
      firstOfMay.holidays 2018 {} = .ok (firstOfMay.rules.map (⟨2018, 5, 1⟩, ·)) ∧
      (∃ r, firstOfMay.ruleOf? ⟨⟨2018, 5, 1⟩, by decide⟩ = .ok (some r) ∧
        r.IsForemost firstOfMay.selected
          fun x => (⟨2018, 5, 1⟩, x) ∈ firstOfMay.rules.map ((⟨2018, 5, 1⟩ : Ymd), ·)) ∧
      firstOfMay.hasHoliday ⟨⟨2018, 5, 1⟩, by decide⟩ = .ok true := by
  have hselected : firstOfMay.selected = firstOfMay.rules := by decide
  have hown : ∀ r ∈ firstOfMay.selected, r.HasOwnDay := by
    rw [hselected]
    simp [firstOfMay, Rule.HasOwnDay]
  have hlist : firstOfMay.holidays 2018 {} = .ok (firstOfMay.rules.map (⟨2018, 5, 1⟩, ·)) := by
    have hfound : firstOfMay.unsorted firstOfMay.selected ⟨2018, 1, 1⟩ =
        .ok (firstOfMay.rules.map (⟨2018, 5, 1⟩, ·)) := by rfl
    rw [holidays, hfound, Except.map, List.mergeSort_of_pairwise (by decide)]
  obtain ⟨-, hsome, hholiday⟩ :=
    ruleOf?_of_holidays (d := ⟨⟨2018, 5, 1⟩, by decide⟩) hown hlist
  refine ⟨hown, hlist, hsome ?_, hholiday⟩
  exact ⟨{ id := 1, month := some 5, day := some 1, region := "DE".toList }, by decide⟩

end Selection
end HolidayRules

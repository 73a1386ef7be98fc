import HolidayRules.Selection

set_option autoImplicit false

/-!
# What a selection lists

A list of holidays exists when every rule has an outcome, and pairs the rules that have a date with
it. The rule of a day is searched among the same outcomes.
-/
namespace HolidayRules

def Rule.date? (registry : Registry) (defaults : Ymd) (r : Rule) : Option Ymd :=
  match r.outcome registry defaults with
  | .ok outcome => outcome.date?
  | .error _ => none

theorem Rule.date?_of_outcome {registry : Registry} {defaults : Ymd} {r : Rule} {outcome : Outcome}
    (h : r.outcome registry defaults = .ok outcome) : r.date? registry defaults = outcome.date? := by
  rw [Rule.date?, h]

theorem Rule.exists_outcome_of_date? {registry : Registry} {defaults date : Ymd} {r : Rule}
    (h : r.date? registry defaults = some date) :
    ∃ outcome, r.outcome registry defaults = .ok outcome := by
  rw [Rule.date?] at h
  cases houtcome : r.outcome registry defaults with
  | ok outcome => exact ⟨outcome, rfl⟩
  | error e =>
    rw [houtcome] at h
    cases h

namespace Selection

variable {s : Selection} {rules : List Rule} {defaults : Ymd} {list : List Holiday}

def Resolves (s : Selection) (rules : List Rule) (defaults : Ymd) : Prop :=
  ∀ r ∈ rules, ∃ outcome, r.outcome s.registry defaults = .ok outcome

def dated (s : Selection) (rules : List Rule) (defaults : Ymd) : List Holiday :=
  rules.filterMap fun r => (r.date? s.registry defaults).map (·, r)

theorem resolves_cons {r : Rule} :
    s.Resolves (r :: rules) defaults ↔
      (∃ outcome, r.outcome s.registry defaults = .ok outcome) ∧ s.Resolves rules defaults :=
  List.forall_mem_cons

theorem unsorted_cons_of_error {r : Rule} {e : ExtensionError}
    (h : r.outcome s.registry defaults = .error e) :
    s.unsorted (r :: rules) defaults = .error e := by
  have hr : r.holiday? s.registry defaults = .error e := by
    rw [Rule.holiday?, h]
    rfl
  rw [unsorted, List.mapM_cons, hr]
  rfl

theorem unsorted_cons_of_ok {r : Rule} {outcome : Outcome}
    (h : r.outcome s.registry defaults = .ok outcome) :
    s.unsorted (r :: rules) defaults =
      (s.unsorted rules defaults).map fun list => (outcome.date?.map (·, r)).toList ++ list := by
  have hr : r.holiday? s.registry defaults = .ok (outcome.date?.map (·, r)) := by
    rw [Rule.holiday?, h]
    rfl
  rw [unsorted, unsorted, List.mapM_cons, hr]
  change ((rules.mapM (Rule.holiday? s.registry defaults)).bind _).map _ = _
  cases rules.mapM (Rule.holiday? s.registry defaults) with
  | error e => rfl
  | ok found => cases outcome <;> rfl

theorem dated_cons {r : Rule} :
    s.dated (r :: rules) defaults =
      ((r.date? s.registry defaults).map (·, r)).toList ++ s.dated rules defaults := by
  rw [dated, List.filterMap_cons]
  cases r.date? s.registry defaults <;> rfl

theorem unsorted_eq_ok_iff :
    s.unsorted rules defaults = .ok list ↔
      s.Resolves rules defaults ∧ list = s.dated rules defaults := by
  induction rules generalizing list with
  | nil =>
    change Except.ok [] = Except.ok list ↔ _
    simp [Resolves, dated, eq_comm]
  | cons r rules ih =>
    cases h : r.outcome s.registry defaults with
    | error e =>
      rw [unsorted_cons_of_error h, resolves_cons, h]
      simp
    | ok outcome =>
      rw [unsorted_cons_of_ok h, resolves_cons, dated_cons, Rule.date?_of_outcome h, h]
      cases htail : s.unsorted rules defaults with
      | error e =>
        constructor
        · intro hlist
          cases hlist
        · rintro ⟨⟨-, hrules⟩, -⟩
          have hok := ih.2 ⟨hrules, rfl⟩
          rw [htail] at hok
          cases hok
      | ok tail =>
        obtain ⟨hrules, rfl⟩ := ih.1 htail
        constructor
        · intro hlist
          cases hlist
          exact ⟨⟨⟨outcome, rfl⟩, hrules⟩, rfl⟩
        · rintro ⟨-, rfl⟩
          rfl

theorem mem_dated {entry : Holiday} :
    entry ∈ s.dated rules defaults ↔
      entry.2 ∈ rules ∧ entry.2.date? s.registry defaults = some entry.1 := by
  obtain ⟨date, r⟩ := entry
  simp only [dated, List.mem_filterMap, Option.map_eq_some_iff, Prod.mk.injEq]
  constructor
  · rintro ⟨x, hx, found, hfound, rfl, rfl⟩
    exact ⟨hx, hfound⟩
  · rintro ⟨hr, hdate⟩
    exact ⟨r, hr, date, hdate, rfl, rfl⟩

theorem exists_unsorted_of_holidays {year : Int} {defaults : Defaults}
    (h : s.holidays year defaults = .ok list) :
    ∃ found, s.unsorted s.selected ⟨year, defaults.month, defaults.day⟩ = .ok found ∧
      list = found.mergeSort Holiday.atMost := by
  rw [holidays] at h
  cases hfound : s.unsorted s.selected ⟨year, defaults.month, defaults.day⟩ with
  | error e =>
    rw [hfound] at h
    cases h
  | ok found =>
    rw [hfound] at h
    cases h
    exact ⟨found, rfl, rfl⟩

theorem resolves_of_holidays {year : Int} {defaults : Defaults}
    (h : s.holidays year defaults = .ok list) :
    s.Resolves s.selected ⟨year, defaults.month, defaults.day⟩ := by
  obtain ⟨found, hfound, -⟩ := exists_unsorted_of_holidays h
  exact (unsorted_eq_ok_iff.1 hfound).1

theorem mem_holidays {year : Int} {defaults : Defaults} {entry : Holiday}
    (h : s.holidays year defaults = .ok list) :
    entry ∈ list ↔ entry.2 ∈ s.selected ∧
      entry.2.date? s.registry ⟨year, defaults.month, defaults.day⟩ = some entry.1 := by
  obtain ⟨found, hfound, rfl⟩ := exists_unsorted_of_holidays h
  rw [List.mem_mergeSort, (unsorted_eq_ok_iff.1 hfound).2, mem_dated]

theorem any_date_eq_true_iff {date : Ymd} :
    (list.any fun entry => entry.1 == date) = true ↔ ∃ r, (date, r) ∈ list := by
  rw [List.any_eq_true]
  constructor
  · rintro ⟨⟨found, r⟩, hr, hfound⟩
    have heq : found = date := by simpa using hfound
    exact ⟨r, heq ▸ hr⟩
  · rintro ⟨r, hr⟩
    exact ⟨(date, r), hr, by simp⟩

theorem firstOn?_eq_find? {d : Date} (h : s.Resolves rules d.toYmd) :
    s.firstOn? d rules =
      .ok (rules.find? fun r => r.date? s.registry d.toYmd == some d.toYmd) := by
  induction rules with
  | nil => rfl
  | cons r rules ih =>
    obtain ⟨⟨outcome, hr⟩, hrules⟩ := resolves_cons.1 h
    have hfalls : s.fallsOn d r = .ok (outcome.date? == some d.toYmd) := by
      rw [fallsOn, hr]
      rfl
    rw [firstOn?, hfalls, List.find?_cons, Rule.date?_of_outcome hr]
    cases outcome.date? == some d.toYmd with
    | true => rfl
    | false => exact ih hrules

end Selection
end HolidayRules

import Mathlib.Data.List.Forall2
import Mathlib.Data.Set.Basic
import Mathlib.Order.SetNotation
import HolidayRules.Proofs.Text.Marks
import HolidayRules.Proofs.Text.Numerals
import HolidayRules.Proofs.Text.Trimming
import HolidayRules.YearSet

set_option autoImplicit false

/-!
# The grammar of year sets and their years

A text without blanks around it is written for at most one year set, and reading finds that set. A
rule holds in the years that its first set names and its second does not.
-/
namespace HolidayRules

/-! ## The grammar -/

structure IsYear (t : Text) (year : Nat) : Prop where
  length : t.length = 4
  digits : ∀ c ∈ t, c.isDigit = true
  value : Decimal.value t = year

inductive YearSpan.IsWritten : YearSpan → Text → Prop where
  | year {t : Text} {year : Nat} (h : IsYear t year) : IsWritten (.year year) t
  | range {s t : Text} {first last : Nat} (hfirst : IsYear s first) (hlast : IsYear t last) :
      IsWritten (.range first last) (s ++ '-' :: t)

/-- The texts of a year set without blanks around them. There may be blanks around the items of a
list, and a year alone is no list. -/
inductive YearSet.IsWritten : YearSet → Text → Prop where
  | unconstrained : IsWritten .unconstrained []
  | wildcard : IsWritten .wildcard ['*']
  | exact {t : Text} {year : Nat} (h : IsYear t year) : IsWritten (.exact year) t
  | since {t : Text} {year : Nat} (h : IsYear t year) : IsWritten (.since year) (t ++ ['-'])
  | through {t : Text} {year : Nat} (h : IsYear t year) : IsWritten (.through year) ('-' :: t)
  | list {spans : List YearSpan} {items : List Text} (hne : items ≠ [])
      (hitems : List.Forall₂ (fun span item => span.IsWritten (Text.trim item)) spans items)
      (halone : ∀ year, spans ≠ [.year year]) :
      IsWritten (.list spans) ([','].intercalate items)

def YearSpan.years : YearSpan → Set Int
  | year n => {(n : Int)}
  | range first last => {y | (first : Int) ≤ y ∧ y ≤ last}

def YearSet.years : YearSet → Set Int
  | unconstrained => Set.univ
  | exact year => {(year : Int)}
  | since year => {y | (year : Int) ≤ y}
  | through year => {y | y ≤ (year : Int)}
  | list spans => ⋃ span ∈ spans, span.years
  | wildcard | malformed => ∅

/-! ## Years and spans -/

theorem fourDigits?_eq_some_iff_isYear {t : Text} {year : Nat} :
    Decimal.fourDigits? t = some year ↔ IsYear t year := by
  rw [Decimal.fourDigits?_eq_some_iff]
  exact ⟨fun h => ⟨h.1, h.2.1, h.2.2⟩, fun h => ⟨h.length, h.digits, h.value⟩⟩

theorem fourDigits?_of_length {t : Text} (h : t.length ≠ 4) : Decimal.fourDigits? t = none := by
  apply Option.eq_none_iff_forall_ne_some.2
  intro year hyear
  exact h (fourDigits?_eq_some_iff_isYear.1 hyear).length

theorem IsYear.not_mem {t : Text} {year : Nat} (h : IsYear t year) {c : Char}
    (hc : c.isDigit = false) : c ∉ t := by
  intro hmem
  rw [h.digits c hmem] at hc
  cases hc

namespace YearSpan

theorem parse?_eq_some_iff {t : Text} {span : YearSpan} :
    YearSpan.parse? t = some span ↔ span.IsWritten t := by
  constructor
  · intro h
    unfold YearSpan.parse? at h
    split at h
    next year hyear =>
      cases h
      exact .year (fourDigits?_eq_some_iff_isYear.1 hyear)
    next =>
      obtain ⟨⟨s, rest⟩, hcut, h⟩ := Option.bind_eq_some_iff.1 h
      obtain ⟨first, hfirst, h⟩ := Option.bind_eq_some_iff.1 h
      obtain ⟨last, hlast, h⟩ := Option.bind_eq_some_iff.1 h
      cases h
      rw [Text.eq_of_cut? hcut, List.append_assoc]
      exact .range (fourDigits?_eq_some_iff_isYear.1 hfirst)
        (fourDigits?_eq_some_iff_isYear.1 hlast)
  · intro h
    unfold YearSpan.parse?
    cases h with
    | year h => rw [fourDigits?_eq_some_iff_isYear.2 h]
    | @range s t first last hfirst hlast =>
      have hlength : (s ++ '-' :: t).length ≠ 4 := by
        rw [List.length_append, List.length_cons, hfirst.length, hlast.length]
        decide
      have hdash : '-' ∉ s := hfirst.not_mem (by decide)
      rw [fourDigits?_of_length hlength]
      simp [Text.cut?_of_not_mem hdash, fourDigits?_eq_some_iff_isYear.2 hfirst,
        fourDigits?_eq_some_iff_isYear.2 hlast]

theorem length_of_isWritten_range {first last : Nat} {t : Text}
    (h : (range first last).IsWritten t) : t.length = 9 := by
  cases h with
  | range hfirst hlast =>
    rw [List.length_append, List.length_cons, hfirst.length, hlast.length]

theorem IsWritten.four_le_length {span : YearSpan} {t : Text} (h : span.IsWritten t) :
    4 ≤ t.length := by
  cases span with
  | year =>
    cases h with
    | year h => exact Nat.le_of_eq h.length.symm
  | range =>
    rw [length_of_isWritten_range h]
    decide

theorem IsWritten.comma_not_mem {span : YearSpan} {t : Text} (h : span.IsWritten t) : ',' ∉ t := by
  cases h with
  | year h => exact h.not_mem (by decide)
  | range hfirst hlast =>
    rw [List.mem_append, List.mem_cons]
    rintro (hc | hc | hc)
    · exact hfirst.not_mem (by decide) hc
    · cases hc
    · exact hlast.not_mem (by decide) hc

theorem contains_iff_mem_years {span : YearSpan} {y : Int} : span.contains y = true ↔ y ∈ span.years := by
  cases span with
  | year n => exact decide_eq_true_iff
  | range first last =>
    change (decide ((first : Int) ≤ y) && decide (y ≤ (last : Int))) = true ↔ _
    rw [Bool.and_eq_true, decide_eq_true_iff, decide_eq_true_iff]
    rfl

end YearSpan

namespace YearSet

/-! ## Open ranges -/

theorem since?_eq_some_iff {t : Text} {year : Nat} :
    since? t = some year ↔ ∃ digits, IsYear digits year ∧ t = digits ++ ['-'] := by
  unfold since?
  constructor
  · intro h
    split at h
    next hlast =>
      obtain ⟨digits, rfl⟩ := List.getLast?_eq_some_iff.1 hlast
      rw [List.dropLast_concat] at h
      exact ⟨digits, fourDigits?_eq_some_iff_isYear.1 h, rfl⟩
    next => cases h
  · rintro ⟨digits, hdigits, rfl⟩
    rw [if_pos List.getLast?_concat, List.dropLast_concat]
    exact fourDigits?_eq_some_iff_isYear.2 hdigits

theorem through?_eq_some_iff {t : Text} {year : Nat} :
    through? t = some year ↔ ∃ digits, IsYear digits year ∧ t = '-' :: digits := by
  constructor
  · intro h
    unfold through? at h
    split at h
    next digits => exact ⟨digits, fourDigits?_eq_some_iff_isYear.1 h, rfl⟩
    next => cases h
  · rintro ⟨digits, hdigits, rfl⟩
    exact fourDigits?_eq_some_iff_isYear.2 hdigits

theorem since?_of_length {t : Text} (h : t.length ≠ 5) : since? t = none := by
  apply Option.eq_none_iff_forall_ne_some.2
  intro year hyear
  obtain ⟨digits, hdigits, rfl⟩ := since?_eq_some_iff.1 hyear
  rw [List.length_append, hdigits.length] at h
  exact h rfl

theorem through?_of_length {t : Text} (h : t.length ≠ 5) : through? t = none := by
  apply Option.eq_none_iff_forall_ne_some.2
  intro year hyear
  obtain ⟨digits, hdigits, rfl⟩ := through?_eq_some_iff.1 hyear
  rw [List.length_cons, hdigits.length] at h
  exact h rfl

theorem since?_of_dash (t : Text) : since? ('-' :: t) = none := by
  apply Option.eq_none_iff_forall_ne_some.2
  intro year hyear
  obtain ⟨digits, hdigits, heq⟩ := since?_eq_some_iff.1 hyear
  cases digits with
  | nil => cases hdigits.length
  | cons c digits =>
    cases heq
    exact hdigits.not_mem (by decide) List.mem_cons_self

/-! ## Lists -/

theorem mapM_eq_some_iff {α β : Type} {f : α → Option β} {l : List α} {r : List β} :
    l.mapM f = some r ↔ List.Forall₂ (fun b a => f a = some b) r l := by
  induction l generalizing r with
  | nil => simp [eq_comm]
  | cons a l ih =>
    rw [List.mapM_cons]
    constructor
    · intro h
      obtain ⟨b, hb, h⟩ := Option.bind_eq_some_iff.1 h
      obtain ⟨more, hmore, h⟩ := Option.bind_eq_some_iff.1 h
      cases h
      exact .cons hb (ih.1 hmore)
    · rintro (_ | ⟨hb, hmore⟩)
      rw [hb, ih.2 hmore]
      rfl

theorem list?_eq_some_iff {t : Text} {spans : List YearSpan} :
    list? t = some spans ↔
      List.Forall₂ (fun span item => span.IsWritten (Text.trim item)) spans (t.splitOn ',') := by
  unfold list?
  rw [mapM_eq_some_iff]
  simp only [YearSpan.parse?_eq_some_iff]

variable {spans : List YearSpan} {items : List Text}

theorem comma_not_mem_items
    (h : List.Forall₂ (fun span item => span.IsWritten (Text.trim item)) spans items) :
    ∀ item ∈ items, ',' ∉ item := by
  induction h with
  | nil => simp
  | cons hspan hmore ih =>
    refine List.forall_mem_cons.2 ⟨?_, ih⟩
    rw [← Text.mem_trim_iff (by decide)]
    exact hspan.comma_not_mem

theorem nine_le_length (hne : items ≠ [])
    (h : List.Forall₂ (fun span item => span.IsWritten (Text.trim item)) spans items)
    (halone : ∀ year, spans ≠ [.year year]) : 9 ≤ ([','].intercalate items).length := by
  cases h with
  | nil => exact absurd rfl hne
  | @cons span item spans items hspan hmore =>
    have hitem := Text.length_trim_le item
    rw [Text.intercalate_cons, List.length_append]
    cases hmore with
    | nil =>
      cases span with
      | year n => exact absurd rfl (halone n)
      | range =>
        have hrange := YearSpan.length_of_isWritten_range hspan
        omega
    | @cons _ next _ rest hnext =>
      have hfirst := hspan.four_le_length
      have hsecond := hnext.four_le_length
      have hnextItem := Text.length_trim_le next
      rw [List.flatMap_cons, List.length_append, List.length_cons]
      omega

/-! ## Reading -/

theorem ofTrimmed_of_isWritten {set : YearSet} {t : Text} (h : set.IsWritten t) :
    ofTrimmed t = set := by
  have hlong (hlength : 4 ≤ t.length) : t ≠ [] ∧ t ≠ ['*'] := by
    constructor <;> rintro rfl <;> exact absurd hlength (by decide)
  unfold ofTrimmed
  cases h with
  | unconstrained => rfl
  | wildcard => rfl
  | exact h =>
    obtain ⟨hnil, hstar⟩ := hlong h.length.ge
    rw [if_neg hnil, if_neg hstar, fourDigits?_eq_some_iff_isYear.2 h]
  | @since digits year h =>
    have hlength : (digits ++ ['-']).length = 5 := by
      rw [List.length_append, h.length]
      rfl
    obtain ⟨hnil, hstar⟩ := hlong (by omega)
    rw [if_neg hnil, if_neg hstar, fourDigits?_of_length (by omega),
      since?_eq_some_iff.2 ⟨digits, h, rfl⟩]
  | @through digits year h =>
    have hlength : ('-' :: digits).length = 5 := by rw [List.length_cons, h.length]
    obtain ⟨hnil, hstar⟩ := hlong (by omega)
    rw [if_neg hnil, if_neg hstar, fourDigits?_of_length (by omega), since?_of_dash,
      through?_eq_some_iff.2 ⟨digits, h, rfl⟩]
  | @list spans items hne hitems halone =>
    have hlength := nine_le_length hne hitems halone
    obtain ⟨hnil, hstar⟩ := hlong (by omega)
    have hlist : list? ([','].intercalate items) = some spans := by
      rw [list?_eq_some_iff, List.splitOn_intercalate ',' (comma_not_mem_items hitems) hne]
      exact hitems
    rw [if_neg hnil, if_neg hstar, fourDigits?_of_length (by omega), since?_of_length (by omega),
      through?_of_length (by omega), hlist]
    rfl

theorem not_alone_of_list? {t : Text} (ht : t.IsTrimmed) (hdigits : Decimal.fourDigits? t = none)
    {spans : List YearSpan} (h : list? t = some spans) (year : Nat) : spans ≠ [.year year] := by
  rintro rfl
  have hitems := list?_eq_some_iff.1 h
  generalize hsplit : t.splitOn ',' = items at hitems
  obtain ⟨item, _, hitem, hnil, rfl⟩ := List.forall₂_cons_left_iff.1 hitems
  cases hnil
  have htext : [','].intercalate (t.splitOn ',') = t := List.intercalate_splitOn ','
  rw [hsplit, List.intercalate_singleton] at htext
  rw [htext, Text.trim_eq_self ht] at hitem
  cases hitem with
  | year hyear =>
    rw [fourDigits?_eq_some_iff_isYear.2 hyear] at hdigits
    cases hdigits

theorem isWritten_ofTrimmed {t : Text} (ht : t.IsTrimmed) (hm : ofTrimmed t ≠ malformed) :
    (ofTrimmed t).IsWritten t := by
  unfold ofTrimmed at hm ⊢
  by_cases hnil : t = []
  · subst hnil
    exact .unconstrained
  by_cases hstar : t = ['*']
  · subst hstar
    exact .wildcard
  rw [if_neg hnil, if_neg hstar] at hm ⊢
  split
  next year hyear => exact .exact (fourDigits?_eq_some_iff_isYear.1 hyear)
  next hdigits =>
    split
    next year hsince =>
      obtain ⟨digits, hyear, rfl⟩ := since?_eq_some_iff.1 hsince
      exact .since hyear
    next hsince =>
      split
      next year hthrough =>
        obtain ⟨digits, hyear, rfl⟩ := through?_eq_some_iff.1 hthrough
        exact .through hyear
      next hthrough =>
        simp only [hdigits, hsince, hthrough] at hm
        cases hlist : list? t with
        | none => exact absurd (by rw [hlist]; rfl) hm
        | some spans =>
          have hwritten := IsWritten.list (List.splitOn_ne_nil _ _) (list?_eq_some_iff.1 hlist)
            (not_alone_of_list? ht hdigits hlist)
          rwa [List.intercalate_splitOn] at hwritten

theorem parse_eq_of_isWritten {set : YearSet} {t : Text} (h : set.IsWritten t.trim) : parse t = set :=
  ofTrimmed_of_isWritten h

theorem isWritten_parse_iff {t : Text} : (parse t).IsWritten t.trim ↔ parse t ≠ malformed := by
  constructor
  · intro h hm
    rw [hm] at h
    cases h
  · exact isWritten_ofTrimmed (Text.isTrimmed_trim t)

theorem exists_isWritten_iff {P : YearSet → Prop} {t : Text} :
    (∃ set : YearSet, set.IsWritten t.trim ∧ P set) ↔ parse t ≠ malformed ∧ P (parse t) := by
  constructor
  · rintro ⟨set, hset, hP⟩
    obtain rfl := parse_eq_of_isWritten hset
    exact ⟨isWritten_parse_iff.1 hset, hP⟩
  · rintro ⟨hm, hP⟩
    exact ⟨parse t, isWritten_parse_iff.2 hm, hP⟩

/-! ## Holding -/

theorem contains_iff_mem_years {set : YearSet} {y : Int} : set.contains y = true ↔ y ∈ set.years := by
  cases set with
  | unconstrained => simp [contains, years]
  | exact year => exact decide_eq_true_iff
  | since year => exact decide_eq_true_iff
  | through year => exact decide_eq_true_iff
  | list spans => simp [contains, years, YearSpan.contains_iff_mem_years]
  | wildcard => simp [contains, years]
  | malformed => simp [contains, years]

theorem contains_eq_true_iff {set : YearSet} {y : Int} :
    set.contains y = true ↔
      set ≠ malformed ∧ set ≠ wildcard ∧ (set = unconstrained ∨ y ∈ set.years) := by
  rw [← contains_iff_mem_years]
  cases set <;> simp [contains]

theorem excepts_eq_false_iff {set : YearSet} {y : Int} :
    set.excepts y = false ↔
      set ≠ malformed ∧ set ≠ wildcard ∧ (set = unconstrained ∨ y ∉ set.years) := by
  rw [← contains_iff_mem_years, Bool.not_eq_true]
  cases set <;> simp [excepts]

/-- But for blanks around it, a text is read as the year set that it is written for, and as malformed
if there is none. A rule holds in a year if both of its texts can be read, neither is the wildcard, the
exceptions do not name the year, and its own years, unless they are left out, do. -/
theorem parse_eq_iff_and_holdsIn_iff :
    (∀ t set, parse t = set ↔
      set.IsWritten t.trim ∨ set = malformed ∧ ∀ other : YearSet, ¬ other.IsWritten t.trim) ∧
    (∀ ys es year, holdsIn (parse ys) (parse es) year = true ↔
      (∃ excepted : YearSet, excepted.IsWritten es.trim ∧ excepted ≠ wildcard ∧
        (excepted = unconstrained ∨ year ∉ excepted.years)) ∧
      ∃ named : YearSet, named.IsWritten ys.trim ∧ named ≠ wildcard ∧
        (named = unconstrained ∨ year ∈ named.years)) ∧
    ∀ first last, (YearSpan.range first last).years = ∅ ↔ last < first := by
  refine ⟨?_, ?_, ?_⟩
  · intro t set
    constructor
    · rintro rfl
      by_cases hm : parse t = malformed
      · refine .inr ⟨hm, fun other hother => ?_⟩
        rw [parse_eq_of_isWritten hother] at hm
        subst hm
        cases hother
      · exact .inl (isWritten_parse_iff.2 hm)
    · rintro (h | ⟨rfl, hnone⟩)
      · exact parse_eq_of_isWritten h
      · by_contra hm
        exact hnone _ (isWritten_parse_iff.2 hm)
  · intro ys es year
    unfold holdsIn
    rw [Bool.and_eq_true, Bool.not_eq_true', excepts_eq_false_iff, contains_eq_true_iff,
      exists_isWritten_iff, exists_isWritten_iff]
  · intro first last
    rw [Set.eq_empty_iff_forall_notMem]
    constructor
    · intro hnone
      by_contra hle
      exact hnone first ⟨Int.le_refl _, by omega⟩
    · rintro hlast y ⟨hfirst, hy⟩
      omega

example : parse " 2015, 2019-2017 ".toList = .list [.year 2015, .range 2019 2017] := by
  decide +kernel

end YearSet
end HolidayRules

import HolidayRules.Date.Movement

set_option autoImplicit false

/-!
# Counting days and weekdays

A date is known by its number, so that moving by days is an addition as long as the numbers stay
within the supported years. The distances between weekdays lead from any day to the weekday asked
for, forwards and backwards.
-/
namespace HolidayRules

def HasFourDigits (year : Int) : Prop := 0 ≤ year ∧ year ≤ 9999

instance (year : Int) : Decidable (HasFourDigits year) := by
  unfold HasFourDigits
  infer_instance

theorem daysBeforeYear_succ_bounds (year : Int) :
    daysBeforeYear year + 365 ≤ daysBeforeYear (year + 1) ∧
      daysBeforeYear (year + 1) ≤ daysBeforeYear year + 366 := by
  have hsucc := daysBeforeYear_succ year
  unfold yearLength at hsucc
  split at hsucc <;> omega

namespace Date

theorem daysLater?_eq_some_iff {d e : Date} {days : Int} :
    d.daysLater? days = some e ↔ e.number = d.number + days :=
  ofNumber?_eq_some_iff

@[simp] theorem daysLater?_zero (d : Date) : d.daysLater? 0 = some d := by
  rw [daysLater?_eq_some_iff]
  omega

@[simp] theorem workingDaysLater?_zero (d : Date) : d.workingDaysLater? 0 = some d := rfl

theorem eq_of_number_eq {d e : Date} (h : d.number = e.number) : d = e := by
  have hd := ofNumber?_number d
  rw [h, ofNumber?_number] at hd
  exact (Option.some.inj hd).symm

theorem le_year_iff {d : Date} {year : Int} : year ≤ d.year ↔ daysBeforeYear year < d.number := by
  obtain ⟨hl, hu⟩ := d.year_bounds
  constructor
  · intro h
    have := daysBeforeYear_mono h
    omega
  · intro h
    refine Int.not_lt.1 fun hlt => ?_
    have := daysBeforeYear_mono (show d.year + 1 ≤ year by omega)
    omega

theorem year_eq_of_number {d : Date} {year : Int} (hl : daysBeforeYear year < d.number)
    (hu : d.number ≤ daysBeforeYear (year + 1)) : d.year = year := by
  have hle := le_year_iff.2 hl
  have hlt := mt (@le_year_iff d (year + 1)).1 (by omega)
  omega

theorem exists_number_eq {year n : Int} (hy : minYear ≤ year ∧ year ≤ maxYear)
    (hl : daysBeforeYear year < n) (hu : n ≤ daysBeforeYear (year + 1)) :
    ∃ d : Date, d.number = n := by
  have hmin := daysBeforeYear_mono hy.1
  have hmax := daysBeforeYear_mono (show year + 1 ≤ maxYear + 1 by omega)
  have hs : (ofNumber? n).isSome := ofNumber?_isSome_iff.2 ⟨by omega, by omega⟩
  obtain ⟨d, hd⟩ := Option.isSome_iff_exists.1 hs
  exact ⟨d, number_of_ofNumber? hd⟩

def IsEarliest (P : Date → Prop) (e : Date) : Prop := P e ∧ ∀ f, P f → e.number ≤ f.number

def IsLatest (P : Date → Prop) (e : Date) : Prop := P e ∧ ∀ f, P f → f.number ≤ e.number

theorem IsEarliest.unique {P : Date → Prop} {d e : Date} (hd : IsEarliest P d)
    (he : IsEarliest P e) : d = e :=
  eq_of_number_eq (Int.le_antisymm (hd.2 e he.1) (he.2 d hd.1))

theorem isEarliest_of_find? {l : List Date} {p : Date → Bool} {e : Date}
    (hl : l.Pairwise fun d f => d.number < f.number) (h : l.find? p = some e) :
    IsEarliest (fun f => f ∈ l ∧ p f = true) e := by
  obtain ⟨hp, before, behind, rfl, hbefore⟩ := List.find?_eq_some_iff_append.1 h
  refine ⟨⟨by simp, hp⟩, ?_⟩
  rintro f ⟨hmem, hf⟩
  rcases List.mem_append.1 hmem with hmem | hmem
  · have hfails := hbefore f hmem
    rw [hf] at hfails
    cases hfails
  · rcases List.mem_cons.1 hmem with rfl | hmem
    · exact Int.le_refl _
    · have hlater := (List.pairwise_cons.1 (List.pairwise_append.1 hl).2.1).1 f hmem
      exact Int.le_of_lt hlater

theorem find?_eq_some_iff_isEarliest {l : List Date} {p : Date → Bool} {e : Date}
    (hl : l.Pairwise fun d f => d.number < f.number) :
    l.find? p = some e ↔ IsEarliest (fun f => f ∈ l ∧ p f = true) e := by
  constructor
  · exact isEarliest_of_find? hl
  · intro h
    cases hfind : l.find? p with
    | none => exact absurd h.1.2 (List.find?_eq_none.1 hfind e h.1.1)
    | some d => rw [(isEarliest_of_find? hl hfind).unique h]

end Date

namespace Weekday

theorem index_injective {a b : Weekday} (h : a.index = b.index) : a = b := by
  rw [← ofIndex_index a, h, ofIndex_index]

theorem ofNumber_eq_iff {n : Int} {w : Weekday} : ofNumber n = w ↔ (n - 1) % 7 = w.index := by
  have hn := index_ofNumber n
  constructor
  · rintro rfl
    exact hn.symm
  · intro h
    apply index_injective
    omega

theorem daysUntil_lt (start goal : Weekday) : start.daysUntil goal < 7 :=
  Nat.mod_lt _ (by decide)

theorem ofNumber_add_daysUntil (n : Int) (w : Weekday) :
    ofNumber (n + (ofNumber n).daysUntil w) = w := by
  have hn := index_ofNumber n
  have hw := index_lt w
  rw [ofNumber_eq_iff]
  unfold daysUntil
  omega

theorem ofNumber_sub_daysUntil (n : Int) (w : Weekday) :
    ofNumber (n - w.daysUntil (ofNumber n)) = w := by
  have hn := index_ofNumber n
  have hw := index_lt w
  rw [ofNumber_eq_iff]
  unfold daysUntil
  omega

theorem ofNumber_add_weeks (n k : Int) : ofNumber (n + k * 7) = ofNumber n := by
  have hn := index_ofNumber n
  rw [ofNumber_eq_iff]
  omega

theorem eq_of_ofNumber_eq {m n : Int} (h : ofNumber m = ofNumber n)
    (hnear : m < n + 7 ∧ n < m + 7) : m = n := by
  have hm := index_ofNumber m
  have hn := index_ofNumber n
  rw [h] at hm
  omega

end Weekday
end HolidayRules

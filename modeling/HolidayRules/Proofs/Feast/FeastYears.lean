import HolidayRules.Feast.Passover
import HolidayRules.Proofs.Feast.JulianEaster

set_option autoImplicit false

/-!
# The years of feasts

Easter falls into the year it is asked for. Passover does so as long as the linear formula holds, and
for years far away it stays on the same side of the years with four digits.
-/
namespace HolidayRules

theorem Date.number_of_march {year : Int} {day : Nat} {d : Date}
    (h : (Ymd.mk year 3 day).date? = some d) :
    d.number = daysBeforeYear year + daysBeforeMonth year 3 + day := by
  unfold number
  rw [← Ymd.date?_eq_some_iff.1 h]

theorem daysBeforeMonth_march_bounds (year : Int) :
    59 ≤ daysBeforeMonth year 3 ∧ daysBeforeMonth year 3 ≤ 60 := by
  cases h : isLeap year <;> simp [daysBeforeMonth, monthLength, h]

namespace Easter

theorem fullMoon_bounds (rite : Rite) (year : Int) :
    0 ≤ fullMoon rite year ∧ fullMoon rite year ≤ 28 := by
  have hmean : 0 ≤ meanFullMoon rite year ∧ meanFullMoon rite year < 30 := by
    cases rite <;> exact ⟨Int.emod_nonneg _ (by decide), Int.emod_lt_of_pos _ (by decide)⟩
  unfold fullMoon
  dsimp only
  split <;> omega

theorem daysAfterEquinox_bounds (rite : Rite) (year : Int) :
    1 ≤ daysAfterEquinox rite year ∧ daysAfterEquinox rite year ≤ 35 := by
  have hmoon := fullMoon_bounds rite year
  unfold daysAfterEquinox
  dsimp only
  omega

theorem number_of_equinox {rite : Rite} {year : Int} {d : Date}
    (h : (equinox rite year).date? = some d) :
    equinoxNumber year ≤ d.number ∧ d.number ≤ equinoxNumber year + 13 := by
  have hd := Ymd.date?_eq_some_iff.1 h
  have hm : daysBeforeMonth year 4 = daysBeforeMonth year 3 + 31 := rfl
  unfold Date.number equinoxNumber
  rw [← hd]
  cases rite
  · change _ ≤ daysBeforeYear year + daysBeforeMonth year 3 + (21 : Nat) ∧
      daysBeforeYear year + daysBeforeMonth year 3 + (21 : Nat) ≤ _
    omega
  · change _ ≤ daysBeforeYear year + daysBeforeMonth year 4 + (3 : Nat) ∧
      daysBeforeYear year + daysBeforeMonth year 4 + (3 : Nat) ≤ _
    omega

theorem year_of_date? {rite : Rite} {year : Int} {d : Date} (h : date? rite year = some d) :
    d.year = year := by
  unfold date? at h
  obtain ⟨start, hstart, h⟩ := Option.bind_eq_some_iff.1 h
  obtain ⟨day, hday, hback⟩ := Option.bind_eq_some_iff.1 h
  rw [Date.daysLater?_eq_some_iff] at hday hback
  have hequinox := number_of_equinox hstart
  have hafter := daysAfterEquinox_bounds rite year
  have hsunday := Weekday.daysUntil_lt .sunday day.weekday
  have hmarch := daysBeforeMonth_march year
  have hbounds := daysBeforeMonth_march_bounds year
  have hyear := daysBeforeYear_succ year
  unfold equinoxNumber at hequinox
  exact Date.year_eq_of_number (by omega) (by omega)

end Easter

namespace Passover

theorem moonParts_bounds (year : Int) :
    -9000000000 ≤ moonParts year + 3177794 * year ∧
      moonParts year + 3177794 * year ≤ 49000000000 := by
  have hlunar := Int.tmod_lt_of_pos (12 * year + 12) (show (0 : Int) < 19 by decide)
  have hlunar' := Int.lt_tmod_of_pos (12 * year + 12) (show (0 : Int) < 19 by decide)
  have hleap := Int.tmod_lt_of_pos year (show (0 : Int) < 4 by decide)
  have hleap' := Int.lt_tmod_of_pos year (show (0 : Int) < 4 by decide)
  unfold moonParts lunarPlace leapPlace
  omega

theorem moonDay_bounds (year : Int) :
    dayParts * moonDay year - dayParts < moonParts year ∧
      moonParts year < dayParts * moonDay year + dayParts := by
  have hdiv := Int.mul_tdiv_add_tmod (moonParts year) dayParts
  have hmod := Int.tmod_lt_of_pos (moonParts year) (show 0 < dayParts by decide)
  have hmod' := Int.lt_tmod_of_pos (moonParts year) (show 0 < dayParts by decide)
  unfold moonDay
  omega

theorem delay_bounds (year : Int) : 0 ≤ delay year ∧ delay year ≤ 2 := by
  unfold delay
  dsimp only
  split
  · decide
  · split
    · decide
    · split <;> decide

theorem hasFourDigits_of_date? {year : Int} {d : Date} (h : date? year = some d) :
    HasFourDigits d.year ↔ HasFourDigits year := by
  unfold date? at h
  obtain ⟨start, hstart, hday⟩ := Option.bind_eq_some_iff.1 h
  rw [Date.daysLater?_eq_some_iff] at hday
  have hnumber := Date.number_of_march hstart
  have hmarch := daysBeforeMonth_march_bounds year
  have hdelay := delay_bounds year
  have hmoon := moonDay_bounds year
  have hparts := moonParts_bounds year
  unfold dayParts at hmoon
  have hfirst : 0 ≤ d.year ↔ 0 ≤ year := by
    rw [Date.le_year_iff]
    unfold daysBeforeYear at hnumber ⊢
    omega
  have hlast : 10000 ≤ d.year ↔ 10000 ≤ year := by
    rw [Date.le_year_iff]
    unfold daysBeforeYear at hnumber ⊢
    omega
  unfold HasFourDigits
  omega

end Passover
end HolidayRules

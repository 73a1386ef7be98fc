import HolidayRules.Proofs.Chain.LeastWord
import HolidayRules.Proofs.Except
import HolidayRules.Proofs.Template.YearList

set_option autoImplicit false

/-!
# Codes that call an unknown extension

The only error of a code is a first call that the registry does not know, counted after the year's
entry has taken the place of the first year list. All else that a code takes from the registry is the
answer to that call.
-/
namespace HolidayRules.Template

/-- The template for a year: the template itself if it has no year list, else the template with the
entry of the year in the place of its first list. -/
inductive IsChoice (year : Int) : Template → Template → Prop where
  | whole {t : Template} (h : t.HasNoYears) : IsChoice year t t
  | entry {before after entry : Template} {first k : Nat} {entries : List Template}
      (hbefore : before.HasNoYears) (hyear : year = first + k) (hentry : entries[k]? = some entry) :
      IsChoice year (before ++ .years first entries :: after) (before ++ (entry ++ after))

def IsFirstCall (name : Text) (t : Template) : Prop :=
  ∃ before after, t = before ++ .call name :: after ∧ ∀ other, Piece.call other ∉ before

theorem entryFor?_eq_some_iff {first : Nat} {entries : List Template} {year : Int}
    {entry : Template} :
    entryFor? first entries year = some entry ↔
      ∃ k : Nat, year = first + k ∧ entries[k]? = some entry := by
  constructor
  · intro h
    unfold entryFor? at h
    split at h
    next => cases h
    next hle => exact ⟨(year - first).toNat, by omega, h⟩
  · rintro ⟨k, hyear, hentry⟩
    rw [entryFor?_of_eq hyear, hentry]

theorem isChoice_cons {year : Int} {piece : Piece} {t chosen : Template}
    (hp : ∀ first entries, piece ≠ .years first entries) (h : IsChoice year t chosen) :
    IsChoice year (piece :: t) (piece :: chosen) := by
  have hcons {a : Template} (ha : a.HasNoYears) : HasNoYears (piece :: a) := by
    intro first entries hmem
    rcases List.mem_cons.1 hmem with hmem | hmem
    · exact hp first entries hmem.symm
    · exact ha first entries hmem
  cases h with
  | whole h => exact .whole (hcons h)
  | entry hbefore hyear hentry => exact .entry (hcons hbefore) hyear hentry

theorem choose?_eq_some_iff {year : Int} {t chosen : Template} :
    choose? year t = some chosen ↔ IsChoice year t chosen := by
  constructor
  · intro h
    induction t generalizing chosen with
    | nil =>
      cases h
      exact .whole (by simp [HasNoYears])
    | cons piece t ih =>
      cases piece with
      | years first entries =>
        obtain ⟨entry, hentry, rfl⟩ := Option.map_eq_some_iff.1 h
        obtain ⟨k, hyear, hentry⟩ := entryFor?_eq_some_iff.1 hentry
        have hnone : HasNoYears [] := by simp [HasNoYears]
        exact .entry hnone hyear hentry
      | text | slot | call =>
        obtain ⟨rest, hrest, rfl⟩ := Option.map_eq_some_iff.1 h
        exact isChoice_cons (by simp) (ih hrest)
  · intro h
    cases h with
    | whole h => exact choose?_of_hasNoYears h year
    | entry hbefore hyear hentry =>
      rw [choose?_append_years hbefore, entryFor?_of_eq hyear, hentry]
      rfl

theorem IsChoice.unique {year : Int} {t a b : Template} (ha : IsChoice year t a)
    (hb : IsChoice year t b) : a = b := by
  rw [← choose?_eq_some_iff] at ha hb
  exact Option.some.inj (ha.symm.trans hb)

theorem firstCall?_eq_some_iff {t : Template} {name : Text} :
    firstCall? t = some name ↔ IsFirstCall name t := by
  constructor
  · intro h
    induction t with
    | nil => cases h
    | cons piece t ih =>
      cases piece with
      | call other =>
        cases h
        exact ⟨[], t, rfl, by simp⟩
      | text | slot | years =>
        obtain ⟨before, after, rfl, hnone⟩ := ih h
        exact ⟨_ :: before, after, rfl, by simpa using hnone⟩
  · rintro ⟨before, after, rfl, hnone⟩
    induction before with
    | nil => rfl
    | cons piece before ih =>
      cases piece with
      | call other => exact absurd List.mem_cons_self (hnone other)
      | _ => exact ih fun other hmem => hnone other (List.mem_cons_of_mem _ hmem)

/-! ## The registry -/

def CallsUnknown (registry : Registry) (year : Int) (t : Template) (name : Text) : Prop :=
  ∃ chosen, IsChoice year t chosen ∧ IsFirstCall name chosen ∧ registry.contains name = false

theorem call_eq_error_iff {registry : Registry} {name : Text} {d : Ymd} {e : ExtensionError} :
    registry.call name d = .error e ↔ registry.contains name = false ∧ e = .unknown name := by
  unfold Registry.call Registry.contains
  cases registry.get? name with
  | none => simp [eq_comm]
  | some extension => simp

theorem expand_eq_error_iff {registry : Registry} {d : Ymd} {t : Template} {e : ExtensionError} :
    expand registry d t = .error e ↔
      ∃ name, IsFirstCall name t ∧ registry.contains name = false ∧ e = .unknown name := by
  simp only [← firstCall?_eq_some_iff, ← call_eq_error_iff (d := d)]
  unfold expand
  cases firstCall? t with
  | none => simp
  | some name =>
    cases hcall : registry.call name d with
    | error e' => simp [hcall]
    | ok answer => cases answer <;> simp [hcall]

theorem evaluate_of_isChoice (registry : Registry) {t chosen : Template} {d : Ymd}
    (h : IsChoice d.year t chosen) :
    t.evaluate registry d =
      (chosen.expand registry d).map fun text =>
        text.elim .notApplicable fun text => Chain.outcome text d := by
  unfold Template.evaluate
  rw [choose?_eq_some_iff.2 h]
  cases hexpand : chosen.expand registry d with
  | error e => simp [hexpand, Except.map]
  | ok text => cases text <;> simp [hexpand, Except.map]

theorem evaluate_of_not_isChoice (registry : Registry) {t : Template} {d : Ymd}
    (h : ∀ chosen, ¬ IsChoice d.year t chosen) : t.evaluate registry d = .ok .notApplicable := by
  unfold Template.evaluate
  cases hchosen : choose? d.year t with
  | none => rfl
  | some chosen => exact absurd (choose?_eq_some_iff.1 hchosen) (h chosen)

theorem evaluate_eq_error_iff {registry : Registry} {t : Template} {d : Ymd} {e : ExtensionError} :
    t.evaluate registry d = .error e ↔
      ∃ name, CallsUnknown registry d.year t name ∧ e = .unknown name := by
  by_cases hchoice : ∃ chosen, IsChoice d.year t chosen
  · obtain ⟨chosen, hchosen⟩ := hchoice
    have hexpand : t.evaluate registry d = .error e ↔ chosen.expand registry d = .error e := by
      rw [evaluate_of_isChoice registry hchosen]
      cases chosen.expand registry d <;> simp [Except.map]
    rw [hexpand, expand_eq_error_iff]
    constructor
    · rintro ⟨name, hcall, hunknown, rfl⟩
      exact ⟨name, ⟨chosen, hchosen, hcall, hunknown⟩, rfl⟩
    · rintro ⟨name, ⟨other, hother, hcall, hunknown⟩, rfl⟩
      obtain rfl := hother.unique hchosen
      exact ⟨name, hcall, hunknown, rfl⟩
  · rw [evaluate_of_not_isChoice registry fun chosen h => hchoice ⟨chosen, h⟩]
    constructor
    · intro h
      cases h
    · rintro ⟨name, ⟨chosen, hchosen, -⟩, -⟩
      exact absurd ⟨chosen, hchosen⟩ hchoice

/-! ## Checked arithmetic -/

/-- A text that a code is turned into for a day, before it is read as a chain. -/
def IsTextOf (registry : Registry) (code : Text) (d : Ymd) (text : Text) : Prop :=
  ∃ chosen, IsChoice d.year (parse code) chosen ∧ chosen.expand registry d = .ok (some text)

def MeetsLeastWord (registry : Registry) (code : Text) (d : Ymd) : Prop :=
  ∃ text chain, IsTextOf registry code d text ∧ Chain.parse text = .ok chain ∧
    chain.MeetsLeastWord d.date?

end HolidayRules.Template

import HolidayRules.Proofs.Text.Marks
import HolidayRules.Proofs.Text.Runs
import HolidayRules.Rule.Region

set_option autoImplicit false

/-!
# The form of regions and their initial parts

A region has a country and at most three subdivisions. The bytes that are compared with a text are
characters of the region whenever the text is an initial part of it, so that the comparison finds
just the initial parts.
-/
namespace HolidayRules
namespace Text

theorem takeBytes?_eq_some_iff {n : Nat} {t s : Text} :
    takeBytes? n t = some s ↔ s <+: t ∧ byteLength s = n := by
  induction t generalizing n s with
  | nil =>
    cases n with
    | zero =>
      simp only [takeBytes?, List.prefix_nil, Option.some.injEq]
      constructor
      · rintro rfl
        exact ⟨rfl, rfl⟩
      · rintro ⟨rfl, -⟩
        rfl
    | succ n =>
      simp only [takeBytes?, List.prefix_nil]
      constructor
      · intro h
        cases h
      · rintro ⟨rfl, h⟩
        cases h
  | cons c t ih =>
    have hc := c.utf8Size_pos
    cases n with
    | zero =>
      rw [takeBytes?]
      constructor
      · intro h
        cases h
        exact ⟨List.nil_prefix, rfl⟩
      · rintro ⟨-, hbytes⟩
        cases s with
        | nil => rfl
        | cons d s =>
          have hd := d.utf8Size_pos
          rw [byteLength_cons] at hbytes
          omega
    | succ n =>
      rw [takeBytes?]
      constructor
      · intro h
        split at h
        next hle =>
          obtain ⟨rest, hrest, rfl⟩ := Option.map_eq_some_iff.1 h
          obtain ⟨hstart, hbytes⟩ := ih.1 hrest
          refine ⟨List.cons_prefix_cons.2 ⟨rfl, hstart⟩, ?_⟩
          rw [byteLength_cons]
          omega
        next => cases h
      · rintro ⟨hstart, hbytes⟩
        cases s with
        | nil => cases hbytes
        | cons d s =>
          obtain ⟨rfl, htail⟩ := List.cons_prefix_cons.1 hstart
          rw [byteLength_cons] at hbytes
          have hrest : takeBytes? (n + 1 - d.utf8Size) t = some s := ih.2 ⟨htail, by omega⟩
          rw [if_pos (by omega), hrest]
          rfl

theorem byteLength_lower (t : Text) : byteLength (lower t) = byteLength t := by
  have hsize (c : Char) : c.toLower.utf8Size = c.utf8Size := by
    unfold Char.toLower
    split
    next h =>
      have hsmall : c.val ≤ 90 := h.2
      rw [Char.utf8Size_eq_one_iff.2 (UInt32.le_trans hsmall (by decide)), Char.utf8Size_eq_one_iff]
      have hn : c.val.toNat ≤ 90 := UInt32.le_iff_toNat_le.1 hsmall
      have hshift : ('a'.val - 'A'.val).toNat = 32 := rfl
      have hbound : (127 : UInt32).toNat = 127 := rfl
      rw [UInt32.le_iff_toNat_le, UInt32.toNat_add]
      omega
    next => rfl
  induction t with
  | nil => rfl
  | cons c t ih =>
    change c.toLower.utf8Size + byteLength (lower t) = _
    rw [hsize, ih, byteLength_cons]

theorem byteLength_of_sameIgnoringCase {s t : Text} (h : s.sameIgnoringCase t = true) :
    byteLength s = byteLength t := by
  rw [← byteLength_lower s, sameIgnoringCase_iff.1 h, byteLength_lower]

end Text

/-- A country of two or three letters and at most three parts of one to eight letters or digits, with
a dash before each of them. -/
def IsRegionForm (t : Text) : Prop :=
  ∃ (country : Text) (parts : List Text), t = country ++ parts.flatMap ('-' :: ·) ∧
    (2 ≤ country.length ∧ country.length ≤ 3) ∧ (∀ c ∈ country, c.isAlpha = true) ∧
    parts.length ≤ 3 ∧ ∀ part ∈ parts,
      (1 ≤ part.length ∧ part.length ≤ 8) ∧ ∀ c ∈ part, c.isAlphanum = true

theorem isCountry_iff {t : Text} :
    isCountry t = true ↔ (2 ≤ t.length ∧ t.length ≤ 3) ∧ ∀ c ∈ t, c.isAlpha = true := by
  simp [isCountry]

theorem isSubdivision_iff {t : Text} :
    isSubdivision t = true ↔ (1 ≤ t.length ∧ t.length ≤ 8) ∧ ∀ c ∈ t, c.isAlphanum = true := by
  simp [isSubdivision]

theorem isRegion_iff {t : Text} : isRegion t = true ↔ IsRegionForm t := by
  unfold isRegion
  constructor
  · intro h
    obtain ⟨country, parts, hsplit⟩ := List.exists_cons_of_ne_nil (List.splitOn_ne_nil '-' t)
    rw [hsplit] at h
    simp only [Bool.and_eq_true, decide_eq_true_eq, List.all_eq_true] at h
    obtain ⟨⟨hcountry, hcount⟩, hparts⟩ := h
    have htext : ['-'].intercalate (t.splitOn '-') = t := List.intercalate_splitOn '-'
    rw [hsplit, Text.intercalate_cons] at htext
    obtain ⟨hlength, halpha⟩ := isCountry_iff.1 hcountry
    exact ⟨country, parts, htext.symm, hlength, halpha, hcount,
      fun part hpart => isSubdivision_iff.1 (hparts part hpart)⟩
  · rintro ⟨country, parts, rfl, hlength, halpha, hcount, hparts⟩
    have hdash : ∀ part ∈ country :: parts, '-' ∉ part := by
      intro part hpart hmem
      rcases List.mem_cons.1 hpart with rfl | hpart
      · exact absurd (halpha _ hmem) (by decide)
      · exact absurd ((hparts part hpart).2 _ hmem) (by decide)
    rw [← Text.intercalate_cons, List.splitOn_intercalate '-' hdash (List.cons_ne_nil _ _)]
    simp only [Bool.and_eq_true, decide_eq_true_eq, List.all_eq_true]
    exact ⟨⟨isCountry_iff.2 ⟨hlength, halpha⟩, hcount⟩,
      fun part hpart => isSubdivision_iff.2 (hparts part hpart)⟩

instance (t : Text) : Decidable (IsRegionForm t) := decidable_of_iff _ isRegion_iff

namespace Region

theorem parse_eq_ok_iff {t : Text} {region : Region} : parse t = .ok region ↔ region.text = t := by
  unfold parse
  constructor
  · intro h
    split at h
    next => cases h; rfl
    next => cases h
  · rintro rfl
    exact dif_pos region.valid

theorem map_parse_eq_ok_iff {α : Type} {t : Text} {f : Region → α} {a : α} :
    (parse t).map f = .ok a ↔ ∃ region : Region, region.text = t ∧ f region = a := by
  simp only [← parse_eq_ok_iff]
  cases parse t <;> simp [Except.map]

theorem exists_map_parse_iff {α : Type} {t : Text} {f : Region → α} :
    (∃ a, (parse t).map f = .ok a) ↔ IsRegionForm t := by
  simp only [map_parse_eq_ok_iff, ← isRegion_iff]
  constructor
  · rintro ⟨_, region, rfl, rfl⟩
    exact region.valid
  · intro h
    exact ⟨f ⟨t, h⟩, ⟨t, h⟩, rfl, rfl⟩

theorem startsWith_iff {region : Region} {t : Text} :
    region.startsWith t = true ↔
      ∃ start : Text, start <+: region.text ∧ start.sameIgnoringCase t = true := by
  unfold startsWith
  rw [Option.any_eq_true]
  constructor
  · rintro ⟨start, hstart, hsame⟩
    exact ⟨start, (Text.takeBytes?_eq_some_iff.1 hstart).1, hsame⟩
  · rintro ⟨start, hstart, hsame⟩
    exact ⟨start, Text.takeBytes?_eq_some_iff.2
      ⟨hstart, Text.byteLength_of_sameIgnoringCase hsame⟩, hsame⟩

end Region
end HolidayRules

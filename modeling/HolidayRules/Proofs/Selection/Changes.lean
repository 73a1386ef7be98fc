import Mathlib.Data.List.Basic
import HolidayRules.Proofs.Rule.Regions
import HolidayRules.Selection

set_option autoImplicit false

/-!
# Selections after changes

The places of the picked rules belong to the region and the kinds of a selection when it is made, and
each change keeps them so. After any changes a selection is therefore the one that would be made anew.
-/
namespace HolidayRules

theorem Kinds.meets_iff {a b : Kinds} :
    a.meets b = true ↔
      ∃ bit, a.bits.toNat.testBit bit = true ∧ b.bits.toNat.testBit bit = true := by
  have hzero : a.bits &&& b.bits = 0 ↔ (a.bits.toNat &&& b.bits.toNat) = 0 := by
    rw [← UInt16.toNat_inj, UInt16.toNat_and]
    rfl
  unfold meets
  rw [bne_iff_ne, ne_eq, hzero]
  constructor
  · intro h
    obtain ⟨bit, hbit⟩ := Nat.exists_testBit_of_ne_zero h
    rw [Nat.testBit_and, Bool.and_eq_true] at hbit
    exact ⟨bit, hbit⟩
  · rintro ⟨bit, ha, hb⟩ h
    have hbit := Nat.testBit_and a.bits.toNat b.bits.toNat bit
    rw [h, ha, hb, Nat.zero_testBit] at hbit
    cases hbit

theorem Text.mem_commaItems {t item : Text} :
    item ∈ t.commaItems ↔ ∃ part ∈ t.splitOn ',', Text.trim part = item ∧ item ≠ [] := by
  simp only [Text.commaItems, List.mem_filter, List.mem_map, Bool.not_eq_true',
    List.isEmpty_eq_false_iff]
  constructor
  · rintro ⟨⟨part, hpart, htrim⟩, hne⟩
    exact ⟨part, hpart, htrim, hne⟩
  · rintro ⟨part, hpart, htrim, hne⟩
    exact ⟨⟨part, hpart, htrim⟩, hne⟩

namespace Rule

/-- The rule has a kind that is asked for, and one of the regions between its commas is, but for blanks
around it and the case of its letters, an initial part of the region. -/
structure Suits (r : Rule) (region : Region) (kinds : Kinds) : Prop where
  kind : ∃ bit, r.kinds.bits.toNat.testBit bit = true ∧ kinds.bits.toNat.testBit bit = true
  region : ∃ part ∈ r.region.splitOn ',', Text.trim part ≠ [] ∧
    ∃ start : Text, start <+: region.text ∧ start.sameIgnoringCase (Text.trim part) = true

theorem isPicked_iff {r : Rule} {region : Region} {kinds : Kinds} :
    r.isPicked region kinds = true ↔ r.Suits region kinds := by
  have hregion : r.regions.any region.startsWith = true ↔
      ∃ part ∈ r.region.splitOn ',', Text.trim part ≠ [] ∧
        ∃ start : Text, start <+: region.text ∧ start.sameIgnoringCase (Text.trim part) = true := by
    unfold regions
    simp only [List.any_eq_true, Text.mem_commaItems, Region.startsWith_iff]
    constructor
    · rintro ⟨_, ⟨part, hpart, rfl, hne⟩, hstart⟩
      exact ⟨part, hpart, hne, hstart⟩
    · rintro ⟨part, hpart, hne, hstart⟩
      exact ⟨Text.trim part, ⟨part, hpart, rfl, hne⟩, hstart⟩
  unfold isPicked
  rw [Bool.and_eq_true, Kinds.meets_iff, hregion]
  exact ⟨fun h => ⟨h.1, h.2⟩, fun h => ⟨h.1, h.2⟩⟩

instance (r : Rule) (region : Region) (kinds : Kinds) : Decidable (r.Suits region kinds) :=
  decidable_of_iff _ isPicked_iff

end Rule

theorem filterMap_pickedPlaces (rules : List Rule) (region : Region) (kinds : Kinds) :
    ((pickedPlaces rules region kinds).filterMap fun place => rules[place]?) =
      rules.filter fun r => r.isPicked region kinds := by
  let picked := rules.zipIdx.filter fun entry => entry.1.isPicked region kinds
  have hplace : ∀ entry ∈ picked, rules[entry.2]? = some entry.1 := fun entry h =>
    List.mem_zipIdx_iff_getElem?.1 (List.mem_filter.1 h).1
  have hfilter : picked.map Prod.fst =
      (rules.zipIdx.map Prod.fst).filter fun r => r.isPicked region kinds := by
    rw [List.filter_map]
    rfl
  calc
    ((pickedPlaces rules region kinds).filterMap fun place => rules[place]?) =
        picked.filterMap fun entry => rules[entry.2]? := List.filterMap_map
    _ = picked.filterMap fun entry => some entry.1 := List.filterMap_congr hplace
    _ = picked.map Prod.fst := congrFun List.filterMap_eq_map' picked
    _ = rules.filter fun r => r.isPicked region kinds := by rw [hfilter, List.zipIdx_map_fst]

namespace Selection

inductive Change where
  | region (t : Text)
  | kinds (kinds : Kinds)
  | registry (registry : Registry)

structure Settings where
  region : Text
  kinds : Kinds
  registry : Registry

def Settings.change (c : Settings) : Change → Settings
  | .region t => if IsRegionForm t then { c with region := t } else c
  | .kinds kinds => { c with kinds := kinds }
  | .registry registry => { c with registry := registry }

def settings (s : Selection) : Settings := ⟨s.region.text, s.kinds, s.registry⟩

def change (s : Selection) : Change → Selection
  | .region t => match s.inRegion t with
    | .ok next => next
    | .error _ => s
  | .kinds kinds => s.withKinds kinds
  | .registry registry => s.withRegistry registry

/-- The kept places are those that would be picked now. -/
def IsFresh (s : Selection) : Prop := s.places = pickedPlaces s.rules s.region s.kinds

variable {s : Selection} {rules : List Rule} {kinds : Kinds} {t : Text}

theorem eq_of_settings {a b : Selection} (hrules : a.rules = b.rules)
    (hsettings : a.settings = b.settings) (ha : a.IsFresh) (hb : b.IsFresh) : a = b := by
  obtain ⟨rules, ⟨text, valid⟩, kinds, registry, places⟩ := a
  obtain ⟨rules', ⟨text', valid'⟩, kinds', registry', places'⟩ := b
  obtain ⟨rfl, rfl, rfl⟩ := Settings.mk.inj hsettings
  cases hrules
  exact congrArg (Selection.mk rules ⟨text, valid⟩ kinds registry) (ha.trans hb.symm)

theorem make_eq_ok_iff :
    make rules t kinds = .ok s ↔
      s.rules = rules ∧ s.settings = ⟨t, kinds, .builtin⟩ ∧ s.IsFresh := by
  unfold make
  rw [Region.map_parse_eq_ok_iff]
  constructor
  · rintro ⟨region, rfl, rfl⟩
    exact ⟨rfl, rfl, rfl⟩
  · rintro ⟨hrules, hsettings, hfresh⟩
    obtain rfl : s.region.text = t := congrArg Settings.region hsettings
    exact ⟨s.region, rfl, eq_of_settings hrules.symm hsettings.symm rfl hfresh⟩

theorem inRegion_eq_ok_iff {next : Selection} :
    s.inRegion t = .ok next ↔
      next.rules = s.rules ∧ next.settings = { s.settings with region := t } ∧ next.IsFresh := by
  unfold inRegion
  rw [Region.map_parse_eq_ok_iff]
  constructor
  · rintro ⟨region, rfl, rfl⟩
    exact ⟨rfl, rfl, rfl⟩
  · rintro ⟨hrules, hsettings, hfresh⟩
    obtain rfl : next.region.text = t := congrArg Settings.region hsettings
    exact ⟨next.region, rfl, eq_of_settings hrules.symm hsettings.symm rfl hfresh⟩

theorem exists_make_iff : (∃ s, make rules t kinds = .ok s) ↔ IsRegionForm t :=
  Region.exists_map_parse_iff

theorem exists_inRegion_iff : (∃ next, s.inRegion t = .ok next) ↔ IsRegionForm t :=
  Region.exists_map_parse_iff

theorem change_fresh (h : s.IsFresh) (c : Change) :
    (s.change c).rules = s.rules ∧ (s.change c).settings = s.settings.change c ∧
      (s.change c).IsFresh := by
  cases c with
  | region t =>
    cases hregion : s.inRegion t with
    | ok next =>
      have hchange : s.change (.region t) = next := by rw [change, hregion]
      have hform := exists_inRegion_iff.1 ⟨next, hregion⟩
      rw [hchange, Settings.change, if_pos hform]
      exact inRegion_eq_ok_iff.1 hregion
    | error e =>
      have hchange : s.change (.region t) = s := by rw [change, hregion]
      have hform : ¬ IsRegionForm t := by
        rw [← exists_inRegion_iff (s := s), hregion]
        rintro ⟨next, hnext⟩
        cases hnext
      rw [hchange, Settings.change, if_neg hform]
      exact ⟨rfl, rfl, h⟩
  | kinds kinds => exact ⟨rfl, rfl, rfl⟩
  | registry registry => exact ⟨rfl, rfl, h⟩

theorem foldl_change_fresh (h : s.IsFresh) (changes : List Change) :
    (changes.foldl change s).rules = s.rules ∧
      (changes.foldl change s).settings = changes.foldl Settings.change s.settings ∧
      (changes.foldl change s).IsFresh := by
  induction changes generalizing s with
  | nil => exact ⟨rfl, rfl, h⟩
  | cons c changes ih =>
    obtain ⟨hrules, hsettings, hfresh⟩ := change_fresh h c
    obtain ⟨hrules', hsettings', hfresh'⟩ := ih hfresh
    refine ⟨hrules'.trans hrules, ?_, hfresh'⟩
    rw [List.foldl_cons, List.foldl_cons, hsettings', hsettings]

theorem selected_of_isFresh (h : s.IsFresh) :
    s.selected = s.rules.filter fun r => decide (r.Suits s.region s.kinds) := by
  unfold selected
  rw [h, filterMap_pickedPlaces]
  refine List.filter_congr fun r _ => ?_
  rw [Bool.eq_iff_iff, decide_eq_true_eq, Rule.isPicked_iff]

/-- Just the regions in their form are taken. Whatever was changed since a selection was made, it has
the region, the kinds and the registry of the last changes, shows the rules that suit them, and is the
selection that would be made of them anew. -/
theorem selected_after_changes (rules : List Rule) (kinds : Kinds) (t : Text) :
    ((∃ s, make rules t kinds = .ok s) ↔ IsRegionForm t) ∧
    (∀ s : Selection, (∃ next, s.inRegion t = .ok next) ↔ IsRegionForm t) ∧
    ∀ (start : Selection) (changes : List Change), make rules t kinds = .ok start →
      let s := changes.foldl change start
      s.settings = changes.foldl Settings.change ⟨t, kinds, .builtin⟩ ∧
        s.selected = rules.filter (fun r => decide (r.Suits s.region s.kinds)) ∧
        (make rules s.region.text s.kinds).map (·.withRegistry s.registry) = .ok s := by
  refine ⟨exists_make_iff, fun s => exists_inRegion_iff, fun start changes hstart => ?_⟩
  intro s
  obtain ⟨hrules, hsettings, hfresh⟩ := make_eq_ok_iff.1 hstart
  obtain ⟨hrules', hsettings', hfresh'⟩ := foldl_change_fresh hfresh changes
  refine ⟨hsettings ▸ hsettings', ?_, ?_⟩
  · rw [selected_of_isFresh hfresh', hrules', hrules]
  · obtain ⟨fresh, hmake⟩ : ∃ fresh, make rules s.region.text s.kinds = .ok fresh :=
      exists_make_iff.2 (isRegion_iff.1 s.region.valid)
    obtain ⟨hr, hs, hf⟩ := make_eq_ok_iff.1 hmake
    rw [hmake]
    refine congrArg Except.ok (eq_of_settings ?_ ?_ hf hfresh')
    · exact hr.trans (hrules'.trans hrules).symm
    · exact congrArg (fun c : Settings => { c with registry := s.registry }) hs

/-- A text that is no region and a region part with another letter change nothing. -/
theorem selected_after_moving_to_bavaria :
    let rules : List Rule := [{ id := 1, region := "DE".toList },
      { id := 2, region := " de-by ,AT".toList, kinds := .bank },
      { id := 3, region := "DE-BÝ".toList }]
    let changes : List Change :=
      [.kinds .all, .region "de_by".toList, .region "DE-BY-1".toList, .registry .empty]
    ∃ start, make rules "DE".toList .official = .ok start ∧
      (changes.foldl change start).settings = ⟨"DE-BY-1".toList, .all, .empty⟩ ∧
      (changes.foldl change start).selected = rules.take 2 := by
  intro rules changes
  have hmake : make rules "DE".toList .official =
      .ok ⟨rules, ⟨"DE".toList, by decide⟩, .official, .builtin, [0]⟩ := by rfl
  obtain ⟨hsettings, hselected, -⟩ :=
    (selected_after_changes rules .official "DE".toList).2.2 _ changes hmake
  exact ⟨_, hmake, hsettings.trans rfl, hselected.trans (by decide)⟩

end Selection
end HolidayRules

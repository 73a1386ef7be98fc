import HolidayRules.Proofs.Template.Source

set_option autoImplicit false

/-!
# The form of templates that are read

Each entry of a year list that was read is itself what a text reads as, and so by induction is every
part of a template at any depth. All of them have the canonical form.
-/
namespace HolidayRules

theorem Slot.mem_all (s : Slot) : s ∈ Slot.all := by cases s <;> decide

theorem Slot.ofName?_eq_none_iff {t : Text} : Slot.ofName? t = none ↔ ∀ s : Slot, t ≠ s.name := by
  unfold Slot.ofName?
  rw [List.find?_eq_none]
  constructor
  · intro h s hs
    exact h s s.mem_all (by simpa using hs)
  · intro h s _
    simpa using h s

/-- A text that is not empty, or a call by a word of the letters a to z that names no slot. Nothing
is asked of slots and year lists. -/
def Piece.IsSound : Piece → Prop
  | .text t => t ≠ []
  | .call name => name ≠ [] ∧ (∀ c ∈ name, 'a' ≤ c ∧ c ≤ 'z') ∧ ∀ s : Slot, name ≠ s.name
  | .slot _ | .years _ _ => True

namespace Template

structure IsCanonical (t : Template) : Prop where
  sound : ∀ piece ∈ t, piece.IsSound
  apart : ∀ s s' : Text, ¬ [Piece.text s, Piece.text s'] <:+: t

/-- The template itself, the entries of its year lists, the entries of theirs, and so on. -/
inductive IsPart (part : Template) : Template → Prop where
  | self : IsPart part part
  | entry {t entry : Template} {first : Nat} {entries : List Template}
      (hlist : Piece.years first entries ∈ t) (hentry : entry ∈ entries) (h : IsPart part entry) :
      IsPart part t

def IsCanonicalThroughout (t : Template) : Prop := ∀ part, IsPart part t → part.IsCanonical

theorem isCanonical_nil : IsCanonical [] := ⟨by simp, by simp⟩

theorem isCanonical_cons (piece : Piece) {t : Template} (hp : piece.IsSound) (h : t.IsCanonical) :
    (cons piece t).IsCanonical := by
  unfold cons
  split
  next s s' rest =>
    refine ⟨?_, ?_⟩
    · intro q hq
      rcases List.mem_cons.1 hq with rfl | hq
      · exact fun hnil => hp (List.append_eq_nil_iff.1 hnil).1
      · exact h.sound q (List.mem_cons_of_mem _ hq)
    · intro a b hab
      rcases List.infix_cons_iff.1 hab with hpre | hin
      · have hb := (List.cons_prefix_cons.1 hpre).2
        exact h.apart s' b (List.cons_prefix_cons.2 ⟨rfl, hb⟩).isInfix
      · exact h.apart a b (hin.trans (List.suffix_cons _ _).isInfix)
  next hmerge =>
    refine ⟨?_, ?_⟩
    · intro q hq
      rcases List.mem_cons.1 hq with rfl | hq
      · exact hp
      · exact h.sound q hq
    · intro a b hab
      rcases List.infix_cons_iff.1 hab with hpre | hin
      · obtain ⟨ha, hb⟩ := List.cons_prefix_cons.1 hpre
        obtain ⟨rest, hrest⟩ := hb
        exact hmerge a b rest ha.symm hrest.symm
      · exact h.apart a b hin

/-- Joining repairs the seam, so of the first template only the pieces matter. -/
theorem isCanonical_join {a b : Template} (ha : ∀ piece ∈ a, piece.IsSound) (hb : b.IsCanonical) :
    (join a b).IsCanonical := by
  induction a with
  | nil => exact hb
  | cons piece a ih =>
    exact isCanonical_cons piece (ha piece List.mem_cons_self)
      (ih fun q hq => ha q (List.mem_cons_of_mem piece hq))

theorem isSound_call_iff {name : Text} :
    (Piece.call name).IsSound ↔ isCallName name = true ∧ Slot.ofName? name = none := by
  have hlower (c : Char) : c.isLower = true ↔ 'a' ≤ c ∧ c ≤ 'z' := by
    unfold Char.isLower
    rw [Bool.and_eq_true, decide_eq_true_eq, decide_eq_true_eq]
    rfl
  unfold isCallName Piece.IsSound
  simp only [Bool.and_eq_true, Bool.not_eq_true', List.isEmpty_eq_false_iff, List.all_eq_true, hlower,
    Slot.ofName?_eq_none_iff, and_assoc]

theorem isCanonical_parse (t : Text) : (parse t).IsCanonical := by
  refine parse_induction (P := fun _ template => template.IsCanonical) isCanonical_nil
    ?_ ?_ ?_ ?_ ?_ t
  · intro t s rest h ih
    exact isCanonical_cons (.text s) (nextToken?_source_ne_nil h) ih
  · intro t content rest s _ _ ih
    exact isCanonical_cons (.slot s) trivial ih
  · intro t content rest first entries _ _ _ ih
    exact isCanonical_cons (.years first (entries.map parse)) trivial ih
  · intro t name rest _ hs hc ih
    exact isCanonical_cons (.call name) (isSound_call_iff.2 ⟨hc, hs⟩) ih
  · intro t content rest _ ihc ih
    have hclose := isCanonical_cons (.text closeBraces) (List.cons_ne_nil _ _) ih
    exact isCanonical_cons (.text openBraces) (List.cons_ne_nil _ _)
      (isCanonical_join ihc.sound hclose)

theorem mem_of_mem_cons {piece q : Piece} {t : Template} (hq : ∀ s, q ≠ .text s)
    (h : q ∈ cons piece t) : q = piece ∨ q ∈ t := by
  unfold cons at h
  split at h
  next s s' rest =>
    rcases List.mem_cons.1 h with rfl | h
    · exact absurd rfl (hq _)
    · exact .inr (List.mem_cons_of_mem _ h)
  next => exact List.mem_cons.1 h

theorem mem_of_mem_join {a b : Template} {q : Piece} (hq : ∀ s, q ≠ .text s) (h : q ∈ join a b) :
    q ∈ a ∨ q ∈ b := by
  induction a with
  | nil => exact .inr h
  | cons piece a ih =>
    rcases mem_of_mem_cons hq h with rfl | h
    · exact .inl List.mem_cons_self
    · rcases ih h with h | h
      · exact .inl (List.mem_cons_of_mem piece h)
      · exact .inr h

def EntriesAreRead (t : Template) : Prop :=
  ∀ first entries, Piece.years first entries ∈ t → ∀ entry ∈ entries, ∃ s, entry = parse s

theorem entriesAreRead_cons (piece : Piece) {t : Template}
    (hp : ∀ first entries, piece = .years first entries → ∀ entry ∈ entries, ∃ s, entry = parse s)
    (h : t.EntriesAreRead) : (cons piece t).EntriesAreRead := by
  intro first entries hmem
  rcases mem_of_mem_cons (by simp) hmem with hmem | hmem
  · exact hp first entries hmem.symm
  · exact h first entries hmem

theorem entriesAreRead_join {a b : Template} (ha : a.EntriesAreRead) (hb : b.EntriesAreRead) :
    (join a b).EntriesAreRead := by
  intro first entries hmem
  rcases mem_of_mem_join (by simp) hmem with hmem | hmem
  · exact ha first entries hmem
  · exact hb first entries hmem

theorem entriesAreRead_parse (t : Text) : (parse t).EntriesAreRead := by
  refine parse_induction (P := fun _ template => template.EntriesAreRead) ?_ ?_ ?_ ?_ ?_ ?_ t
  · intro first entries h
    cases h
  · intro t s rest _ ih
    exact entriesAreRead_cons (.text s) (by simp) ih
  · intro t content rest s _ _ ih
    exact entriesAreRead_cons (.slot s) (by simp) ih
  · intro t content rest first entries _ _ _ ih
    refine entriesAreRead_cons (.years first (entries.map parse)) ?_ ih
    intro first' entries' h entry he
    cases h
    obtain ⟨s, -, rfl⟩ := List.mem_map.1 he
    exact ⟨s, rfl⟩
  · intro t name rest _ _ _ ih
    exact entriesAreRead_cons (.call name) (by simp) ih
  · intro t content rest _ ihc ih
    have hclose := entriesAreRead_cons (.text closeBraces) (by simp) ih
    exact entriesAreRead_cons (.text openBraces) (by simp) (entriesAreRead_join ihc hclose)

theorem exists_parse_of_isPart {part : Template} {t : Text} (h : IsPart part (parse t)) :
    ∃ s, part = parse s := by
  generalize hp : parse t = template at h
  induction h generalizing t with
  | self => exact ⟨t, hp.symm⟩
  | entry hlist hentry _ ih =>
    rw [← hp] at hlist
    obtain ⟨s, hs⟩ := entriesAreRead_parse t _ _ hlist _ hentry
    exact ih hs.symm

/-- The source of a template that is read is the text, and each part of it has the canonical
form. -/
theorem source_parse_canonical (code : Text) :
    (parse code).source = code ∧ (parse code).IsCanonicalThroughout := by
  refine ⟨source_parse code, fun part h => ?_⟩
  obtain ⟨s, rfl⟩ := exists_parse_of_isPart h
  exact isCanonical_parse s

end Template
end HolidayRules

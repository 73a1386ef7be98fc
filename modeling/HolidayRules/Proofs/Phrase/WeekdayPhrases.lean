import HolidayRules.Proofs.Date.WeekdayMoves
import HolidayRules.Proofs.Phrase.RoundTrip
import HolidayRules.Proofs.Text.Trimming

set_option autoImplicit false

/-!
# Phrases that move to a weekday

A weekday is written by its name or abbreviation, with or without a direction before it, and the
phrase is nothing but the move.
-/
namespace HolidayRules

/-- The ways to write a move to a weekday, in any letter case. The name alone is that of the day
itself or the next such day. -/
inductive Movement.IsWritten (movement : Movement) (goal : Weekday) : Text → Prop where
  | alone {name : Text} (hm : movement = .thisOrNext) (hname : isNameOf goal.name name = true) :
      IsWritten movement goal name
  | behind {direction name : Text} (hd : Text.lower direction ∈ movement.words)
      (hname : isNameOf goal.name name = true) :
      IsWritten movement goal (direction ++ ' ' :: name)

theorem isNameOf_iff {name t : Text} : isNameOf name t = true ↔ Text.lower t ∈ nameWords name := by
  simp [isNameOf, nameWords, Text.sameIgnoringCase_iff]

namespace Phrase

theorem letters_of_inRange {t : Text} (h : Token.InRange (.word (Text.lower t))) :
    t ≠ [] ∧ ∀ c ∈ t, c.isAlpha = true := by
  obtain ⟨hne, halpha, -⟩ := h
  exact ⟨fun hnil => hne (by rw [hnil]; rfl), fun c hc =>
    isAlpha_of_toLower (List.all_eq_true.1 halpha _ (List.mem_map_of_mem hc))⟩

theorem parse_of_isForm {item : Item} {form : List Token} {t : Text} (hi : item.IsWritable)
    (hf : item.IsForm form) (ht : IsSpaced form t) : Phrase.parse t = .ok [item] := by
  have hw : ∀ i ∈ [item], i.IsWritable := List.forall_mem_singleton.2 hi
  have htokens : HasTokens [item] (form ++ []) := .cons hf .nil
  rw [List.append_nil] at htokens
  obtain ⟨lexemes, hscan, hl⟩ := scanFrom_of_isSpaced (inRange_of_isForm hi hf) ht 0
  have hread := readItems_of_hasTokens hw htokens hl
  obtain ⟨token, more, rfl, -⟩ := exists_begin_of_isForm hi hf
  obtain ⟨start, stop, rest, rfl, hrest⟩ := exists_of_map_token hl
  obtain ⟨next, rest, rfl⟩ : ∃ next last, rest = next :: last := by
    refine List.exists_cons_of_ne_nil fun hnil => ?_
    rw [hnil] at hrest
    simp at hrest
  unfold Phrase.parse scan
  rw [hscan]
  exact hread

theorem parse_of_isWritten_movement {movement : Movement} {goal : Weekday} {t : Text}
    (h : movement.IsWritten goal t) : Phrase.parse t = .ok [.weekday goal movement] := by
  have hnone : IsGap [] := by simp [IsGap]
  have hblank : IsGap [' '] := isGap_singleton (.inl (by decide))
  have hlast (name : Text) : IsSpaced [.word (Text.lower name)] (name ++ ([] ++ [])) :=
    .cons (.word name) hnone (absurd rfl) .nil
  cases h with
  | alone hm hname =>
    subst hm
    have hspaced := hlast t
    rw [List.append_nil, List.append_nil] at hspaced
    exact parse_of_isForm trivial (.weekday (isNameOf_iff.1 hname)) hspaced
  | @behind direction name hd hname =>
    have hspaced := IsSpaced.cons (.word direction) hblank (by simp) (hlast name)
    rw [List.append_nil, List.append_nil] at hspaced
    exact parse_of_isForm trivial (.moved hd (isNameOf_iff.1 hname)) hspaced

theorem apply_weekday (x : Date) (movement : Movement) (goal : Weekday) :
    Phrase.apply [.weekday goal movement] (some x) =
      (x.toWeekday? movement goal).elim (.error .outOfRange) .ok := by
  have hstart : (YearMonth.mk x.year x.month).day? x.day = some x := YearMonth.day?_day x
  have hrun : Adjustment.run? ⟨.unnamed, [(goal, movement)], ⟨0, 0, 0⟩, none, none⟩
      ⟨x.year, x.month, x.day⟩ = x.toWeekday? movement goal := by
    unfold Adjustment.run?
    simp only [hstart, bind, Option.bind_some, List.foldlM_cons, List.foldlM_nil, pure,
      Adjustment.monthStart?, Option.isSome_none, Bool.or_self, Bool.false_eq_true, if_false,
      Date.monthsLater?_zero, Date.daysLater?_zero, Date.workingDaysLater?_zero,
      Adjustment.toEdge?, Adjustment.toNth?, Option.bind_fun_some]
  have hphrase : Adjustment.ofPhrase? [.weekday goal movement] =
      some ⟨.unnamed, [(goal, movement)], ⟨0, 0, 0⟩, none, none⟩ := rfl
  rw [apply_of_start? hphrase (NamedDay.start?_unnamed x), hrun]

end Phrase

namespace Movement.IsWritten

variable {movement : Movement} {goal : Weekday} {t : Text}

theorem letters_of_isNameOf {name : Text} (h : isNameOf goal.name name = true) :
    name ≠ [] ∧ ∀ c ∈ name, c.isAlpha = true := by
  obtain ⟨-, -, -, -, hrange⟩ := Phrase.weekday_word (isNameOf_iff.1 h)
  exact Phrase.letters_of_inRange hrange

theorem letters_of_mem_words {direction : Text} (h : Text.lower direction ∈ movement.words) :
    direction ≠ [] ∧ ∀ c ∈ direction, c.isAlpha = true := by
  obtain ⟨-, -, -, hrange⟩ := Phrase.direction_word h
  exact Phrase.letters_of_inRange hrange

theorem isAlpha_or_blank (h : movement.IsWritten goal t) :
    ∀ c ∈ t, c.isAlpha = true ∨ c = ' ' := by
  intro c hc
  cases h with
  | alone _ hname => exact .inl ((letters_of_isNameOf hname).2 c hc)
  | behind hd hname =>
    rcases List.mem_append.1 hc with hc | hc
    · exact .inl ((letters_of_mem_words hd).2 c hc)
    · rcases List.mem_cons.1 hc with rfl | hc
      · exact .inr rfl
      · exact .inl ((letters_of_isNameOf hname).2 c hc)

theorem ne_nil_and_isTrimmed (h : movement.IsWritten goal t) : t ≠ [] ∧ t.IsTrimmed := by
  cases h with
  | alone _ hname =>
    obtain ⟨hne, hletters⟩ := letters_of_isNameOf hname
    exact ⟨hne, Text.isTrimmed_of_forall fun c hc => isBlank_of_isAlpha (hletters c hc)⟩
  | @behind direction name hd hname =>
    obtain ⟨hdirection, hfirst⟩ := letters_of_mem_words hd
    obtain ⟨hne, hlast⟩ := letters_of_isNameOf hname
    refine ⟨by simp, fun c hc => isBlank_of_isAlpha (hfirst c ?_), fun c hc =>
      isBlank_of_isAlpha (hlast c ?_)⟩
    · obtain ⟨first, letters, rfl⟩ := List.exists_cons_of_ne_nil hdirection
      cases hc
      exact List.mem_cons_self
    · rw [List.append_cons, List.getLast?_append, List.getLast?_eq_some_getLast hne] at hc
      cases hc
      exact List.getLast_mem hne

end Movement.IsWritten

end HolidayRules

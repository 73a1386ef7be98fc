import HolidayRules.Evaluation

set_option autoImplicit false

/-!
# Runs that stop at the least word

Where arithmetic is checked, a run differs from one that wraps round only in that it stops, and it stops
exactly at the first `ago` that meets a sum without a negation.
-/
namespace HolidayRules

namespace Phrase

/-- An `ago` of the phrase turns round the least word. -/
def MeetsLeastWord (phrase : Phrase) : Prop :=
  ∃ before after a, phrase = before ++ .ago :: after ∧
    Adjustment.ofPhrase? before = some a ∧ a.totals.hasLeast = true

end Phrase

inductive Step.MeetsLeastWord : Step → Option Date → Prop where
  | plain {phrase : Phrase} {current : Option Date} (h : phrase.MeetsLeastWord) :
      MeetsLeastWord (.plain phrase) current
  | guarded {guard : Guard} {phrase : Phrase} {d : Date} (hd : guard.holds d = true)
      (h : phrase.MeetsLeastWord) : MeetsLeastWord (.guarded guard (some phrase)) (some d)

inductive Chain.MeetsLeastWord : Chain → Option Date → Prop where
  | here {step : Step} {rest : Chain} {current : Option Date} (h : step.MeetsLeastWord current) :
      MeetsLeastWord (step :: rest) current
  | later {step : Step} {rest : Chain} {current : Option Date} {d : Date}
      (hstep : step.apply current = .ok (some d)) (h : MeetsLeastWord rest (some d)) :
      MeetsLeastWord (step :: rest) current

theorem Adjustment.overflows_iff {phrase : Phrase} {a : Adjustment} :
    overflows phrase a = true ↔ ∃ before after b, phrase = before ++ .ago :: after ∧
      before.foldlM add? a = some b ∧ b.totals.hasLeast = true := by
  induction phrase generalizing a with
  | nil =>
    constructor
    · intro h
      cases h
    · rintro ⟨before, after, b, h, -⟩
      simp at h
  | cons item phrase ih =>
    unfold overflows
    rw [Bool.or_eq_true, Bool.and_eq_true, decide_eq_true_eq]
    constructor
    · rintro (⟨rfl, hleast⟩ | h)
      · exact ⟨[], phrase, a, rfl, rfl, hleast⟩
      · cases hadd : a.add? item with
        | none =>
          rw [hadd] at h
          cases h
        | some next =>
          rw [hadd] at h
          obtain ⟨before, after, b, rfl, hgather, hleast⟩ := ih.1 h
          refine ⟨item :: before, after, b, rfl, ?_, hleast⟩
          rw [List.foldlM_cons, hadd]
          exact hgather
    · rintro ⟨before, after, b, hsplit, hgather, hleast⟩
      cases before with
      | nil =>
        cases hsplit
        cases hgather
        exact .inl ⟨rfl, hleast⟩
      | cons first before =>
        cases hsplit
        obtain ⟨next, hadd, hrest⟩ := Option.bind_eq_some_iff.1 hgather
        rw [hadd]
        exact .inr (ih.2 ⟨before, after, b, rfl, hrest, hleast⟩)

namespace Phrase

theorem overflows_iff {phrase : Phrase} : phrase.overflows = true ↔ phrase.MeetsLeastWord :=
  Adjustment.overflows_iff

end Phrase

theorem Step.overflows_iff {step : Step} {current : Option Date} :
    step.overflows current = true ↔ step.MeetsLeastWord current := by
  constructor
  · intro h
    cases step with
    | plain phrase => exact .plain (Phrase.overflows_iff.1 h)
    | guarded guard action =>
      cases current with
      | none => cases h
      | some d =>
        cases action with
        | none => cases h
        | some phrase =>
          have hboth : (guard.holds d && phrase.overflows) = true := h
          obtain ⟨hd, h⟩ := Bool.and_eq_true_iff.1 hboth
          exact .guarded hd (Phrase.overflows_iff.1 h)
  · intro h
    cases h with
    | plain h => exact Phrase.overflows_iff.2 h
    | guarded hd h => exact Bool.and_eq_true_iff.2 ⟨hd, Phrase.overflows_iff.2 h⟩

namespace Chain

theorem overflows_iff {chain : Chain} {current : Option Date} :
    chain.overflows current = true ↔ chain.MeetsLeastWord current := by
  induction chain generalizing current with
  | nil =>
    constructor
    · intro h
      cases h
    · intro h
      cases h
  | cons step rest ih =>
    unfold overflows
    rw [Bool.or_eq_true, Step.overflows_iff]
    constructor
    · rintro (h | h)
      · exact .here h
      · split at h
        next d hstep => exact .later hstep (ih.1 h)
        next => cases h
    · intro h
      cases h with
      | here h => exact .inl h
      | later hstep h =>
        rw [hstep]
        exact .inr (ih.2 h)

end Chain
end HolidayRules

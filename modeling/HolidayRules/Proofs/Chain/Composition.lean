import HolidayRules.Chain.Parser
import HolidayRules.Proofs.Except

set_option autoImplicit false

/-!
# Chains joined by a bar

Reading a chain knows of the chain before it only the position where it starts, and applying it only
the date that the chain before it has made.
-/
namespace HolidayRules

def ChainError.shift (bytes : Nat) : ChainError → ChainError
  | invalidGuard position fault => invalidGuard (position + bytes) fault
  | unknownLetter position found => unknownLetter (position + bytes) found
  | invalidPhrase position cause => invalidPhrase (position + bytes) cause

/-! ## Positions -/

theorem Guard.readLetters_add (position bytes : Nat) (names : Text) :
    readLetters (position + bytes) names =
      (readLetters position names).mapError (.shift bytes) := by
  induction names generalizing position with
  | nil => rfl
  | cons c names ih =>
    unfold readLetters
    cases DateLetter.ofChar? c with
    | none => rfl
    | some letter =>
      dsimp only
      rw [Nat.add_right_comm, ih, Except.mapError_map]

theorem Guard.parse_add (position bytes : Nat) (body : Text) :
    Guard.parse (position + bytes) body = (Guard.parse position body).mapError (.shift bytes) := by
  unfold Guard.parse
  cases Text.cut? ['='] body with
  | none => rfl
  | some parts =>
    dsimp only
    generalize (if parts.1.getLast? == some '!' then parts.1.dropLast else parts.1) = names
    rw [readLetters_add]
    by_cases hnames : names = []
    · rw [if_pos hnames, if_pos hnames]
      rfl
    · rw [if_neg hnames, if_neg hnames]
      cases readLetters position names with
      | error e => rfl
      | ok letters =>
        by_cases hvalues : Text.commaItems parts.2 = [] <;>
          simp [Except.mapError, hvalues, ChainError.shift]

theorem Phrase.parseAt_add (position bytes : Nat) (t : Text) :
    parseAt (position + bytes) t = (parseAt position t).mapError (.shift bytes) := by
  unfold parseAt
  cases Phrase.parse t <;> rfl

namespace Step

theorem parseAction_add (position bytes : Nat) (t : Text) :
    parseAction (position + bytes) t = (parseAction position t).mapError (.shift bytes) := by
  unfold parseAction
  split
  · rfl
  · rw [Phrase.parseAt_add, Except.mapError_map]

theorem parseGuarded_add (position bytes : Nat) (t : Text) :
    parseGuarded (position + bytes) t = (parseGuarded position t).mapError (.shift bytes) := by
  unfold parseGuarded
  cases Text.cut? Guard.closing t with
  | none => rfl
  | some parts =>
    obtain ⟨body, after⟩ := parts
    dsimp only
    rw [Except.mapError_bind, Nat.add_right_comm position, Guard.parse_add]
    congr 1
    funext guard
    rw [Except.mapError_bind, Nat.add_right_comm _ bytes, Nat.add_right_comm _ bytes, parseAction_add]
    rfl

theorem parse_add (position bytes : Nat) (segment : Text) :
    Step.parse (position + bytes) segment =
      (Step.parse position segment).mapError (.shift bytes) := by
  unfold Step.parse
  dsimp only
  rw [Nat.add_right_comm]
  split
  · rw [parseGuarded_add]
  · rw [Phrase.parseAt_add, Except.mapError_map]

end Step

namespace Chain

theorem parseSteps_add (position bytes : Nat) (segments : List Text) :
    parseSteps (position + bytes) segments =
      (parseSteps position segments).mapError (.shift bytes) := by
  induction segments generalizing position with
  | nil => rfl
  | cons segment segments ih =>
    unfold parseSteps
    rw [Except.mapError_bind, Step.parse_add]
    congr 1
    funext step
    rw [Except.mapError_bind, Nat.add_right_comm _ bytes, Nat.add_right_comm _ bytes, ih]
    rfl

/-! ## Reading -/

def barred (segments : List Text) : Text := segments.flatMap (· ++ ['|'])

theorem barred_splitOn (t : Text) : barred (t.splitOn '|') = t ++ ['|'] := by
  have hjoin : ∀ segments : List Text, segments ≠ [] →
      barred segments = ['|'].intercalate segments ++ ['|'] := by
    intro segments hne
    induction segments with
    | nil => exact absurd rfl hne
    | cons segment segments ih =>
      cases segments with
      | nil => simp [barred]
      | cons next segments =>
        change segment ++ ['|'] ++ barred (next :: segments) = _
        rw [ih (List.cons_ne_nil _ _), List.intercalate_cons_cons]
        simp
  rw [hjoin _ (List.splitOn_ne_nil _ _), List.intercalate_splitOn]

theorem byteLength_barred_cons (segment : Text) (segments : List Text) :
    (barred (segment :: segments)).byteLength =
      segment.byteLength + 1 + (barred segments).byteLength := by
  change Text.byteLength (segment ++ ['|'] ++ barred segments) = _
  rw [Text.byteLength_append, Text.byteLength_append]
  rfl

theorem parseSteps_append (position : Nat) (first second : List Text) :
    parseSteps position (first ++ second) =
      (parseSteps position first >>= fun steps =>
        (parseSteps (position + (barred first).byteLength) second).map (steps ++ ·)) := by
  induction first generalizing position with
  | nil =>
    change parseSteps position second = (parseSteps position second).map ([] ++ ·)
    cases parseSteps position second <;> rfl
  | cons segment first ih =>
    have hbytes : position + segment.byteLength + 1 + (barred first).byteLength =
        position + (barred (segment :: first)).byteLength := by
      rw [byteLength_barred_cons]
      omega
    rw [List.cons_append, parseSteps, parseSteps]
    cases Step.parse position segment with
    | error e => rfl
    | ok step =>
      simp only [bind, Except.bind]
      rw [ih, hbytes]
      cases parseSteps (position + segment.byteLength + 1) first with
      | error e => rfl
      | ok steps =>
        cases parseSteps (position + (barred (segment :: first)).byteLength) second <;> rfl

theorem parse_append_bar (a b : Text) :
    Chain.parse (a ++ '|' :: b) =
      (Chain.parse a >>= fun first =>
        ((Chain.parse b).mapError (.shift (a.byteLength + 1))).map (first ++ ·)) := by
  unfold Chain.parse
  rw [List.splitOn_append_cons_self, parseSteps_append, barred_splitOn, ← parseSteps_add,
    Text.byteLength_append]
  rfl

theorem parse_of_not_mem {t : Text} (h : '|' ∉ t) :
    Chain.parse t = (Step.parse 0 t).map fun step => [step] := by
  unfold Chain.parse
  rw [List.splitOn_eq_singleton h, parseSteps, parseSteps]
  cases Step.parse 0 t <;> rfl

theorem parse_induction {P : Text → Chain → Prop}
    (last : ∀ segment step, '|' ∉ segment → Step.parse 0 segment = .ok step → P segment [step])
    (more : ∀ segment step t chain, '|' ∉ segment → Step.parse 0 segment = .ok step →
      Chain.parse t = .ok chain → P t chain → P (segment ++ '|' :: t) (step :: chain))
    {t : Text} {chain : Chain} (h : Chain.parse t = .ok chain) : P t chain := by
  induction hlength : t.length using Nat.strongRecOn generalizing t chain with
  | ind n ih =>
    by_cases hbar : '|' ∈ t
    · obtain ⟨segment, rest, rfl, hsegment⟩ := List.eq_append_cons_of_mem hbar
      rw [parse_append_bar, parse_of_not_mem hsegment] at h
      obtain ⟨first, hfirst, h⟩ := Except.bind_eq_ok h
      obtain ⟨step, hstep, rfl⟩ := Except.map_eq_ok hfirst
      obtain ⟨second, hsecond, rfl⟩ := Except.map_eq_ok h
      have hrest : Chain.parse rest = .ok second := Except.mapError_eq_ok.1 hsecond
      refine more segment step rest second hsegment hstep hrest (ih rest.length ?_ hrest rfl)
      rw [← hlength, List.length_append, List.length_cons]
      omega
    · rw [parse_of_not_mem hbar] at h
      obtain ⟨step, hstep, rfl⟩ := Except.map_eq_ok h
      exact last t step hbar hstep

/-! ## Applying -/

theorem apply_append {first : Chain} (hne : first ≠ []) (second : Chain) (base : Option Date) :
    apply (first ++ second) base =
      (apply first base >>= fun
        | none => .ok none
        | some d => apply second (some d)) := by
  induction first generalizing base with
  | nil => exact absurd rfl hne
  | cons step first ih =>
    rw [List.cons_append, apply, apply]
    cases Step.apply step base with
    | error e => rfl
    | ok result =>
      cases result with
      | none => rfl
      | some d =>
        cases first with
        | nil => rfl
        | cons next first => exact ih (List.cons_ne_nil _ _) (some d)

theorem ne_nil_of_parse {t : Text} {chain : Chain} (h : Chain.parse t = .ok chain) :
    chain ≠ [] := by
  unfold Chain.parse at h
  obtain ⟨segment, segments, hsplit⟩ := List.exists_cons_of_ne_nil (List.splitOn_ne_nil '|' t)
  rw [hsplit, parseSteps] at h
  obtain ⟨step, -, h⟩ := Except.bind_eq_ok h
  obtain ⟨steps, -, h⟩ := Except.bind_eq_ok h
  cases h
  exact List.cons_ne_nil _ _

/-- Chains with a bar between them are read one after the other, where errors of the second count
from the start of the first, and applied one after the other, unless the first gives no date. -/
theorem parse_and_apply_of_bar (a b : Text) :
    (Chain.parse (a ++ '|' :: b) =
      match Chain.parse a, Chain.parse b with
      | .error e, _ => .error e
      | .ok _, .error e => .error (e.shift (a.byteLength + 1))
      | .ok first, .ok second => .ok (first ++ second)) ∧
    ∀ first second, Chain.parse a = .ok first → Chain.parse b = .ok second → ∀ base,
      apply (first ++ second) base =
        match apply first base with
        | .error e => .error e
        | .ok none => .ok none
        | .ok (some d) => apply second (some d) := by
  constructor
  · rw [parse_append_bar]
    cases Chain.parse a with
    | error e => rfl
    | ok first => cases Chain.parse b <;> rfl
  · intro first second hfirst _ base
    rw [apply_append (ne_nil_of_parse hfirst)]
    cases apply first base with
    | error e => rfl
    | ok result => cases result <;> rfl

/-- The position of the fault counts the date and the bar, and the guard is asked about the date
that the first part gives. -/
theorem parse_and_apply_of_thursday :
    let a := "2018-04-19".toList
    let b := "{{?D=Thu}}+1 day".toList
    Chain.parse (a ++ '|' :: "+1 bogus".toList) = .error (.invalidPhrase 11 (.missingUnit 0)) ∧
      ∃ first second, Chain.parse a = .ok first ∧ Chain.parse b = .ok second ∧
        apply (first ++ second) none = .ok (some ⟨⟨2018, 4, 20⟩, by decide⟩) := by
  intro a b
  obtain ⟨hfault, -⟩ := parse_and_apply_of_bar a "+1 bogus".toList
  obtain ⟨-, happly⟩ := parse_and_apply_of_bar a b
  have hfirst : Chain.parse a = .ok [.plain [.date 2018 4 (some 19)]] := by decide +kernel
  have hsecond : Chain.parse b = .ok
      [.guarded ⟨[.weekdayShort], false, ["Thu".toList]⟩ (some [.offset 1 .day])] := by
    decide +kernel
  refine ⟨?_, _, _, hfirst, hsecond, ?_⟩
  · rw [hfault]
    decide +kernel
  · rw [happly _ _ hfirst hsecond none]
    decide +kernel

end Chain
end HolidayRules

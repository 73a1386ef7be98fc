import HolidayRules.Proofs.Chain.Composition
import HolidayRules.Proofs.Phrase.FaultPositions
import HolidayRules.Proofs.Text.Trimming

set_option autoImplicit false

/-!
# Positions of faults in chains

The position of an unknown letter is that of the letter. The position of a phrase is where the phrase
begins, if it stands by itself; behind a guard it is where the guard ends, so that blanks between the
guard and its phrase are not counted.
-/
namespace HolidayRules

/-- What an error quotes from a text stands where the error says, if one counts the blanks that stand
at the position of a phrase. They take `blanks` bytes. -/
def ChainError.IsPlaced (t : Text) (blanks : Nat) : ChainError → Prop
  | .unknownLetter position found => ∃ rest, t.dropBytes? position = some (found :: rest)
  | .invalidPhrase position (.unexpected p found) => t.indentAt position = blanks ∧
      ((∀ c ∈ found.head?, c.isDigit = false) → t.hasAt (position + blanks + p) found = true)
  | _ => True

theorem Phrase.isPlaced_of_parseAt {t blanks core rest : Text} {position : Nat} {e : ChainError}
    (hplace : t.dropBytes? position = some (blanks ++ (core ++ rest)))
    (hblanks : ∀ c ∈ blanks, isBlank c = true) (hcore : core.IsTrimmed)
    (h : parseAt position core = .error e) : e.IsPlaced t blanks.byteLength := by
  obtain ⟨cause, hcause, rfl⟩ := Except.mapError_eq_error h
  cases cause with
  | unexpected p found =>
    have hstart : ∀ c ∈ (core ++ rest).head?, isBlank c = false := by
      cases core with
      | nil =>
        rw [Phrase.parse, scan, scanFrom] at hcause
        cases hcause
      | cons c core => exact hcore.1
    refine ⟨?_, fun hfound => ?_⟩
    · unfold Text.indentAt
      rw [hplace]
      exact Text.indent_append hblanks hstart
    · exact Text.hasAt_add (Text.dropBytes?_add hplace) (hasAt_of_parse_error hcause hfound)
  | _ => trivial

namespace Guard

theorem isPlaced_of_readLetters {t names rest : Text} {position : Nat} {e : ChainError}
    (hplace : t.dropBytes? position = some (names ++ rest))
    (h : readLetters position names = .error e) (blanks : Nat) : e.IsPlaced t blanks := by
  induction names generalizing position with
  | nil => cases h
  | cons c names ih =>
    unfold readLetters at h
    split at h
    next =>
      cases h
      exact ⟨_, hplace⟩
    next letter hletter =>
      exact ih (Text.dropBytes?_cons hplace) (Except.map_eq_error h)

theorem isPlaced_of_parse {t body rest : Text} {position : Nat} {e : ChainError}
    (hplace : t.dropBytes? position = some (body ++ rest))
    (h : Guard.parse position body = .error e) (blanks : Nat) : e.IsPlaced t blanks := by
  unfold Guard.parse at h
  split at h
  next =>
    cases h
    trivial
  next before after hcut =>
    dsimp only at h
    have hnames : (if before.getLast? == some '!' then before.dropLast else before) <+: before := by
      split
      · exact List.dropLast_prefix before
      · exact List.prefix_refl before
    generalize (if before.getLast? == some '!' then before.dropLast else before) = names at h hnames
    split at h
    next =>
      cases h
      trivial
    next =>
      split at h
      next e' hletters =>
        cases h
        obtain ⟨more, hmore⟩ := hnames
        rw [Text.eq_of_cut? hcut, ← hmore, List.append_assoc, List.append_assoc,
          List.append_assoc] at hplace
        exact isPlaced_of_readLetters hplace hletters blanks
      next =>
        split at h
        next =>
          cases h
          trivial
        next => cases h

end Guard

namespace Step

theorem isPlaced_of_parseAction {t after rest : Text} {position : Nat} {e : ChainError}
    (hplace : t.dropBytes? position = some (after ++ rest))
    (h : parseAction position after = .error e) : ∃ blanks, e.IsPlaced t blanks := by
  unfold parseAction at h
  split at h
  next => cases h
  next =>
    obtain ⟨before, trailing, hafter, hbefore, -⟩ := Text.exists_trim after
    rw [hafter, List.append_assoc, List.append_assoc] at hplace
    exact ⟨before.byteLength, Phrase.isPlaced_of_parseAt hplace hbefore (Text.isTrimmed_trim after)
      (Except.map_eq_error h)⟩

theorem isPlaced_of_parseGuarded {t inner rest : Text} {position : Nat} {e : ChainError}
    (hplace : t.dropBytes? position = some (Guard.opening ++ (inner ++ rest)))
    (h : parseGuarded position inner = .error e) : ∃ blanks, e.IsPlaced t blanks := by
  unfold parseGuarded at h
  split at h
  next =>
    cases h
    exact ⟨0, trivial⟩
  next body after hcut =>
    rw [Text.eq_of_cut? hcut, List.append_assoc, List.append_assoc] at hplace
    have hbody := Text.dropBytes?_add hplace
    rcases Except.bind_eq_error h with hguard | ⟨guard, -, h⟩
    · exact ⟨0, Guard.isPlaced_of_parse hbody hguard 0⟩
    · rcases Except.bind_eq_error h with haction | ⟨action, -, h⟩
      · exact isPlaced_of_parseAction (Text.dropBytes?_add (Text.dropBytes?_add hbody)) haction
      · cases h

theorem isPlaced_of_parse {t segment rest : Text} {position : Nat} {e : ChainError}
    (hplace : t.dropBytes? position = some (segment ++ rest))
    (h : Step.parse position segment = .error e) :
    ∃ blanks, e.IsPlaced t blanks ∧ (blanks = 0 ∨ Guard.opening <+: segment.trim) := by
  obtain ⟨trailing, hsegment, -⟩ := Text.exists_takeWhile_append_trim segment
  rw [hsegment, List.append_assoc, List.append_assoc] at hplace
  have hcore := Text.dropBytes?_add hplace
  unfold Step.parse at h
  dsimp only at h
  split at h
  next hguarded =>
    obtain ⟨inner, hinner⟩ := List.isPrefixOf_iff_prefix.1 hguarded
    rw [← hinner, List.append_assoc] at hcore
    rw [← hinner, List.drop_left] at h
    obtain ⟨blanks, hplaced⟩ := isPlaced_of_parseGuarded hcore h
    exact ⟨blanks, hplaced, .inr (List.isPrefixOf_iff_prefix.1 hguarded)⟩
  next =>
    have hhere : t.dropBytes? (position + segment.indent) =
        some ([] ++ (segment.trim ++ (trailing ++ rest))) := hcore
    exact ⟨0, Phrase.isPlaced_of_parseAt hhere (by simp) (Text.isTrimmed_trim segment)
      (Except.map_eq_error h), .inl rfl⟩

end Step

namespace Chain

theorem exists_segment_of_parseSteps {segments : List Text} {position : Nat} {e : ChainError}
    (h : parseSteps position segments = .error e) :
    ∃ first segment last, segments = first ++ segment :: last ∧
      Step.parse (position + (barred first).byteLength) segment = .error e := by
  induction segments generalizing position with
  | nil => cases h
  | cons segment segments ih =>
    unfold parseSteps at h
    rcases Except.bind_eq_error h with hstep | ⟨step, -, h⟩
    · exact ⟨[], segment, segments, rfl, hstep⟩
    · rcases Except.bind_eq_error h with hsteps | ⟨steps, -, h⟩
      · obtain ⟨first, found, last, rfl, hfound⟩ := ih hsteps
        refine ⟨segment :: first, found, last, rfl, ?_⟩
        rwa [byteLength_barred_cons, ← Nat.add_assoc, ← Nat.add_assoc]
      · cases h

theorem dropBytes?_barred {t segment : Text} {first last : List Text}
    (h : t.splitOn '|' = first ++ segment :: last) :
    ∃ rest, t.dropBytes? (barred first).byteLength = some (segment ++ rest) := by
  have ht : (t ++ ['|']).dropLast = barred first ++ (segment ++ ('|' :: barred last).dropLast) := by
    rw [← barred_splitOn, h]
    simp [barred, List.dropLast_append_of_ne_nil]
  rw [List.dropLast_concat] at ht
  refine ⟨('|' :: barred last).dropLast, ?_⟩
  rw [ht]
  exact Text.dropBytes?_append _ _

theorem isPlaced_of_parse {t : Text} {e : ChainError} (h : Chain.parse t = .error e) :
    ∃ first segment last, t.splitOn '|' = first ++ segment :: last ∧
      Step.parse (barred first).byteLength segment = .error e ∧
      ∃ blanks, e.IsPlaced t blanks ∧ (blanks = 0 ∨ Guard.opening <+: segment.trim) := by
  obtain ⟨first, segment, last, hsplit, hstep⟩ := exists_segment_of_parseSteps h
  obtain ⟨rest, hplace⟩ := dropBytes?_barred hsplit
  rw [Nat.zero_add] at hstep
  exact ⟨first, segment, last, hsplit, hstep, Step.isPlaced_of_parse hplace hstep⟩

/-- An unknown letter stands where the error says. An unexpected text that begins with no digit
stands, but for the case of its letters, where the two positions of the error say, if one adds the
blanks at the first of them. There are none unless the step has a guard. -/
theorem found_of_parse_error (t : Text) :
    (∀ position found, Chain.parse t = .error (.unknownLetter position found) →
      ∃ rest, t.dropBytes? position = some (found :: rest)) ∧
    ∀ position p found, Chain.parse t = .error (.invalidPhrase position (.unexpected p found)) →
      (∀ c ∈ found.head?, c.isDigit = false) →
      t.hasAt (position + t.indentAt position + p) found = true ∧
        ∃ first segment last, t.splitOn '|' = first ++ segment :: last ∧
          Step.parse (barred first).byteLength segment =
            .error (.invalidPhrase position (.unexpected p found)) ∧
          (t.indentAt position = 0 ∨ Guard.opening <+: segment.trim) := by
  constructor
  · intro position found h
    obtain ⟨_, _, _, _, _, _, hplaced, -⟩ := isPlaced_of_parse h
    exact hplaced
  · intro position p found h hfound
    obtain ⟨first, segment, last, hsplit, hstep, blanks, ⟨hindent, hhas⟩, hguard⟩ :=
      isPlaced_of_parse h
    subst hindent
    exact ⟨hhas hfound, first, segment, last, hsplit, hstep, hguard⟩

theorem found_of_parse_error_of_second_segment :
    let t : Text := "+1 day|  noon BOGUS".toList
    t.hasAt (9 + t.indentAt 9 + 5) "bogus".toList = true ∧ t.indentAt 9 = 0 ∧
      ∃ rest, Text.dropBytes? 10 "+1 day|{{?X=1}}".toList = some ('X' :: rest) := by
  intro t
  have hparse : Chain.parse t = .error (.invalidPhrase 9 (.unexpected 5 "bogus".toList)) := by
    decide +kernel
  have hletter : Chain.parse "+1 day|{{?X=1}}".toList = .error (.unknownLetter 10 'X') := by
    decide +kernel
  have hletters : ∀ c ∈ "bogus".toList.head?, c.isDigit = false := by
    rintro c ⟨⟩
    rfl
  obtain ⟨hhas, -⟩ := (found_of_parse_error t).2 9 5 _ hparse hletters
  exact ⟨hhas, by decide, (found_of_parse_error _).1 10 'X' hletter⟩

/-- The blank between the guard and the word is not counted, so that the word stands one byte behind
the position that is told. -/
theorem not_hasAt_of_blank_behind_guard :
    let t : Text := "{{?D=Sat}} bogus".toList
    Chain.parse t = .error (.invalidPhrase 10 (.unexpected 0 "bogus".toList)) ∧
      t.hasAt (10 + 0) "bogus".toList = false ∧ t.hasAt (11 + 0) "bogus".toList = true := by
  decide +kernel

end Chain

end HolidayRules

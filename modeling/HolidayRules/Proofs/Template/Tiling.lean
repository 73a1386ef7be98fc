import Mathlib.Combinatorics.Enumerative.DyckWord
import HolidayRules.Proofs.Template.Groups
import HolidayRules.Proofs.Text.Positions

set_option autoImplicit false

/-!
# Lexemes tile the template

The lexemes of a template lie side by side and leave nothing out. Where braces can be taken in pairs
so that a group is closed, the group is a token, and it ends with the first braces that close it;
everywhere else a token is text.
-/
namespace HolidayRules.Template

open DyckStep

/-! ## Nested braces -/

/-- The double braces of a text, taken from left to right: one step up for each that opens a group and
one down for each that closes one. -/
def bracePairs : Text → List DyckStep
  | [] => []
  | '{' :: '{' :: rest => U :: bracePairs rest
  | '}' :: '}' :: rest => D :: bracePairs rest
  | _ :: rest => bracePairs rest

def IsNested (t : Text) : Prop := ∃ word : DyckWord, word.toList = bracePairs t

def OpensGroup (t : Text) : Prop := ∃ content rest, t = inBraces content ++ rest ∧ IsNested content

def Descends (height : Nat) (steps : List DyckStep) : Prop :=
  steps.count D = steps.count U + height ∧
    ∀ i, (steps.take i).count D ≤ (steps.take i).count U + height

theorem descends_zero_iff {t : Text} : Descends 0 (bracePairs t) ↔ IsNested t := by
  constructor
  · rintro ⟨hcount, hway⟩
    exact ⟨⟨bracePairs t, hcount.symm, hway⟩, rfl⟩
  · rintro ⟨word, hword⟩
    rw [← hword]
    exact ⟨word.count_U_eq_count_D.symm, word.count_D_le_count_U⟩

variable {height : Nat} {steps : List DyckStep}

theorem descends_nil : Descends height [] ↔ height = 0 := by
  simp [Descends, eq_comm]

theorem descends_cons {step : DyckStep} {next : Nat}
    (hstep : next + [step].count D = height + [step].count U) :
    Descends height (step :: steps) ↔ Descends next steps := by
  have hcount (a : DyckStep) (steps : List DyckStep) :
      (step :: steps).count a = [step].count a + steps.count a :=
    show ([step] ++ steps).count a = _ from List.count_append
  have hway (i : Nat) : ((step :: steps).take (i + 1)).count D ≤
      ((step :: steps).take (i + 1)).count U + height ↔
      (steps.take i).count D ≤ (steps.take i).count U + next := by
    rw [List.take_succ_cons, hcount D (steps.take i), hcount U (steps.take i)]
    omega
  unfold Descends
  rw [hcount D steps, hcount U steps]
  refine and_congr (by omega) ⟨fun h i => (hway i).1 (h (i + 1)), fun h i => ?_⟩
  cases i with
  | zero => exact Nat.zero_le _
  | succ i => exact (hway i).2 (h i)

theorem descends_up : Descends height (U :: steps) ↔ Descends (height + 1) steps :=
  descends_cons rfl

theorem descends_down : Descends (height + 1) (D :: steps) ↔ Descends height steps :=
  descends_cons rfl

theorem not_descends_down : ¬ Descends 0 (D :: steps) := by
  intro h
  have hfirst := h.2 1
  rw [List.take_succ_cons, List.take_zero] at hfirst
  exact absurd hfirst (by decide)

/-! ## Closing a group -/

theorem bracePairs_cons {c : Char} {t : Text} (hopen : c = '{' → t.head? ≠ some '{')
    (hclose : c = '}' → t.head? ≠ some '}') : bracePairs (c :: t) = bracePairs t := by
  rw [bracePairs]
  · rintro rest rfl rfl
    exact hopen rfl rfl
  · rintro rest rfl rfl
    exact hclose rfl rfl

theorem descends_of_closeGroup? {depth : Nat} {t content after : Text}
    (h : closeGroup? depth t = some (content, after)) : Descends depth (bracePairs content) := by
  fun_induction closeGroup? depth t generalizing content with
  | case1 => cases h
  | case2 depth t ih =>
    obtain ⟨parts, hparts, he⟩ := Option.map_eq_some_iff.1 h
    cases he
    exact descends_up.2 (ih hparts)
  | case3 t =>
    cases h
    exact descends_nil.2 rfl
  | case4 depth t ih =>
    obtain ⟨parts, hparts, he⟩ := Option.map_eq_some_iff.1 h
    cases he
    exact descends_down.2 (ih hparts)
  | case5 depth c t hopen hzero hsucc ih =>
    obtain ⟨parts, hparts, he⟩ := Option.map_eq_some_iff.1 h
    cases he
    have ht := eq_of_closeGroup? hparts
    rw [List.append_assoc] at ht
    rw [bracePairs_cons]
    · exact ih hparts
    · rintro rfl hbrace
      obtain ⟨more, hmore⟩ := List.head?_eq_some_iff.1 hbrace
      exact hopen (more ++ (closeBraces ++ parts.2)) rfl (by rw [ht, hmore]; rfl)
    · rintro rfl hbrace
      obtain ⟨more, hmore⟩ := List.head?_eq_some_iff.1 hbrace
      have hbraces : t = '}' :: (more ++ (closeBraces ++ parts.2)) := by
        rw [ht, hmore]
        rfl
      cases depth with
      | zero => exact hzero _ rfl rfl hbraces
      | succ depth => exact hsucc depth _ rfl rfl hbraces

theorem exists_closeGroup?_of_descends {depth : Nat} {content : Text}
    (h : Descends depth (bracePairs content)) (rest : Text) :
    ∃ first after, closeGroup? depth (content ++ (closeBraces ++ rest)) = some (first, after) ∧
      first <+: content := by
  fun_induction bracePairs content generalizing depth with
  | case1 =>
    obtain rfl := descends_nil.1 h
    exact ⟨[], rest, rfl, List.nil_prefix⟩
  | case2 content ih =>
    obtain ⟨first, after, hclose, hfirst⟩ := ih (descends_up.1 h)
    refine ⟨'{' :: '{' :: first, after, ?_, by simpa using hfirst⟩
    simp only [List.cons_append, closeGroup?, hclose, Option.map_some]
  | case3 content ih =>
    cases depth with
    | zero => exact absurd h not_descends_down
    | succ depth =>
      obtain ⟨first, after, hclose, hfirst⟩ := ih (descends_down.1 h)
      refine ⟨'}' :: '}' :: first, after, ?_, by simpa using hfirst⟩
      simp only [List.cons_append, closeGroup?, hclose, Option.map_some]
  | case4 c content hopen hclose ih =>
    by_cases hlast : c = '}' ∧ content = []
    · obtain ⟨rfl, rfl⟩ := hlast
      obtain rfl := descends_nil.1 h
      exact ⟨[], '}' :: rest, rfl, List.nil_prefix⟩
    · obtain ⟨first, after, hfound, hfirst⟩ := ih h
      refine ⟨c :: first, after, ?_, List.cons_prefix_cons.2 ⟨rfl, hfirst⟩⟩
      rw [List.cons_append, closeGroup?_cons, hfound]
      · rfl
      · rintro rfl hbrace
        cases content with
        | nil => cases hbrace
        | cons d content =>
          cases hbrace
          exact hopen content rfl rfl
      · rintro rfl hbrace
        cases content with
        | nil => exact hlast ⟨rfl, rfl⟩
        | cons d content =>
          cases hbrace
          exact hclose content rfl rfl

/-! ## One token -/

theorem isNested_of_group? {t content after : Text} (h : group? t = some (content, after)) :
    IsNested content := by
  unfold group? at h
  split at h
  next => exact descends_zero_iff.1 (descends_of_closeGroup? h)
  next => cases h

/-- A text with a group at its front is read as one with a group, although it may be shorter. -/
theorem exists_group?_of_isNested {content : Text} (h : IsNested content) (rest : Text) :
    ∃ first after, group? (inBraces content ++ rest) = some (first, after) ∧ first <+: content := by
  obtain ⟨first, after, hclose, hfirst⟩ :=
    exists_closeGroup?_of_descends (descends_zero_iff.2 h) rest
  refine ⟨first, after, ?_, hfirst⟩
  rw [inBraces_append]
  exact hclose

theorem not_infix_untilOpen (t : Text) : ¬ openBraces <:+: (untilOpen t).1 := by
  fun_induction untilOpen t with
  | case1 | case2 => exact show ¬ openBraces <:+: [] by decide
  | case3 c rest hopen ih =>
    intro hinside
    rcases List.infix_cons_iff.1 hinside with hstart | hinside
    · obtain ⟨rfl, more, hmore⟩ := List.cons_prefix_cons.1 hstart
      refine hopen (more ++ (untilOpen rest).2) rfl ?_
      calc rest = (untilOpen rest).1 ++ (untilOpen rest).2 := eq_of_untilOpen rest
        _ = '{' :: (more ++ (untilOpen rest).2) := by rw [← hmore]; rfl
    · exact ih hinside

/-- What is a token before the rest of a text. A group is the shortest that the text starts with. Text
starts with no group, and opens none behind its first character. -/
def Token.IsTaken (rest : Text) : Token → Prop
  | text s => s ≠ [] ∧ ¬ OpensGroup (s ++ rest) ∧ ¬ openBraces <:+: s.tail
  | group content => IsNested content ∧
    ∀ other more, inBraces content ++ rest = inBraces other ++ more → IsNested other →
      content <+: other

theorem eq_nil_of_nextToken? {t : Text} (h : nextToken? t = none) : t = [] := by
  cases t with
  | nil => rfl
  | cons c t =>
    unfold nextToken? at h
    dsimp only at h
    split at h
    next => cases h
    next => cases h

theorem isTaken_of_nextToken? {t rest : Text} {token : Token}
    (h : nextToken? t = some (token, rest)) : token.IsTaken rest := by
  unfold nextToken? at h
  split at h
  next => cases h
  next c tail =>
    split at h
    next content after hgroup =>
      cases h
      refine ⟨isNested_of_group? hgroup, fun other more heq hnested => ?_⟩
      obtain ⟨first, after, hfirst, hshort⟩ := exists_group?_of_isNested hnested more
      rw [← heq, ← eq_of_group? hgroup, hgroup] at hfirst
      cases hfirst
      exact hshort
    next hgroup =>
      cases h
      refine ⟨List.cons_ne_nil _ _, ?_, not_infix_untilOpen tail⟩
      rintro ⟨content, more, heq, hnested⟩
      obtain ⟨first, after, hfirst, -⟩ := exists_group?_of_isNested hnested more
      rw [← heq, List.cons_append, ← eq_of_untilOpen, hgroup] at hfirst
      cases hfirst

/-! ## All tokens -/

/-- Lexemes from one position of a text to another. Each starts where the one before it ends, and what
stands there starts with the source of its token, which it spans. -/
inductive Tiles (t : Text) : Nat → List Lexeme → Nat → Prop where
  | nil (position : Nat) : Tiles t position [] position
  | cons {token : Token} {lexemes : List Lexeme} {start last : Nat} {rest : Text}
      (hplace : t.dropBytes? start = some (token.source ++ rest)) (htoken : token.IsTaken rest)
      (h : Tiles t (start + token.source.byteLength) lexemes last) :
      Tiles t start (⟨some token, start, start + token.source.byteLength⟩ :: lexemes) last

theorem scanFrom_tiles {t : Text} {position : Nat} {rest : Text}
    (h : t.dropBytes? position = some rest) :
    ∃ lexemes, scanFrom position rest =
        lexemes ++ [⟨none, position + rest.byteLength, position + rest.byteLength⟩] ∧
      Tiles t position lexemes (position + rest.byteLength) := by
  fun_induction scanFrom position rest with
  | case1 position rest hnone =>
    obtain rfl := eq_nil_of_nextToken? hnone
    exact ⟨[], rfl, .nil position⟩
  | case2 position rest token after hnext hlt stop ih =>
    rw [eq_of_nextToken? hnext] at h ⊢
    obtain ⟨lexemes, hscan, htiles⟩ := ih (Text.dropBytes?_add h)
    rw [hscan, Text.byteLength_append, ← Nat.add_assoc]
    exact ⟨_, rfl, .cons h (isTaken_of_nextToken? hnext) htiles⟩

/-- Every text is tiled by its lexemes, with one more lexeme for its end. -/
theorem scan_tiles (t : Text) :
    ∃ lexemes, scan t = lexemes ++ [⟨none, t.byteLength, t.byteLength⟩] ∧
      Tiles t 0 lexemes t.byteLength := by
  have h := scanFrom_tiles (Text.dropBytes?_zero t)
  rwa [Nat.zero_add] at h

/-- Taken from the first brace on, the pairs are not all closed; from the second on they are. -/
example : scan ("é".toList ++ '{' :: inBraces ('{' :: ['a'])) =
    [⟨some (.text "é".toList), 0, 2⟩, ⟨some (.text ['{']), 2, 3⟩, ⟨some (.group ['{', 'a']), 3, 9⟩,
      ⟨none, 9, 9⟩] := by
  decide +kernel

end HolidayRules.Template

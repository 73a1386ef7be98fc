import HolidayRules.Proofs.Chain.Guards
import HolidayRules.Proofs.Template.Groups

set_option autoImplicit false

/-!
# Braces in chains

The braces of a chain that is read are those of its guards: phrases have none.
-/
namespace HolidayRules

open Template (BraceFree)

theorem Text.braceFree_of_isBlank {t : Text} (h : ∀ c ∈ t, isBlank c = true) : BraceFree t := by
  intro c hc
  constructor <;> rintro rfl <;> cases h _ hc

theorem Text.braceFree_of_trim {t : Text} (h : BraceFree t.trim) : BraceFree t := by
  obtain ⟨before, after, ht, hbefore, hafter⟩ := exists_trim t
  rw [ht]
  exact Template.braceFree_append.2
    ⟨braceFree_of_isBlank hbefore,
      Template.braceFree_append.2 ⟨h, braceFree_of_isBlank hafter⟩⟩

/-! ## Phrases -/

namespace Phrase

theorem take_length_takeWhile (p : Char → Bool) (t : Text) :
    t.take (t.takeWhile p).length = t.takeWhile p :=
  (List.prefix_iff_eq_take.1 (List.takeWhile_prefix p)).symm

theorem braceFree_takeWhile {p : Char → Bool} (hp : p '{' = false ∧ p '}' = false) (t : Text) :
    BraceFree (t.takeWhile p) := by
  intro c hc
  have h := List.all_eq_true.1 List.all_takeWhile c hc
  constructor <;> rintro rfl
  · rw [hp.1] at h
    cases h
  · rw [hp.2] at h
    cases h

theorem dashedDigits?_eq_some {t digits : Text} (h : dashedDigits? t = some digits) :
    ∃ rest, t = '-' :: (digits ++ rest) ∧ BraceFree digits := by
  unfold dashedDigits? at h
  split at h
  next c rest =>
    split at h
    next =>
      cases h
      obtain ⟨more, hmore⟩ := (List.takeWhile_prefix Char.isDigit).trans
        (List.take_prefix 2 (c :: rest))
      exact ⟨more, by rw [hmore], braceFree_takeWhile (by decide) _⟩
    next => cases h
  next => cases h

theorem braceFree_dash {t digits : Text} (h : dashedDigits? t = some digits) :
    BraceFree (t.take (digits.length + 1)) := by
  obtain ⟨rest, rfl, hdigits⟩ := dashedDigits?_eq_some h
  rw [List.take_succ_cons, List.take_left]
  exact Template.braceFree_cons.2 ⟨by decide, hdigits⟩

theorem braceFree_of_dateTail? {t : Text} {month used : Nat} {day : Option Nat}
    (h : dateTail? t = some (month, day, used)) : BraceFree (t.take used) := by
  unfold dateTail? at h
  obtain ⟨digits, hmonth, h⟩ := Option.bind_eq_some_iff.1 h
  have hdash := braceFree_dash hmonth
  split at h
  next =>
    cases h
    exact hdash
  next dayDigits hday =>
    cases h
    rw [show digits.length + dayDigits.length + 2 = (digits.length + 1) + (dayDigits.length + 1) by
      omega, List.take_add]
    exact Template.braceFree_append.2 ⟨hdash, braceFree_dash hday⟩

theorem braceFree_of_readDigits {t : Text} {token : Token} {used : Nat}
    (h : readDigits t = .ok (token, used)) : BraceFree (t.take used) := by
  have hdigits : BraceFree (t.takeWhile Char.isDigit) := braceFree_takeWhile (by decide) t
  have htake := take_length_takeWhile Char.isDigit t
  have hnumber : ∀ {α : Type} {n : Except Text α} {f : α → Token},
      (n.map fun n => (f n, (t.takeWhile Char.isDigit).length)) = .ok (token, used) →
      BraceFree (t.take used) := by
    intro α n f hn
    obtain ⟨n, -, hn⟩ := Except.map_eq_ok hn
    cases hn
    rwa [htake]
  unfold readDigits at h
  dsimp only at h
  split at h
  next hfour =>
    split at h
    next month day tail hdate =>
      cases h
      rw [List.take_add, ← hfour, htake]
      rw [hfour]
      exact Template.braceFree_append.2 ⟨hdigits, braceFree_of_dateTail? hdate⟩
    next => exact hnumber h
  next => exact hnumber h

theorem braceFree_of_readSigned {sign : Char} (hs : sign ≠ '{' ∧ sign ≠ '}') {t : Text}
    {token : Token} {used : Nat} (h : readSigned sign t = .ok (token, used)) :
    BraceFree ((sign :: t).take used) := by
  unfold readSigned at h
  dsimp only at h
  split at h
  next => cases h
  next =>
    obtain ⟨n, -, hn⟩ := Except.map_eq_ok h
    cases hn
    rw [List.take_succ_cons, take_length_takeWhile]
    exact Template.braceFree_cons.2 ⟨hs, braceFree_takeWhile (by decide) t⟩

theorem braceFree_of_readToken {c : Char} {rest : Text} {token : Token} {used : Nat}
    (h : readToken c rest = .ok (token, used)) : BraceFree ((c :: rest).take used) := by
  unfold readToken at h
  split at h
  next => exact braceFree_of_readDigits h
  next =>
    split at h
    next hs =>
      refine braceFree_of_readSigned ?_ h
      rcases hs with rfl | rfl <;> decide
    next =>
      split at h
      next =>
        cases h
        rw [take_length_takeWhile]
        exact braceFree_takeWhile (by decide) _
      next => cases h

theorem ne_brace_of_readToken {c : Char} {rest : Text} {read : Token × Nat}
    (h : readToken c rest = .ok read) : c ≠ '{' ∧ c ≠ '}' := by
  constructor <;> rintro rfl <;> cases h

theorem braceFree_of_scanFrom {position : Nat} {t : Text} {lexemes : List Lexeme}
    (h : scanFrom position t = .ok lexemes) : BraceFree t := by
  fun_induction scanFrom position t generalizing lexemes with
  | case1 => simp [BraceFree]
  | case2 position c rest hgap ih =>
    refine Template.braceFree_cons.2 ⟨?_, ih h⟩
    constructor <;> rintro rfl <;> cases hgap
  | case3 => cases h
  | case4 position c rest hgap token used hread =>
    rename_i ih
    obtain ⟨more, hmore, -⟩ := Except.map_eq_ok h
    have htaken : BraceFree (rest.take (used - 1)) := by
      cases used with
      | zero => simp [BraceFree]
      | succ used => exact (Template.braceFree_cons.1 (braceFree_of_readToken hread)).2
    rw [← List.take_append_drop (used - 1) rest]
    exact Template.braceFree_cons.2
      ⟨ne_brace_of_readToken hread, Template.braceFree_append.2 ⟨htaken, ih hmore⟩⟩

theorem braceFree_of_parse {t : Text} {phrase : Phrase} (h : Phrase.parse t = .ok phrase) :
    BraceFree t := by
  unfold Phrase.parse at h
  obtain ⟨lexemes, hscan, -⟩ := Except.bind_eq_ok h
  exact braceFree_of_scanFrom hscan

theorem braceFree_of_parseAt {position : Nat} {t : Text} {phrase : Phrase}
    (h : parseAt position t = .ok phrase) : BraceFree t := by
  unfold parseAt at h
  exact braceFree_of_parse (Except.mapError_eq_ok.1 h)

end Phrase

/-! ## Steps -/

namespace Guard

theorem braceFree_sign {letters : List DateLetter} {negated : Bool} :
    BraceFree (sign letters negated) := by
  intro c hc
  rcases eq_of_mem_sign hc with ⟨letter, rfl⟩ | rfl | rfl
  · cases letter <;> decide
  · decide
  · decide

end Guard

namespace Step

theorem braceFree_of_parseAction {position : Nat} {t : Text} {action : Option Phrase}
    (h : parseAction position t = .ok action) : BraceFree t := by
  unfold parseAction at h
  apply Text.braceFree_of_trim
  split at h
  next hempty =>
    rw [hempty]
    simp [BraceFree]
  next =>
    obtain ⟨phrase, hphrase, -⟩ := Except.map_eq_ok h
    exact Phrase.braceFree_of_parseAt hphrase

theorem parseGuarded_eq_ok {position : Nat} {t : Text} {step : Step}
    (h : parseGuarded position t = .ok step) :
    ∃ (start : Nat) (body after : Text) (guard : Guard) (action : Option Phrase),
      Text.cut? closeBraces t = some (body, after) ∧ Guard.parse start body = .ok guard ∧
        BraceFree after ∧ step = .guarded guard action := by
  unfold parseGuarded at h
  split at h
  next => cases h
  next body after hcut =>
    obtain ⟨guard, hguard, h⟩ := Except.bind_eq_ok h
    obtain ⟨action, haction, h⟩ := Except.bind_eq_ok h
    cases h
    exact ⟨_, body, after, guard, action, hcut, hguard, braceFree_of_parseAction haction, rfl⟩

/-- A segment without braces, or with a guard that the first closing braces end. -/
inductive IsSegment : Text → Step → Prop where
  | plain {segment : Text} {step : Step} (hfree : BraceFree segment) : IsSegment segment step
  | guarded {blanks values after : Text} {letters : List DateLetter} {negated : Bool}
      {action : Option Phrase} (hblanks : ∀ c ∈ blanks, isBlank c = true) (hletters : letters ≠ [])
      (hfirst : Text.cut? closeBraces (values ++ (closeBraces ++ after)) = some (values, after))
      (hafter : BraceFree after) :
      IsSegment
        (blanks ++
          (Guard.opening ++ (Guard.sign letters negated ++ (values ++ (closeBraces ++ after)))))
        (.guarded ⟨letters, negated, Text.commaItems values⟩ action)

theorem isSegment_of_parse {position : Nat} {segment : Text} {step : Step}
    (h : Step.parse position segment = .ok step) : IsSegment segment step := by
  obtain ⟨blanks, trailing, hsegment, hblanks, htrailing⟩ := Text.exists_trim segment
  unfold Step.parse at h
  dsimp only at h
  split at h
  next hopening =>
    obtain ⟨t, ht⟩ := List.isPrefixOf_iff_prefix.1 hopening
    rw [← ht, List.drop_left] at h
    obtain ⟨start, body, after, ⟨letters, negated, _⟩, action, hcut, hguard, hafter, rfl⟩ :=
      parseGuarded_eq_ok h
    obtain ⟨hletters, values, rfl, rfl⟩ := Guard.body_of_parse hguard
    have hwhole : segment = blanks ++ (Guard.opening ++ (Guard.sign letters negated ++
        (values ++ (closeBraces ++ (after ++ trailing))))) := by
      rw [hsegment, ← ht, Text.eq_of_cut? hcut]
      simp
    have hfirst := Text.cut?_append hcut trailing
    rw [Text.eq_of_cut? hcut] at hfirst
    rw [hwhole]
    refine .guarded hblanks hletters ?_ ?_
    · apply Text.cut?_of_append (s := Guard.sign letters negated)
      simpa using hfirst
    · exact Template.braceFree_append.2 ⟨hafter, Text.braceFree_of_isBlank htrailing⟩
  next =>
    obtain ⟨phrase, hphrase, -⟩ := Except.map_eq_ok h
    exact .plain (Text.braceFree_of_trim (Phrase.braceFree_of_parseAt hphrase))

end Step

/-! ## Chains -/

namespace Chain

theorem closeGroup?_of_step {segment rest : Text} {step : Step}
    (h : Step.parse 0 segment = .ok step) (hrest : ∀ depth, Template.closeGroup? depth rest = none)
    (depth : Nat) : Template.closeGroup? depth (segment ++ rest) = none := by
  cases Step.isSegment_of_parse h with
  | plain hfree =>
    rw [Template.closeGroup?_braceFree hfree, hrest]
    rfl
  | @guarded blanks values after letters negated action hblanks hletters hfirst hafter =>
    have hvalues :
        Template.closeGroup? (depth + 1) (values ++ (closeBraces ++ after) ++ rest) = none := by
      apply Option.eq_none_iff_forall_ne_some.2
      intro parts hclose
      rcases Template.closeGroup?_of_cut? hclose (Text.cut?_append hfirst rest) with
        ⟨hdepth, -⟩ | ⟨left, hopen⟩
      · cases hdepth
      · rw [Template.closeGroup?_braceFree hafter, hrest] at hopen
        cases hopen
    rw [List.append_assoc, Template.closeGroup?_braceFree (Text.braceFree_of_isBlank hblanks),
      List.append_assoc, Guard.opening, List.cons_append, List.cons_append, List.singleton_append,
      Template.closeGroup?, Template.closeGroup?_char (by decide), List.append_assoc,
      Template.closeGroup?_braceFree Guard.braceFree_sign, hvalues]
    rfl

/-- Nothing in a chain that is read closes a group that is open before it. -/
theorem closeGroup?_of_parse {t : Text} {chain : Chain} (h : Chain.parse t = .ok chain)
    (depth : Nat) : Template.closeGroup? depth t = none := by
  revert depth
  refine parse_induction (P := fun t _ => ∀ depth, Template.closeGroup? depth t = none) ?_ ?_ h
  · intro segment step _ hstep depth
    have hnone := closeGroup?_of_step hstep Template.closeGroup?_nil depth
    rwa [List.append_nil] at hnone
  · intro segment step t chain _ hstep _ ih depth
    apply closeGroup?_of_step hstep
    intro depth
    rw [Template.closeGroup?_char (by decide), ih]
    rfl

/-! ## Groups in guards -/

/-- Text that ends in the values of a guard, which begins the text or stands behind a bar. -/
inductive EndsInGuard (letters : List DateLetter) (negated : Bool) (values : Text) :
    Text → Prop where
  | guard {blanks : Text} (hblanks : ∀ c ∈ blanks, isBlank c = true) (hletters : letters ≠ [])
      (hbar : '|' ∉ values) (hclose : ¬ closeBraces <:+: values) :
      EndsInGuard letters negated values
        (blanks ++ (Guard.opening ++ (Guard.sign letters negated ++ values)))
  | step (segment : Text) {t : Text} (h : EndsInGuard letters negated values t) :
      EndsInGuard letters negated values (segment ++ '|' :: t)

def TakesGroup (chain : Chain) (head content : Text) : Prop :=
  ∃ letters negated values action, EndsInGuard letters negated values head ∧
    Step.guarded ⟨letters, negated, Text.commaItems (values ++ (openBraces ++ content))⟩ action ∈
      chain

theorem exists_opening {w rest content tail : Text} (hstart : rest.head? ≠ some '{')
    (hmark : content.head? ≠ some '?') (h : w ++ rest = inBraces content ++ tail) :
    ∃ u, w = '{' :: '{' :: u ∧ u.head? ≠ some '?' ∧
      u ++ rest = content ++ (closeBraces ++ tail) := by
  rw [Template.inBraces_append] at h
  match w with
  | [] => exact absurd (congrArg List.head? h) hstart
  | [c] => exact absurd (congrArg List.head? (List.cons.inj h).2) hstart
  | c :: d :: u =>
    obtain ⟨rfl, hd⟩ := List.cons.inj h
    obtain ⟨rfl, hu⟩ := List.cons.inj hd
    refine ⟨u, rfl, ?_, hu⟩
    intro hhead
    obtain ⟨v, rfl⟩ := List.head?_eq_some_iff.1 hhead
    cases content with
    | nil => exact absurd (List.cons.inj hu).1 (by decide)
    | cons e content => exact hmark (congrArg some (List.cons.inj hu).1.symm)

/-- Opening braces in a step with a guard are those of the guard or stand in its values. -/
theorem split_of_opening {head u blanks sign values after : Text} (hblanks : BraceFree blanks)
    (hsign : BraceFree sign) (hafter : BraceFree after) (hu : u.head? ≠ some '?')
    (h : head ++ '{' :: '{' :: u =
      blanks ++ (Guard.opening ++ (sign ++ (values ++ (closeBraces ++ after))))) :
    ∃ first second, values = first ++ (openBraces ++ second) ∧
      head = blanks ++ (Guard.opening ++ (sign ++ first)) ∧
      u = second ++ (closeBraces ++ after) := by
  obtain ⟨more, rfl, hmore⟩ := Text.exists_append_of_not_mem (fun hc => (hblanks _ hc).1 rfl) h
  match more with
  | [] =>
    cases hmore
    exact absurd rfl hu
  | [c] => cases hmore
  | [c, d] => cases hmore
  | c :: d :: e :: more =>
    obtain ⟨rfl, rfl, rfl, htail⟩ : '{' = c ∧ '{' = d ∧ '?' = e ∧
        more ++ '{' :: '{' :: u = sign ++ (values ++ (closeBraces ++ after)) := by
      simpa [Guard.opening, eq_comm] using hmore
    obtain ⟨first, rfl, hfirst⟩ :=
      Text.exists_append_of_not_mem (fun hc => (hsign _ hc).1 rfl) htail
    have hend : '{' ∉ closeBraces ++ after := by
      intro hc
      rcases List.mem_append.1 hc with hc | hc
      · exact absurd hc (by decide)
      · exact (hafter _ hc).1 rfl
    obtain ⟨second, rfl, hsecond⟩ := Text.exists_append_cons_of_not_mem hend hfirst
    have hbrace : second ++ (closeBraces ++ after) = [] ++ '{' :: u := hsecond.symm
    obtain ⟨second, rfl, hu⟩ := Text.exists_append_cons_of_not_mem hend hbrace
    exact ⟨first, second, rfl, rfl, hu⟩

theorem takesGroup_of_step {segment head content tail w rest : Text} {step : Step}
    (h : Step.parse 0 segment = .ok step) (hbar : '|' ∉ segment)
    (hrest : ∀ depth, Template.closeGroup? depth rest = none) (hstart : rest.head? ≠ some '{')
    (hgroup : Template.IsGroup content) (hmark : content.head? ≠ some '?')
    (hsegment : segment = head ++ w) (hw : w ++ rest = inBraces content ++ tail) :
    TakesGroup [step] head content := by
  obtain ⟨u, rfl, hu, hcontent⟩ := exists_opening hstart hmark hw
  cases Step.isSegment_of_parse h with
  | plain hfree => exact absurd rfl (hfree '{' (by simp [hsegment])).1
  | @guarded blanks values after letters negated action hblanks hletters hfirst hafter =>
    obtain ⟨first, second, rfl, rfl, rfl⟩ := split_of_opening (Text.braceFree_of_isBlank hblanks)
      Guard.braceFree_sign hafter hu hsegment.symm
    have hsecond :
        Text.cut? closeBraces (second ++ (closeBraces ++ after)) = some (second, after) := by
      apply Text.cut?_of_append (s := first ++ openBraces)
      simpa using hfirst
    have hcut := Text.cut?_append hsecond rest
    rw [hcontent] at hcut
    rcases Template.closeGroup?_of_cut? (hgroup tail) hcut with ⟨-, rfl, -⟩ | ⟨left, hopen⟩
    · refine ⟨letters, negated, first, action, .guard hblanks hletters ?_ ?_,
        List.mem_singleton_self _⟩
      · intro hmem
        exact hbar (by simp [hmem])
      · intro hinside
        exact Text.not_infix_of_cut? (by decide) hfirst
          (hinside.trans (List.prefix_append _ _).isInfix)
    · rw [Template.closeGroup?_braceFree hafter, hrest] at hopen
      cases hopen

theorem takesGroup_of_parse {head content tail : Text} {chain : Chain}
    (hgroup : Template.IsGroup content) (hmark : content.head? ≠ some '?')
    (h : Chain.parse (head ++ (inBraces content ++ tail)) = .ok chain) :
    chain.TakesGroup head content := by
  refine parse_induction (P := fun t chain => ∀ head, t = head ++ (inBraces content ++ tail) →
    chain.TakesGroup head content) ?_ ?_ h head rfl
  · intro segment step hbar hstep head hsplit
    exact takesGroup_of_step hstep hbar Template.closeGroup?_nil (by simp) hgroup hmark hsplit
      (List.append_nil _)
  · intro segment step t chain hbar hstep ht ih head hsplit
    rcases List.append_eq_append_iff.1 hsplit with ⟨more, rfl, hmore⟩ | ⟨more, hsegment, hmore⟩
    · cases more with
      | nil => cases hmore
      | cons c more =>
        obtain ⟨rfl, ht⟩ := List.cons.inj hmore
        obtain ⟨letters, negated, values, action, hends, hmem⟩ := ih more ht
        exact ⟨letters, negated, values, action, .step segment hends, List.mem_cons_of_mem _ hmem⟩
    · have hrest : ∀ depth, Template.closeGroup? depth ('|' :: t) = none := by
        intro depth
        rw [Template.closeGroup?_char (by decide), closeGroup?_of_parse ht]
        rfl
      obtain ⟨letters, negated, values, action, hends, hmem⟩ := takesGroup_of_step hstep hbar hrest
        (by simp) hgroup hmark hsegment hmore.symm
      rw [← List.mem_singleton.1 hmem]
      exact ⟨letters, negated, values, action, hends, List.mem_cons_self⟩

end Chain
end HolidayRules

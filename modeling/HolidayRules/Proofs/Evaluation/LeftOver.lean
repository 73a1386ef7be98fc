import HolidayRules.Proofs.Chain.Braces
import HolidayRules.Proofs.Evaluation.UnknownCalls

set_option autoImplicit false

/-!
# Groups that are left over

Every year list but the first and every call but those of the first extension stay as they are
written. A code with such a group comes to a date only if the group stands in the values of a guard,
whose closing braces it then has.
-/
namespace HolidayRules

def Piece.IsLeftOver (chosen : Template) : Piece → Prop
  | .years _ _ => True
  | .call name => ¬ Template.IsFirstCall name chosen
  | .text _ | .slot _ => False

namespace Template

def answer? (registry : Registry) (d : Ymd) (t : Template) : Option (Text × Text) := do
  let name ← firstCall? t
  let extension ← registry.get? name
  let answer ← extension d
  return (name, answer)

theorem fill?_of_expand {registry : Registry} {d : Ymd} {t : Template} {text : Text}
    (h : expand registry d t = .ok (some text)) :
    fill? d (t.answer? registry d) t = some text := by
  unfold expand at h
  unfold answer?
  cases hfirst : firstCall? t with
  | none =>
    rw [hfirst] at h
    exact Except.ok.inj h
  | some name =>
    rw [hfirst] at h
    dsimp only at h
    unfold Registry.call at h
    cases hget : registry.get? name with
    | none => simp [hget] at h
    | some extension =>
      cases hanswer : extension d with
      | none => simp [hget, hanswer] at h
      | some answer => simpa [hget, hanswer] using h

theorem fill?_of_isLeftOver {chosen : Template} {piece : Piece} (h : piece.IsLeftOver chosen)
    (registry : Registry) (d : Ymd) :
    piece.fill? d (chosen.answer? registry d) = some piece.source := by
  cases piece with
  | text => cases h
  | slot => cases h
  | years => rfl
  | call name =>
    cases hanswer : chosen.answer? registry d with
    | none => rfl
    | some called =>
      obtain ⟨first, hfirst, hcalled⟩ := Option.bind_eq_some_iff.1 hanswer
      obtain ⟨extension, -, hcalled⟩ := Option.bind_eq_some_iff.1 hcalled
      obtain ⟨answer, -, hcalled⟩ := Option.bind_eq_some_iff.1 hcalled
      cases hcalled
      have hne : name ≠ first := by
        rintro rfl
        exact h (firstCall?_eq_some_iff.1 hfirst)
      simp [Piece.fill?, hne]

theorem exists_mem_parse_of_isChoice {year : Int} {code : Text} {chosen : Template} {piece : Piece}
    (h : IsChoice year (parse code) chosen) (hmem : piece ∈ chosen) : ∃ s, piece ∈ parse s := by
  generalize hparse : parse code = t at h
  cases h with
  | whole h => exact ⟨code, hparse ▸ hmem⟩
  | @entry before after entry first k entries hbefore hyear hentry =>
    rcases List.mem_append.1 hmem with hmem | hmem
    · exact ⟨code, by simp [hparse, hmem]⟩
    rcases List.mem_append.1 hmem with hmem | hmem
    · obtain ⟨s, rfl⟩ := entriesAreRead_parse code first entries (by simp [hparse]) entry
        (List.mem_of_getElem? hentry)
      exact ⟨s, hmem⟩
    · exact ⟨code, by simp [hparse, hmem]⟩

theorem takesGroup_of_isLeftOver {registry : Registry} {d : Ymd} {code text : Text}
    {chosen before after : Template} {piece : Piece} {chain : Chain}
    (hchosen : IsChoice d.year (parse code) chosen) (hsplit : chosen = before ++ piece :: after)
    (hleft : piece.IsLeftOver chosen) (htext : chosen.expand registry d = .ok (some text))
    (hchain : Chain.parse text = .ok chain) :
    ∃ head content, fill? d (chosen.answer? registry d) before = some head ∧
      piece.source = inBraces content ∧ chain.TakesGroup head content := by
  have hfill := fill?_of_expand htext
  have hpiece := fill?_of_isLeftOver hleft registry d
  have hmem : piece ∈ chosen := by simp [hsplit]
  obtain ⟨s, hmem⟩ := exists_mem_parse_of_isChoice hchosen hmem
  have hnotText : ∀ s, piece ≠ .text s := by
    rintro s rfl
    exact hleft
  obtain ⟨content, hsource, hgroup, hmark⟩ := isWrittenAsGroup_of_mem_parse hnotText hmem
  generalize chosen.answer? registry d = called at hfill hpiece
  rw [hsplit, fill?_append, fill?_cons_eq, hpiece] at hfill
  obtain ⟨head, hhead, hfill⟩ := Option.bind_eq_some_iff.1 hfill
  obtain ⟨rest, hrest, rfl⟩ := Option.map_eq_some_iff.1 hfill
  obtain ⟨tail, -, rfl⟩ := Option.map_eq_some_iff.1 hrest
  rw [hsource] at hchain
  exact ⟨head, content, hhead, hsource, Chain.takesGroup_of_parse hgroup hmark hchain⟩

theorem exists_chain_of_outcome_eq_date {text : Text} {d r : Ymd}
    (h : Chain.outcome text d = .date r) : ∃ chain, Chain.parse text = .ok chain := by
  unfold Chain.outcome at h
  cases hparse : Chain.parse text with
  | error e => simp [hparse] at h
  | ok chain => exact ⟨chain, rfl⟩

/-- A code with a group that is left over does not apply, or its first call is unknown, or it comes
to a date because the text before the group leaves a guard open, which takes the group for the end
of its values. -/
theorem evaluate_leftOver (registry : Registry) (d : Ymd) (code : Text)
    {chosen before after : Template} {piece : Piece}
    (hchosen : IsChoice d.year (parse code) chosen) (hsplit : chosen = before ++ piece :: after)
    (hleft : piece.IsLeftOver chosen) :
    HolidayRules.evaluate registry code d = .ok .notApplicable ∨
    (∃ first, IsFirstCall first chosen ∧
      HolidayRules.evaluate registry code d = .error (.unknown first)) ∨
    ∃ result text chain head content,
      HolidayRules.evaluate registry code d = .ok (.date result) ∧
      chosen.expand registry d = .ok (some text) ∧ Chain.parse text = .ok chain ∧
      fill? d (chosen.answer? registry d) before = some head ∧
      piece.source = inBraces content ∧ chain.TakesGroup head content := by
  cases hresult : HolidayRules.evaluate registry code d with
  | error e =>
    obtain ⟨first, ⟨other, hother, hfirst, -⟩, rfl⟩ := evaluate_eq_error_iff.1 hresult
    exact .inr (.inl ⟨first, hother.unique hchosen ▸ hfirst, rfl⟩)
  | ok outcome =>
    cases outcome with
    | notApplicable => exact .inl rfl
    | date result =>
      change (parse code).evaluate registry d = _ at hresult
      rw [evaluate_of_isChoice registry hchosen] at hresult
      obtain ⟨expanded, hexpand, houtcome⟩ := Except.map_eq_ok hresult
      cases expanded with
      | none => cases houtcome
      | some text =>
        obtain ⟨chain, hchain⟩ := exists_chain_of_outcome_eq_date houtcome
        obtain ⟨head, content, hhead, hsource, htakes⟩ :=
          takesGroup_of_isLeftOver hchosen hsplit hleft hexpand hchain
        exact .inr (.inr ⟨result, text, chain, head, content, rfl, hexpand, hchain, hhead, hsource,
          htakes⟩)

/-! ## A guard that is closed by a call

The guard of this code is never closed, so that it is text. In the chain the closing braces of the
second call end it.
-/

theorem leftOver_second_call :
    let chosen : Template :=
      [.call "islamic".toList, .text "|\x7b\x7b?D!=Sat,".toList, .call "chinese".toList]
    IsChoice 2018 (parse "{{islamic}}|\x7b\x7b?D!=Sat,{{chinese}}".toList) chosen ∧
      (Piece.call "chinese".toList).IsLeftOver chosen := by
  intro chosen
  have hcode : parse "{{islamic}}|\x7b\x7b?D!=Sat,{{chinese}}".toList = chosen := by
    rw [parse_of_group (show nextToken? _ = some (.group "islamic".toList,
        "|\x7b\x7b?D!=Sat,{{chinese}}".toList) by decide),
      parse_of_text (show nextToken? _ = some (.text "|".toList,
        "\x7b\x7b?D!=Sat,{{chinese}}".toList) by decide),
      parse_of_text (show nextToken? _ = some (.text "\x7b\x7b?D!=Sat,".toList,
        "{{chinese}}".toList) by decide),
      parse_of_group (show nextToken? _ = some (.group "chinese".toList, []) by decide), parse_nil]
    rfl
  constructor
  · rw [hcode]
    exact .whole (by simp [chosen, HasNoYears])
  · change ¬ IsFirstCall _ _
    rw [← firstCall?_eq_some_iff]
    decide

theorem evaluate_second_call : HolidayRules.evaluate .builtin
    "{{islamic}}|\x7b\x7b?D!=Sat,{{chinese}}".toList ⟨2018, 10, 1⟩ = .ok (.date ⟨2018, 6, 15⟩) := by
  decide +kernel

theorem takesGroup_second_call : ∃ text chain, Chain.parse text = .ok chain ∧
    chain.TakesGroup "2018-06-15|\x7b\x7b?D!=Sat,".toList "chinese".toList := by
  obtain ⟨hchosen, hleft⟩ := leftOver_second_call
  have hdate := evaluate_second_call
  rcases @evaluate_leftOver .builtin ⟨2018, 10, 1⟩ _ _
    [.call "islamic".toList, .text "|\x7b\x7b?D!=Sat,".toList] [] _ hchosen rfl hleft with
    hnone | ⟨first, -, herror⟩ |
      ⟨result, text, chain, head, content, -, -, hchain, hhead, hsource, htakes⟩
  · rw [hnone] at hdate
    cases hdate
  · rw [herror] at hdate
    cases hdate
  · have hhead' : some head = some "2018-06-15|\x7b\x7b?D!=Sat,".toList :=
      hhead.symm.trans (by decide +kernel)
    have hcontent : "chinese".toList = content :=
      List.append_cancel_left (List.append_cancel_right hsource)
    obtain rfl := Option.some.inj hhead'
    exact ⟨text, chain, hchain, hcontent ▸ htakes⟩

theorem evaluate_date_and_leftOver :
    let code := "{{islamic}}|\x7b\x7b?D!=Sat,{{chinese}}".toList
    (∃ chosen before after, IsChoice 2018 (parse code) chosen ∧
      chosen = before ++ .call "chinese".toList :: after ∧
      (Piece.call "chinese".toList).IsLeftOver chosen) ∧
    HolidayRules.evaluate .builtin code ⟨2018, 10, 1⟩ = .ok (.date ⟨2018, 6, 15⟩) := by
  obtain ⟨hchosen, hleft⟩ := leftOver_second_call
  exact ⟨⟨_, [.call "islamic".toList, .text "|\x7b\x7b?D!=Sat,".toList], [], hchosen, rfl,
    hleft⟩, evaluate_second_call⟩

end Template
end HolidayRules

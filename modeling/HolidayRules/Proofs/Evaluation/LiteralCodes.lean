import HolidayRules.Proofs.Evaluation.UnknownCalls
import HolidayRules.Proofs.Template.Groups

set_option autoImplicit false

/-!
# Codes that are only text

A code without slots, year lists and calls goes through the template as it is written. A guard is a
group of braces, but it begins with a question mark, and so does none of the other groups.
-/
namespace HolidayRules

namespace Template

def HasOnlyText (t : Template) : Prop := ∀ piece ∈ t, ∃ s, piece = .text s

theorem hasOnlyText_cons (s : Text) {t : Template} (h : t.HasOnlyText) :
    (cons (.text s) t).HasOnlyText := by
  intro piece hmem
  refine Classical.byContradiction fun hpiece => ?_
  rcases mem_of_mem_cons (not_exists.1 hpiece) hmem with rfl | hmem
  · exact hpiece ⟨s, rfl⟩
  · exact hpiece (h piece hmem)

theorem hasOnlyText_join {a b : Template} (ha : a.HasOnlyText) (hb : b.HasOnlyText) :
    (join a b).HasOnlyText := by
  intro piece hmem
  refine Classical.byContradiction fun hpiece => ?_
  rcases mem_of_mem_join (not_exists.1 hpiece) hmem with hmem | hmem
  · exact hpiece (ha piece hmem)
  · exact hpiece (hb piece hmem)

theorem hasOnlyText_parse_braceFree {t : Text} (h : BraceFree t) : (parse t).HasOnlyText := by
  induction t with
  | nil => simp [parse_nil, HasOnlyText]
  | cons c t ih =>
    obtain ⟨hc, ht⟩ := braceFree_cons.1 h
    rw [parse_cons_of_ne hc.1]
    exact hasOnlyText_cons [c] (ih ht)

/-- What begins with a question mark is neither a slot nor a year list nor a call. -/
theorem ofGroup_question (content : Text) :
    ofGroup ('?' :: content) =
      cons (.text openBraces) (join (parse ('?' :: content)) [.text closeBraces]) := by
  have hslot : Slot.ofName? ('?' :: content) = none := by
    rw [Slot.ofName?_eq_none_iff]
    intro slot hname
    cases slot <;> cases hname
  have hyears : readYears? ('?' :: content) = none := by
    rw [Option.eq_none_iff_forall_ne_some]
    rintro ⟨first, entries⟩ hread
    exact head?_ne_of_readYears? hread rfl
  have hcall : isCallName ('?' :: content) = false := by
    rw [← Bool.not_eq_true]
    exact fun h => head?_ne_of_isCallName h rfl
  unfold ofGroup
  rw [hslot, hyears, hcall]
  rfl

theorem hasOnlyText_parse_question {content rest : Text} (hc : BraceFree content)
    (hrest : BraceFree rest) : (parse (inBraces ('?' :: content) ++ rest)).HasOnlyText := by
  have hcontent : BraceFree ('?' :: content) := braceFree_cons.2 ⟨by decide, hc⟩
  rw [parse_of_group (nextToken?_flat_group hcontent.isFlat rest), ofGroup_question]
  refine hasOnlyText_join (hasOnlyText_cons _ (hasOnlyText_join ?_ ?_)) ?_
  · exact hasOnlyText_parse_braceFree hcontent
  · simp [HasOnlyText]
  · exact hasOnlyText_parse_braceFree hrest

theorem fill?_of_hasOnlyText {t : Template} (h : t.HasOnlyText) (d : Ymd)
    (called : Option (Text × Text)) : fill? d called t = some t.source := by
  induction t with
  | nil => rfl
  | cons piece t ih =>
    obtain ⟨⟨s, rfl⟩, hrest⟩ := List.forall_mem_cons.1 h
    rw [fill?_cons_eq, ih hrest]
    rfl

theorem evaluate_of_hasOnlyText (registry : Registry) {code : Text}
    (h : (parse code).HasOnlyText) (d : Ymd) :
    HolidayRules.evaluate registry code d = .ok (Chain.outcome code d) := by
  have hyears : (parse code).HasNoYears := by
    intro first entries hmem
    obtain ⟨s, hs⟩ := h _ hmem
    cases hs
  have hcall : firstCall? (parse code) = none := by
    rw [Option.eq_none_iff_forall_ne_some]
    intro name hname
    obtain ⟨before, after, hsplit, -⟩ := firstCall?_eq_some_iff.1 hname
    obtain ⟨s, hs⟩ := h (.call name) (by simp [hsplit])
    cases hs
  have hexpand : (parse code).expand registry d = .ok (some code) := by
    unfold expand
    rw [hcall]
    dsimp only
    rw [fill?_of_hasOnlyText h, source_parse]
  unfold HolidayRules.evaluate
  rw [evaluate_of_isChoice registry (.whole hyears), hexpand]
  rfl

end Template

end HolidayRules

import HolidayRules.Proofs.Template.Flat

set_option autoImplicit false

/-!
# Groups

A group ends where the groups inside it have ended, so that its content tells it apart from what
stands behind it.
-/
namespace HolidayRules.Template

def IsGroup (content : Text) : Prop :=
  ∀ rest, closeGroup? 0 (content ++ (closeBraces ++ rest)) = some (content, rest)

theorem closeGroup?_nil (depth : Nat) : closeGroup? depth [] = none := by
  rw [closeGroup?]

theorem closeGroup?_cons {c : Char} {t : Text} (hopen : c = '{' → t.head? ≠ some '{')
    (hclose : c = '}' → t.head? ≠ some '}') (depth : Nat) :
    closeGroup? depth (c :: t) =
      (closeGroup? depth t).map fun parts => (c :: parts.1, parts.2) := by
  rw [closeGroup?]
  · rintro rest rfl rfl
    exact hopen rfl rfl
  · rintro rest - rfl rfl
    exact hclose rfl rfl
  · rintro n rest - rfl rfl
    exact hclose rfl rfl

theorem closeGroup?_rest {depth : Nat} {t content after : Text}
    (h : closeGroup? depth t = some (content, after)) (rest : Text) :
    closeGroup? depth (content ++ (closeBraces ++ rest)) = some (content, rest) := by
  fun_induction closeGroup? depth t generalizing content with
  | case1 => cases h
  | case2 depth t ih =>
    obtain ⟨parts, hparts, he⟩ := Option.map_eq_some_iff.1 h
    cases he
    simp only [List.cons_append, closeGroup?, ih hparts, Option.map_some]
  | case3 t =>
    cases h
    simp only [List.nil_append, closeBraces, List.cons_append, closeGroup?]
  | case4 depth t ih =>
    obtain ⟨parts, hparts, he⟩ := Option.map_eq_some_iff.1 h
    cases he
    simp only [List.cons_append, closeGroup?, ih hparts, Option.map_some]
  | case5 depth c t hopen hzero hsucc ih =>
    obtain ⟨parts, hparts, he⟩ := Option.map_eq_some_iff.1 h
    cases he
    have hhead : (parts.1 ++ (closeBraces ++ rest)).head? = t.head? := by
      rw [eq_of_closeGroup? hparts]
      cases parts.1 <;> rfl
    rw [List.cons_append, closeGroup?_cons, ih hparts]
    · rfl
    · rintro rfl hbrace
      obtain ⟨more, rfl⟩ := List.head?_eq_some_iff.1 (hhead ▸ hbrace)
      exact hopen more rfl rfl
    · rintro rfl hbrace
      obtain ⟨more, rfl⟩ := List.head?_eq_some_iff.1 (hhead ▸ hbrace)
      cases depth with
      | zero => exact hzero more rfl rfl rfl
      | succ depth => exact hsucc depth more rfl rfl rfl

theorem isGroup_of_nextToken? {t content rest : Text}
    (h : nextToken? t = some (.group content, rest)) : IsGroup content := by
  unfold nextToken? at h
  split at h
  next => cases h
  next c t =>
    split at h
    next hgroup =>
      cases h
      unfold group? at hgroup
      split at hgroup
      next => exact closeGroup?_rest hgroup
      next => cases hgroup
    next => cases h

theorem head?_ne_of_readYears? {content : Text} {first : Nat} {entries : List Text}
    (h : readYears? content = some (first, entries)) : content.head? ≠ some '?' := by
  have hdigits := Decimal.isDigit_paddedNatural 4 first
  rw [content_of_readYears? h]
  cases hpadded : Decimal.paddedNatural 4 first with
  | nil => simp
  | cons c digits =>
    rw [hpadded] at hdigits
    intro hhead
    obtain rfl := Option.some.inj hhead
    exact absurd (hdigits '?' List.mem_cons_self) (by decide)

theorem head?_ne_of_isCallName {name : Text} (h : isCallName name = true) :
    name.head? ≠ some '?' := by
  intro hhead
  obtain ⟨more, rfl⟩ := List.head?_eq_some_iff.1 hhead
  cases h

def IsWrittenAsGroup (piece : Piece) : Prop :=
  ∃ content, piece.source = inBraces content ∧ IsGroup content ∧ content.head? ≠ some '?'

theorem isWrittenAsGroup_of_mem_parse {t : Text} {piece : Piece} (hp : ∀ s, piece ≠ .text s)
    (h : piece ∈ parse t) : IsWrittenAsGroup piece := by
  refine parse_induction (P := fun _ template => piece ∈ template → IsWrittenAsGroup piece)
    ?_ ?_ ?_ ?_ ?_ ?_ t h
  · intro hmem
    cases hmem
  · intro t s rest _ ih hmem
    rcases mem_of_mem_cons hp hmem with rfl | hmem
    · exact absurd rfl (hp s)
    · exact ih hmem
  · intro t content rest s hgroup hslot ih hmem
    rcases List.mem_cons.1 hmem with rfl | hmem
    · obtain rfl := name_of_ofName? hslot
      exact ⟨s.name, rfl, isGroup_of_nextToken? hgroup, by cases s <;> decide⟩
    · exact ih hmem
  · intro t content rest first entries hgroup hyears _ ih hmem
    rcases List.mem_cons.1 hmem with rfl | hmem
    · exact ⟨content, source_years hyears fun entry _ => source_parse entry,
        isGroup_of_nextToken? hgroup, head?_ne_of_readYears? hyears⟩
    · exact ih hmem
  · intro t name rest hgroup _ hcall ih hmem
    rcases List.mem_cons.1 hmem with rfl | hmem
    · exact ⟨name, rfl, isGroup_of_nextToken? hgroup, head?_ne_of_isCallName hcall⟩
    · exact ih hmem
  · intro t content rest _ ihc ih hmem
    rcases mem_of_mem_cons hp hmem with rfl | hmem
    · exact absurd rfl (hp _)
    rcases mem_of_mem_join hp hmem with hmem | hmem
    · exact ihc hmem
    rcases mem_of_mem_cons hp hmem with rfl | hmem
    · exact absurd rfl (hp _)
    · exact ih hmem

/-- The first closing braces end the outermost group, or a group is still open behind them. -/
theorem closeGroup?_of_cut? {depth : Nat} {t content tail before after : Text}
    (hclose : closeGroup? depth t = some (content, tail))
    (hcut : Text.cut? closeBraces t = some (before, after)) :
    (depth = 0 ∧ content = before ∧ tail = after) ∨
      ∃ left, (closeGroup? left after).isSome := by
  fun_induction closeGroup? depth t generalizing content before with
  | case1 => cases hclose
  | case2 depth rest ih =>
    rw [closeBraces, Text.cut?_cons_of_ne (by decide), Text.cut?_cons_of_ne (by decide),
      Option.map_map] at hcut
    obtain ⟨inner, hinner, he⟩ := Option.map_eq_some_iff.1 hclose
    obtain ⟨cut, hfirst, he'⟩ := Option.map_eq_some_iff.1 hcut
    cases he
    cases he'
    rcases ih hinner hfirst with ⟨hdepth, -⟩ | hopen
    · cases hdepth
    · exact .inr hopen
  | case3 rest =>
    cases hclose
    cases hcut
    exact .inl ⟨rfl, rfl, rfl⟩
  | case4 depth rest ih =>
    obtain ⟨inner, hinner, -⟩ := Option.map_eq_some_iff.1 hclose
    cases hcut
    exact .inr ⟨depth, Option.isSome_iff_exists.2 ⟨inner, hinner⟩⟩
  | case5 depth c rest hopen hzero hsucc ih =>
    have hmark : ¬ closeBraces.isPrefixOf (c :: rest) = true := by
      intro hprefix
      obtain ⟨more, hmore⟩ := List.isPrefixOf_iff_prefix.1 hprefix
      cases hmore
      cases depth with
      | zero => exact hzero more rfl rfl rfl
      | succ depth => exact hsucc depth more rfl rfl rfl
    rw [Text.cut?, if_neg hmark] at hcut
    obtain ⟨inner, hinner, he⟩ := Option.map_eq_some_iff.1 hclose
    obtain ⟨cut, hfirst, he'⟩ := Option.map_eq_some_iff.1 hcut
    cases he
    cases he'
    rcases ih hinner hfirst with ⟨hdepth, hcontent, htail⟩ | hopen
    · exact .inl ⟨hdepth, by rw [hcontent], htail⟩
    · exact .inr hopen

end HolidayRules.Template

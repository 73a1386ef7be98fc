import HolidayRules.Text.Basic

set_option autoImplicit false

/-!
# Cutting and joining texts

Where a text is cut at its first mark, what stands behind the mark has no part in it.
-/
namespace HolidayRules.Text

theorem cut?_cons_of_ne {m c : Char} {mark t : Text} (h : m ≠ c) :
    cut? (m :: mark) (c :: t) = (cut? (m :: mark) t).map fun parts => (c :: parts.1, parts.2) := by
  rw [cut?, if_neg (by simp [h])]

theorem cut?_mark {m : Char} {mark before : Text} (h : m ∉ before) (after : Text) :
    cut? (m :: mark) (before ++ (m :: mark ++ after)) = some (before, after) := by
  induction before with
  | nil => simp [cut?]
  | cons c before ih =>
    have hc : m ≠ c := fun he => h (he ▸ List.mem_cons_self)
    rw [List.cons_append, cut?_cons_of_ne hc, ih fun hm => h (List.mem_cons_of_mem c hm)]
    rfl

theorem cut?_of_not_mem {mark : Char} {before : Text} (h : mark ∉ before) (after : Text) :
    cut? [mark] (before ++ mark :: after) = some (before, after) :=
  cut?_mark h after

/-- Behind a beginning of what stands before it, the first mark is still the first. -/
theorem cut?_of_append {mark s t before after : Text}
    (h : cut? mark (s ++ t) = some (s ++ before, after)) : cut? mark t = some (before, after) := by
  induction s with
  | nil => exact h
  | cons c s ih =>
    rw [List.cons_append, cut?] at h
    split at h
    next => cases h
    next =>
      obtain ⟨parts, hparts, he⟩ := Option.map_eq_some_iff.1 h
      obtain ⟨hbefore, rfl⟩ := Prod.mk.inj he
      rw [List.cons_append] at hbefore
      exact ih (hparts.trans (congrArg some (Prod.ext (List.cons.inj hbefore).2 rfl)))

theorem cut?_append {mark t before after : Text} (h : cut? mark t = some (before, after))
    (more : Text) : cut? mark (t ++ more) = some (before, after ++ more) := by
  induction t generalizing before with
  | nil => cases h
  | cons c t ih =>
    rw [cut?] at h
    rw [List.cons_append, cut?]
    split at h
    next hmark =>
      obtain ⟨rest, hrest⟩ := List.isPrefixOf_iff_prefix.1 hmark
      have hstarts : mark.isPrefixOf (c :: (t ++ more)) = true :=
        List.isPrefixOf_iff_prefix.2 ⟨rest ++ more, by rw [← List.append_assoc, hrest]; rfl⟩
      cases h
      rw [if_pos hstarts, ← List.cons_append, ← hrest, List.append_assoc, List.drop_left,
        List.drop_left]
    next hmark =>
      obtain ⟨parts, hparts, he⟩ := Option.map_eq_some_iff.1 h
      cases he
      have hlength : mark.length ≤ (c :: t).length := by
        rw [eq_of_cut? hparts]
        simp only [List.length_cons, List.length_append]
        omega
      have hmark' : ¬ mark.isPrefixOf (c :: (t ++ more)) = true := fun hstarts =>
        hmark (List.isPrefixOf_iff_prefix.2 (List.prefix_of_prefix_length_le
          (List.isPrefixOf_iff_prefix.1 hstarts) (List.prefix_append (c :: t) more) hlength))
      rw [if_neg hmark', ih hparts]
      rfl

theorem not_infix_of_cut? {mark t before after : Text} (hne : mark ≠ [])
    (h : cut? mark t = some (before, after)) : ¬ mark <:+: before := by
  induction t generalizing before with
  | nil => cases h
  | cons c t ih =>
    rw [cut?] at h
    split at h
    next =>
      cases h
      simpa using hne
    next hmark =>
      obtain ⟨parts, hparts, he⟩ := Option.map_eq_some_iff.1 h
      cases he
      intro hinside
      rcases List.infix_cons_iff.1 hinside with hstarts | hinside
      · refine hmark (List.isPrefixOf_iff_prefix.2 (hstarts.trans ?_))
        rw [eq_of_cut? hparts, List.append_assoc]
        exact List.cons_prefix_cons.2 ⟨rfl, List.prefix_append _ _⟩
      · exact ih hparts hinside

theorem exists_append_of_not_mem {c : Char} {head x p y : Text} (hc : c ∉ p)
    (h : head ++ c :: x = p ++ y) : ∃ more, head = p ++ more ∧ y = more ++ c :: x := by
  rcases List.append_eq_append_iff.1 h with ⟨more, hp, hx⟩ | ⟨more, hhead, hy⟩
  · cases more with
    | nil => exact ⟨[], by simpa using hp.symm, hx.symm⟩
    | cons d more =>
      cases hx
      exact absurd (by simp) (hp ▸ hc)
  · exact ⟨more, hhead, hy⟩

theorem exists_append_cons_of_not_mem {c : Char} {first u values q : Text} (hc : c ∉ q)
    (h : values ++ q = first ++ c :: u) :
    ∃ second, values = first ++ c :: second ∧ u = second ++ q := by
  rcases List.append_eq_append_iff.1 h with ⟨more, -, hq⟩ | ⟨more, hvalues, hu⟩
  · exact absurd (hq ▸ by simp) hc
  · cases more with
    | nil => exact absurd ((show c :: u = q from hu) ▸ List.mem_cons_self) hc
    | cons d more =>
      obtain ⟨rfl, rfl⟩ := List.cons.inj hu
      exact ⟨more, hvalues, rfl⟩

/-! ## Joining -/

theorem intercalate_cons (mark : Char) (first : Text) (parts : List Text) :
    [mark].intercalate (first :: parts) = first ++ parts.flatMap (mark :: ·) := by
  induction parts generalizing first with
  | nil => simp
  | cons part parts ih =>
    rw [List.intercalate_cons_cons, ih, List.flatMap_cons, List.append_assoc]
    rfl

theorem not_mem_intercalate {c mark : Char} (hmark : c ≠ mark) {parts : List Text}
    (h : ∀ part ∈ parts, c ∉ part) : c ∉ [mark].intercalate parts := by
  cases parts with
  | nil => simp
  | cons first parts =>
    rw [intercalate_cons, List.mem_append, List.mem_flatMap]
    rintro (hc | ⟨part, hpart, hc⟩)
    · exact h first List.mem_cons_self hc
    · rcases List.mem_cons.1 hc with rfl | hc
      · exact hmark rfl
      · exact h part (List.mem_cons_of_mem _ hpart) hc

end HolidayRules.Text

set_option autoImplicit false

/-!
# Stable sorts

A stable sort leaves elements of one rank in their order, and is the only sorted list that does. The
first element with a property that is found in it is therefore the earliest of those that nothing with
the property goes before, and the sort of two lists is the merge of their sorts.
-/
namespace HolidayRules

/-- Neither of the two goes strictly before the other. -/
def onLevel {α : Type} (le : α → α → Bool) (z x : α) : Bool := le x z && le z x

section
variable {α : Type} {le : α → α → Bool} (trans : ∀ a b c, le a b = true → le b c = true → le a c = true)
  (total : ∀ a b, (le a b || le b a) = true)
include trans total

/-- The sort does not touch the elements that all stand on one level. -/
theorem filter_mergeSort {p : α → Bool} (hp : ∀ a b, p a = true → p b = true → le a b = true)
    (l : List α) : (l.mergeSort le).filter p = l.filter p := by
  have hlevel : (l.filter p).Pairwise fun a b => le a b = true :=
    List.pairwise_filter.2 (List.pairwise_of_forall hp)
  have hsub : (l.filter p).Sublist (l.mergeSort le) :=
    List.sublist_mergeSort trans total hlevel List.filter_sublist
  have hfilter := hsub.filter p
  rw [List.filter_filter] at hfilter
  simp only [Bool.and_self] at hfilter
  exact (hfilter.eq_of_length ((List.mergeSort_perm l le).filter p).length_eq.symm).symm

theorem exists_of_find?_mergeSort {q : α → Bool} {l : List α} {a : α}
    (h : (l.mergeSort le).find? q = some a) :
    ∃ before after, l = before ++ a :: after ∧
      (∀ b ∈ before, q b = true → le b a = false) ∧ ∀ b ∈ after, q b = true → le a b = true := by
  obtain ⟨hq, as, bs, hsort, has⟩ := List.find?_eq_some_iff_append.1 h
  have hrefl : le a a = true := by simpa using total a a
  have hfirst : ∀ b ∈ l, q b = true → le a b = true := by
    intro b hb hqb
    have hmem : b ∈ as ++ a :: bs := hsort ▸ List.mem_mergeSort.2 hb
    have hpair := List.pairwise_mergeSort trans total l
    rw [hsort, List.pairwise_append] at hpair
    rcases List.mem_append.1 hmem with hb | hb
    · have hnot := has b hb
      rw [hqb] at hnot
      cases hnot
    · rcases List.mem_cons.1 hb with rfl | hb
      · exact hrefl
      · exact List.rel_of_pairwise_cons hpair.2.1 hb
  let p : α → Bool := fun b => q b && (le a b && le b a)
  have hpa : p a = true := by simp [p, hq, hrefl]
  have has' : as.filter p = [] := by
    rw [List.filter_eq_nil_iff]
    intro b hb
    have hnot : q b = false := by simpa using has b hb
    simp [p, hnot]
  have hp : ∀ b c, p b = true → p c = true → le b c = true := by
    intro b c hb hc
    simp only [p, Bool.and_eq_true] at hb hc
    exact trans b a c hb.2.2 hc.2.1
  have hlevel := filter_mergeSort trans total hp l
  rw [hsort, List.filter_append, has', List.nil_append, List.filter_cons_of_pos hpa] at hlevel
  obtain ⟨before, after, hl, hbefore, -, -⟩ := List.filter_eq_cons_iff.1 hlevel.symm
  refine ⟨before, after, hl, ?_, ?_⟩
  · intro b hb hqb
    have hab := hfirst b (by simp [hl, hb]) hqb
    simpa [p, hqb, hab] using hbefore b hb
  · intro b hb
    exact hfirst b (by simp [hl, hb])

omit trans in
theorem eq_of_filter_onLevel {a b : List α} (ha : a.Pairwise fun x y => le x y = true)
    (hb : b.Pairwise fun x y => le x y = true)
    (h : ∀ z, a.filter (onLevel le z) = b.filter (onLevel le z)) : a = b := by
  have hrefl (x : α) : le x x = true := by simpa using total x x
  have hself (x : α) : onLevel le x x = true := by simp [onLevel, hrefl]
  have hmem {c d : List α} (h : ∀ z, c.filter (onLevel le z) = d.filter (onLevel le z)) {x : α}
      (hx : x ∈ c) : x ∈ d := by
    have hlevel : x ∈ c.filter (onLevel le x) := List.mem_filter.2 ⟨hx, hself x⟩
    rw [h x] at hlevel
    exact (List.mem_filter.1 hlevel).1
  have hle {c : List α} {x y : α} (hc : (y :: c).Pairwise fun x y => le x y = true)
      (hx : x ∈ y :: c) : le y x = true := by
    rcases List.mem_cons.1 hx with rfl | hx
    · exact hrefl x
    · exact List.rel_of_pairwise_cons hc hx
  induction a generalizing b with
  | nil =>
    cases b with
    | nil => rfl
    | cons y b => cases hmem (fun z => (h z).symm) (List.mem_cons_self (a := y) (l := b))
  | cons x a ih =>
    cases b with
    | nil => cases hmem h (List.mem_cons_self (a := x) (l := a))
    | cons y b =>
      have hyx : le y x = true := hle hb (hmem h List.mem_cons_self)
      have hxy : le x y = true := hle ha (hmem (fun z => (h z).symm) List.mem_cons_self)
      have hx : onLevel le y x = true := by simp [onLevel, hxy, hyx]
      have hlevel := h y
      rw [List.filter_cons_of_pos hx, List.filter_cons_of_pos (hself y)] at hlevel
      obtain rfl := (List.cons.inj hlevel).1
      refine congrArg (x :: ·) (ih ha.tail hb.tail fun z => ?_)
      have hz := h z
      rw [List.filter_cons, List.filter_cons] at hz
      split at hz
      · exact (List.cons.inj hz).2
      · exact hz

omit total in
theorem filter_merge {p : α → Bool} (hp : ∀ a b, p a = true → p b = true → le a b = true)
    {a b : List α} (ha : a.Pairwise fun x y => le x y = true)
    (hb : b.Pairwise fun x y => le x y = true) :
    (a.merge b le).filter p = a.filter p ++ b.filter p := by
  induction a generalizing b with
  | nil => simp
  | cons x a iha =>
    induction b with
    | nil => simp
    | cons y b ihb =>
      rw [List.cons_merge_cons]
      split
      next =>
        rw [List.filter_cons, List.filter_cons, iha ha.tail hb]
        split <;> rfl
      next hxy =>
        rw [List.filter_cons, ihb hb.tail]
        split
        next hy =>
          have hnone : (x :: a).filter p = [] := by
            rw [List.filter_eq_nil_iff]
            intro z hz hpz
            have hzy := hp z y hpz hy
            rcases List.mem_cons.1 hz with rfl | hz
            · exact hxy hzy
            · exact hxy (trans x z y (List.rel_of_pairwise_cons ha hz) hzy)
          rw [hnone, List.filter_cons_of_pos hy]
          rfl
        next hy => rw [List.filter_cons_of_neg hy]

theorem mergeSort_append (a b : List α) :
    (a ++ b).mergeSort le = (a.mergeSort le).merge (b.mergeSort le) le := by
  have ha := List.pairwise_mergeSort trans total a
  have hb := List.pairwise_mergeSort trans total b
  refine eq_of_filter_onLevel total (List.pairwise_mergeSort trans total (a ++ b))
    (List.pairwise_merge trans total _ _ ha hb) fun z => ?_
  have hp (x y : α) (hx : onLevel le z x = true) (hy : onLevel le z y = true) :
      le x y = true := by
    rw [onLevel, Bool.and_eq_true] at hx hy
    exact trans x z y hx.1 hy.2
  rw [filter_mergeSort trans total hp, filter_merge trans hp ha hb, List.filter_append,
    filter_mergeSort trans total hp, filter_mergeSort trans total hp]

end

end HolidayRules

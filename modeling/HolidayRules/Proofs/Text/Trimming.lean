import HolidayRules.Text.Blank

set_option autoImplicit false

/-!
# Trimming

Between the blanks on its two sides a text has a core that neither begins nor ends with a blank.
Trimming finds the core.
-/
namespace HolidayRules.Text

def IsTrimmed (t : Text) : Prop :=
  (∀ c ∈ t.head?, isBlank c = false) ∧ ∀ c ∈ t.getLast?, isBlank c = false

theorem isTrimmed_iff {t : Text} :
    t.IsTrimmed ↔ t.head?.all (!isBlank ·) = true ∧ t.getLast?.all (!isBlank ·) = true := by
  simp [IsTrimmed, Option.all_eq_true]

instance (t : Text) : Decidable t.IsTrimmed := decidable_of_iff _ isTrimmed_iff.symm

theorem isTrimmed_of_forall {t : Text} (h : ∀ c ∈ t, isBlank c = false) : t.IsTrimmed :=
  ⟨fun c hc => h c (List.mem_of_mem_head? hc), fun c hc => h c (List.mem_of_getLast? hc)⟩

/-! ## The core is found -/

theorem dropWhile_blanks {blanks t : Text} (hblanks : ∀ c ∈ blanks, isBlank c = true)
    (ht : ∀ c ∈ t.head?, isBlank c = false) : (blanks ++ t).dropWhile isBlank = t := by
  rw [List.dropWhile_append_of_pos hblanks]
  cases t with
  | nil => rfl
  | cons c t => simp [ht c rfl]

theorem trim_padded {before core after : Text} (hbefore : ∀ c ∈ before, isBlank c = true)
    (hcore : core.IsTrimmed) (hafter : ∀ c ∈ after, isBlank c = true) :
    (before ++ (core ++ after)).trim = core := by
  unfold trim trimStart trimEnd
  cases core with
  | nil =>
    have hall : ∀ c ∈ before ++ after, isBlank c = true := fun c hc =>
      (List.mem_append.1 hc).elim (hbefore c) (hafter c)
    have hdrop := dropWhile_blanks (t := []) hall hcore.1
    rw [List.append_nil] at hdrop
    rw [List.nil_append, hdrop]
    rfl
  | cons c core =>
    have hfirst : ∀ d ∈ (c :: core ++ after).head?, isBlank d = false := hcore.1
    have hlast : ∀ d ∈ (c :: core).reverse.head?, isBlank d = false := by
      rw [List.head?_reverse]
      exact hcore.2
    have hblanks : ∀ d ∈ after.reverse, isBlank d = true := fun d hd =>
      hafter d (List.mem_reverse.1 hd)
    rw [dropWhile_blanks hbefore hfirst, List.reverse_append, dropWhile_blanks hblanks hlast,
      List.reverse_reverse]

theorem trim_eq_self {t : Text} (h : t.IsTrimmed) : t.trim = t := by
  have htrim : trim ([] ++ (t ++ [])) = t := trim_padded (by simp) h (by simp)
  rwa [List.nil_append, List.append_nil] at htrim

/-! ## Every text has a core -/

theorem exists_trimEnd (t : Text) :
    ∃ after, t = t.trimEnd ++ after ∧ ∀ c ∈ after, isBlank c = true := by
  refine ⟨(t.reverse.takeWhile isBlank).reverse, ?_, ?_⟩
  · unfold trimEnd
    rw [← List.reverse_append, List.takeWhile_append_dropWhile, List.reverse_reverse]
  · intro c hc
    exact List.all_eq_true.1 List.all_takeWhile c (List.mem_reverse.1 hc)

theorem exists_takeWhile_append_trim (t : Text) :
    ∃ after, t = t.takeWhile isBlank ++ (t.trim ++ after) ∧ ∀ c ∈ after, isBlank c = true := by
  obtain ⟨after, hend, hafter⟩ := exists_trimEnd t.trimStart
  refine ⟨after, ?_, hafter⟩
  unfold trim
  rw [← hend]
  exact List.takeWhile_append_dropWhile.symm

theorem exists_trim (t : Text) :
    ∃ before after, t = before ++ (t.trim ++ after) ∧ (∀ c ∈ before, isBlank c = true) ∧
      ∀ c ∈ after, isBlank c = true := by
  obtain ⟨after, ht, hafter⟩ := exists_takeWhile_append_trim t
  exact ⟨t.takeWhile isBlank, after, ht, List.all_eq_true.1 List.all_takeWhile, hafter⟩

theorem length_trim_le (t : Text) : t.trim.length ≤ t.length := by
  obtain ⟨before, after, ht, -, -⟩ := exists_trim t
  have hlength := congrArg List.length ht
  rw [List.length_append, List.length_append] at hlength
  omega

theorem mem_trim_iff {c : Char} (h : isBlank c = false) {t : Text} : c ∈ t.trim ↔ c ∈ t := by
  obtain ⟨before, after, ht, hbefore, hafter⟩ := exists_trim t
  have hnot {blanks : Text} (hblanks : ∀ d ∈ blanks, isBlank d = true) : c ∉ blanks := by
    intro hc
    rw [hblanks c hc] at h
    cases h
  constructor
  · intro hc
    rw [ht]
    exact List.mem_append_right _ (List.mem_append_left _ hc)
  · intro hc
    rw [ht, List.mem_append, List.mem_append] at hc
    rcases hc with hc | hc | hc
    · exact absurd hc (hnot hbefore)
    · exact hc
    · exact absurd hc (hnot hafter)

theorem isBlank_of_head_dropWhile {t : Text} {c : Char} (h : c ∈ (t.dropWhile isBlank).head?) :
    isBlank c = false := by
  have hhead := List.head?_dropWhile_not isBlank t
  rw [Option.mem_def.1 h] at hhead
  exact hhead

theorem isBlank_of_getLast_trimEnd {t : Text} {c : Char} (h : c ∈ t.trimEnd.getLast?) :
    isBlank c = false := by
  unfold trimEnd at h
  rw [List.getLast?_reverse] at h
  exact isBlank_of_head_dropWhile h

theorem isTrimmed_trim (t : Text) : t.trim.IsTrimmed := by
  obtain ⟨after, hend, -⟩ := exists_trimEnd t.trimStart
  constructor
  · intro c hc
    have hstart : c ∈ t.trimStart.head? := by
      rw [hend, List.head?_append]
      exact Option.or_eq_some_iff.2 (.inl hc)
    exact isBlank_of_head_dropWhile hstart
  · intro c hc
    exact isBlank_of_getLast_trimEnd hc

theorem trim_trimEnd (t : Text) : t.trimEnd.trim = t.trim := by
  obtain ⟨before, after, hpart, hbefore, hafter⟩ := exists_trim t.trimEnd
  obtain ⟨blanks, hend, hblanks⟩ := exists_trimEnd t
  have hpadded : t = before ++ (t.trimEnd.trim ++ (after ++ blanks)) := by
    rw [← List.append_assoc t.trimEnd.trim, ← List.append_assoc before, ← hpart]
    exact hend
  refine (congrArg trim hpadded).trans (trim_padded hbefore (isTrimmed_trim _) ?_) |>.symm
  intro c hc
  exact (List.mem_append.1 hc).elim (hafter c) (hblanks c)

theorem trim_eq_nil_iff {t : Text} : t.trim = [] ↔ t.all isBlank = true := by
  rw [List.all_eq_true]
  constructor
  · intro h
    obtain ⟨before, after, ht, hbefore, hafter⟩ := exists_trim t
    rw [h] at ht
    rw [ht]
    intro c hc
    exact (List.mem_append.1 hc).elim (hbefore c) (hafter c)
  · intro h
    have htrim : trim (t ++ ([] ++ [])) = [] := trim_padded h (by decide) (by simp)
    rwa [List.append_nil, List.append_nil] at htrim

end HolidayRules.Text

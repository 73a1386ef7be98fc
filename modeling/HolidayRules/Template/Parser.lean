import HolidayRules.Template.Lexeme

set_option autoImplicit false

/-!
# Reading templates

Reading never fails. A group that is no slot, no year list and no call stays text, braces included,
but the groups inside it are read.
-/
namespace HolidayRules.Template

/-- The parts of a text between the commas outside groups, of which `depth` are open. -/
def splitEntries : Nat → Text → List Text
  | _, [] => [[]]
  | depth, '{' :: '{' :: rest =>
    (splitEntries (depth + 1) rest).modifyHead fun entry => '{' :: '{' :: entry
  | depth, '}' :: '}' :: rest =>
    (splitEntries (depth - 1) rest).modifyHead fun entry => '}' :: '}' :: entry
  | depth, c :: rest =>
    if c = ',' ∧ depth = 0 then [] :: splitEntries 0 rest
    else (splitEntries depth rest).modifyHead (c :: ·)

def readYears? (content : Text) : Option (Nat × List Text) := do
  let (start, entries) ← Text.cut? [':'] content
  let first ← Decimal.fourDigits? start
  return (first, splitEntries 0 entries)

theorem length_le_of_mem_modifyHead {f : Text → Text} {n : Nat} (hf : ∀ t, (f t).length ≤ t.length + n)
    {ts : List Text} {k : Nat} (hts : ∀ t ∈ ts, t.length ≤ k) :
    ∀ t ∈ ts.modifyHead f, t.length ≤ k + n := by
  intro t ht
  cases ts with
  | nil => simp at ht
  | cons head rest =>
    simp only [List.modifyHead_cons, List.mem_cons] at ht
    rcases ht with rfl | ht
    · have := hf head
      have := hts head (by simp)
      omega
    · have := hts t (by simp [ht])
      omega

theorem length_le_of_mem_splitEntries {depth : Nat} {t : Text} :
    ∀ entry ∈ splitEntries depth t, entry.length ≤ t.length := by
  fun_induction splitEntries depth t with
  | case1 => simp
  | case2 depth rest ih => exact length_le_of_mem_modifyHead (n := 2) (by simp) ih
  | case3 depth rest ih => exact length_le_of_mem_modifyHead (n := 2) (by simp) ih
  | case4 depth c rest _ _ h ih =>
    intro entry he
    rcases List.mem_cons.1 he with rfl | he
    · simp
    · have := ih entry he
      simp only [List.length_cons]
      omega
  | case5 depth c rest _ _ h ih => exact length_le_of_mem_modifyHead (by simp) ih

theorem length_lt_of_readYears? {content : Text} {first : Nat} {entries : List Text}
    (h : readYears? content = some (first, entries)) :
    ∀ entry ∈ entries, entry.length < content.length := by
  unfold readYears? at h
  obtain ⟨⟨start, rest⟩, hc, h⟩ := Option.bind_eq_some_iff.1 h
  obtain ⟨n, _, h⟩ := Option.bind_eq_some_iff.1 h
  cases h
  intro entry he
  have hl := length_le_of_mem_splitEntries entry he
  have := congrArg List.length (Text.eq_of_cut? hc)
  simp only [List.length_append, List.length_cons] at this
  omega

def parse (t : Text) : Template :=
  match h : nextToken? t with
  | none => []
  | some (.text s, rest) =>
    have := length_lt_of_nextToken? h
    cons (.text s) (parse rest)
  | some (.group content, rest) =>
    have := length_lt_of_nextToken? h
    have := length_content_lt h
    match Slot.ofName? content with
    | some slot => .slot slot :: parse rest
    | none => match hy : readYears? content with
      | some (first, entries) =>
        .years first (entries.attach.map fun entry =>
          have := length_lt_of_readYears? hy entry.1 entry.2
          parse entry.1) :: parse rest
      | none =>
        if isCallName content then .call content :: parse rest
        else
          cons (.text openBraces)
            (join (parse content) (cons (.text closeBraces) (parse rest)))
termination_by t.length
decreasing_by all_goals omega

end HolidayRules.Template

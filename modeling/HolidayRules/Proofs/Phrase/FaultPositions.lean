import HolidayRules.Phrase.Parser
import HolidayRules.Proofs.Except
import HolidayRules.Proofs.Text.Positions

set_option autoImplicit false

/-!
# Positions of faults in phrases

A text that is told as unexpected stands at the position told with it, unless it is a number too
large: of a number with a sign only the digits are told, but the position is that of the sign.
-/
namespace HolidayRules.Phrase

/-! ## Tokens -/

theorem number_eq_error {α : Type} {digits found : Text} {f : Int → α}
    (h : (boundedValue digits >>= fun n => pure (n : Int)).map f = .error found) :
    found = digits := by
  unfold boundedValue at h
  split at h
  next => cases h
  next =>
    cases h
    rfl

theorem eq_nil_of_head_digits {t : Text}
    (h : ∀ d ∈ (t.takeWhile Char.isDigit).head?, d.isDigit = false) :
    t.takeWhile Char.isDigit = [] := by
  cases hdigits : t.takeWhile Char.isDigit with
  | nil => rfl
  | cons d digits =>
    have hd : d.isDigit = true := by
      apply List.all_eq_true.1 (List.all_takeWhile (p := Char.isDigit) (l := t))
      rw [hdigits]
      exact List.mem_cons_self
    rw [hdigits, List.head?_cons] at h
    rw [h d rfl] at hd
    cases hd

theorem readDigits_eq_error {t found : Text} (h : readDigits t = .error found) :
    found = t.takeWhile Char.isDigit := by
  unfold readDigits at h
  dsimp only at h
  split at h
  next =>
    split at h
    next => cases h
    next => exact number_eq_error h
  next => exact number_eq_error h

theorem readSigned_eq_error {sign : Char} {t found : Text} (h : readSigned sign t = .error found)
    (hfound : ∀ d ∈ found.head?, d.isDigit = false) : found = [sign] := by
  unfold readSigned at h
  dsimp only at h
  split at h
  next =>
    cases h
    rfl
  next hdigits =>
    obtain rfl := number_eq_error h
    exact absurd (eq_nil_of_head_digits hfound) hdigits

theorem readToken_eq_error {c : Char} {rest found : Text} (h : readToken c rest = .error found)
    (hfound : ∀ d ∈ found.head?, d.isDigit = false) : found = [c] := by
  unfold readToken at h
  split at h
  next hdigit =>
    obtain rfl := readDigits_eq_error h
    have hnil := eq_nil_of_head_digits hfound
    rw [List.takeWhile_cons_of_pos hdigit] at hnil
    cases hnil
  next =>
    split at h
    next => exact readSigned_eq_error h hfound
    next =>
      split at h
      next => cases h
      next =>
        cases h
        rfl

theorem readDigits_eq_ok {t : Text} {token : Token} {used : Nat}
    (h : readDigits t = .ok (token, used)) :
    (t.takeWhile Char.isDigit).length ≤ used ∧ ∀ letters, token ≠ .word letters := by
  have hnumber {x : Except Text Int} (hn : (x.map fun n =>
      (Token.number n false, (t.takeWhile Char.isDigit).length)) = .ok (token, used)) :
      (t.takeWhile Char.isDigit).length ≤ used ∧ ∀ letters, token ≠ .word letters := by
    obtain ⟨n, -, hn⟩ := Except.map_eq_ok hn
    cases hn
    exact ⟨Nat.le_refl _, fun letters => Token.noConfusion⟩
  unfold readDigits at h
  dsimp only at h
  split at h
  next hfour =>
    split at h
    next =>
      cases h
      exact ⟨by omega, fun letters => Token.noConfusion⟩
    next => exact hnumber h
  next => exact hnumber h

theorem readSigned_eq_ok {sign : Char} {t : Text} {token : Token} {used : Nat}
    (h : readSigned sign t = .ok (token, used)) :
    0 < used ∧ ∀ letters, token ≠ .word letters := by
  unfold readSigned at h
  dsimp only at h
  split at h
  next => cases h
  next =>
    obtain ⟨n, -, hn⟩ := Except.map_eq_ok h
    cases hn
    exact ⟨Nat.succ_pos _, fun letters => Token.noConfusion⟩

theorem readToken_eq_ok {c : Char} {rest : Text} {token : Token} {used : Nat}
    (h : readToken c rest = .ok (token, used)) :
    0 < used ∧ ∀ letters, token = .word letters → letters = Text.lower ((c :: rest).take used) := by
  unfold readToken at h
  split at h
  next hdigit =>
    obtain ⟨hused, hword⟩ := readDigits_eq_ok h
    rw [List.takeWhile_cons_of_pos hdigit, List.length_cons] at hused
    exact ⟨by omega, fun letters htoken => absurd htoken (hword letters)⟩
  next =>
    split at h
    next =>
      obtain ⟨hused, hword⟩ := readSigned_eq_ok h
      exact ⟨hused, fun letters htoken => absurd htoken (hword letters)⟩
    next =>
      split at h
      next halpha =>
        cases h
        constructor
        · rw [List.takeWhile_cons_of_pos halpha]
          exact Nat.succ_pos _
        · rintro letters ⟨⟩
          rw [← List.prefix_iff_eq_take.1 (List.takeWhile_prefix Char.isAlpha)]
      next => cases h

/-! ## Lexemes -/

theorem take_append_drop_pred {c : Char} {rest : Text} {used : Nat} (h : 0 < used) :
    (c :: rest).take used ++ rest.drop (used - 1) = c :: rest := by
  obtain ⟨n, rfl⟩ := Nat.exists_eq_succ_of_ne_zero (Nat.ne_of_gt h)
  exact List.take_append_drop (n + 1) (c :: rest)

/-- Each word that is found in a text stands in it where its lexeme says. -/
theorem hasAt_of_scanFrom {t u : Text} {position : Nat} {lexemes : List Lexeme}
    (hplace : t.dropBytes? position = some u) (h : scanFrom position u = .ok lexemes)
    {lexeme : Lexeme} (hmem : lexeme ∈ lexemes) {letters : Text}
    (hword : lexeme.token = .word letters) : t.hasAt lexeme.start letters = true := by
  fun_induction scanFrom position u generalizing lexemes with
  | case1 position =>
    cases h
    rw [List.mem_singleton.1 hmem] at hword
    cases hword
  | case2 position c rest hgap ih =>
    exact ih (Text.dropBytes?_cons hplace) h hmem
  | case3 => cases h
  | case4 position c rest hgap token used hread =>
    rename_i ih
    obtain ⟨hused, htaken⟩ := readToken_eq_ok hread
    rw [← take_append_drop_pred hused] at hplace
    obtain ⟨more, hmore, rfl⟩ := Except.map_eq_ok h
    rcases List.mem_cons.1 hmem with rfl | hmem
    · refine Text.hasAt_iff.2 ⟨_, _, hplace, Text.sameIgnoringCase_iff.2 ?_⟩
      rw [htaken letters hword, Text.lower_lower]
    · exact ih (Text.dropBytes?_add hplace) hmore hmem

theorem hasAt_of_scanFrom_error {t u found : Text} {position p : Nat}
    (hplace : t.dropBytes? position = some u)
    (h : scanFrom position u = .error (.unexpected p found))
    (hfound : ∀ d ∈ found.head?, d.isDigit = false) : t.hasAt p found = true := by
  fun_induction scanFrom position u with
  | case1 => cases h
  | case2 position c rest hgap ih =>
    exact ih (Text.dropBytes?_cons hplace) h
  | case3 position c rest hgap wrong hread =>
    cases h
    rw [readToken_eq_error hread hfound]
    exact Text.hasAt_iff.2 ⟨[c], rest, hplace, Text.sameIgnoringCase_iff.2 rfl⟩
  | case4 position c rest hgap token used hread stop ih =>
    obtain ⟨hused, -⟩ := readToken_eq_ok hread
    rw [← take_append_drop_pred hused] at hplace
    exact ih (Text.dropBytes?_add hplace) (Except.map_eq_error h)

/-! ## Items -/

theorem readName_eq_error {position p : Nat} {w found : Text} {rest : List Lexeme}
    (h : readName position w rest = .error (.unexpected p found)) : p = position ∧ found = w := by
  unfold readName at h
  split at h
  next => cases h
  next =>
    split at h
    next =>
      split at h
      next => cases h
      next => cases h
    next =>
      split at h
      next => cases h
      next =>
        cases h
        exact ⟨rfl, rfl⟩

theorem readDirected_ne_unexpected {amount : Int} {movement : Movement} {rest : List Lexeme}
    {p : Nat} {found : Text} :
    readDirected amount movement rest ≠ .error (.unexpected p found) := by
  unfold readDirected
  split
  next => exact nofun
  next => split <;> exact nofun

theorem readWord_eq_error {position p : Nat} {w found : Text} {rest : List Lexeme}
    (h : readWord position w rest = .error (.unexpected p found)) : p = position ∧ found = w := by
  unfold readWord at h
  split at h
  next => cases h
  next =>
    split at h
    next => cases h
    next =>
      split at h
      next => exact absurd h readDirected_ne_unexpected
      next => exact readName_eq_error h

theorem mem_of_readItems_error {lexemes : List Lexeme} {p : Nat} {found : Text}
    (h : readItems lexemes = .error (.unexpected p found)) :
    ∃ lexeme ∈ lexemes, lexeme.token = .word found ∧ lexeme.start = p := by
  fun_induction readItems lexemes with
  | case1 => cases h
  | case2 => cases h
  | case3 year month day start stop rest ih =>
    obtain ⟨lexeme, hmem, hlexeme⟩ := ih (Except.map_eq_error h)
    exact ⟨lexeme, List.mem_cons_of_mem _ hmem, hlexeme⟩
  | case4 => cases h
  | case5 amount signed start stop rest unit hunit ih =>
    obtain ⟨lexeme, hmem, hlexeme⟩ := ih (Except.map_eq_error h)
    exact ⟨lexeme, List.mem_cons_of_mem _ (List.mem_of_mem_drop hmem), hlexeme⟩
  | case6 w start stop rest ih =>
    rcases Except.bind_eq_error h with hword | ⟨⟨item, used⟩, -, h⟩
    · obtain ⟨rfl, rfl⟩ := readWord_eq_error hword
      exact ⟨_, List.mem_cons_self, rfl, rfl⟩
    · rcases Except.bind_eq_error h with hitems | ⟨items, -, h⟩
      · obtain ⟨lexeme, hmem, hlexeme⟩ := ih used hitems
        exact ⟨lexeme, List.mem_cons_of_mem _ (List.mem_of_mem_drop hmem), hlexeme⟩
      · cases h

theorem hasAt_of_parse_error {t found : Text} {p : Nat}
    (h : Phrase.parse t = .error (.unexpected p found))
    (hfound : ∀ d ∈ found.head?, d.isDigit = false) : t.hasAt p found = true := by
  have hplace := Text.dropBytes?_zero t
  unfold Phrase.parse scan at h
  rcases Except.bind_eq_error h with hscan | ⟨lexemes, hscan, h⟩
  · exact hasAt_of_scanFrom_error hplace hscan hfound
  · split at h
    next => cases h
    next => cases h
    next =>
      obtain ⟨lexeme, hmem, hword, rfl⟩ := mem_of_readItems_error h
      exact hasAt_of_scanFrom hplace hscan hmem hword

end HolidayRules.Phrase

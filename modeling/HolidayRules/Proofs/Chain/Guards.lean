import HolidayRules.Proofs.Chain.Composition
import HolidayRules.Proofs.Text.Marks
import HolidayRules.Proofs.Text.Trimming

set_option autoImplicit false

/-!
# Guards as they are written

A guard is read back from the text that is written for it. The values may have equals signs and
opening braces: the first equals sign is the one behind the letters, and the first two closing braces
are those behind the values.
-/
namespace HolidayRules

theorem DateLetter.ofChar?_eq_some_iff {c : Char} {letter : DateLetter} :
    ofChar? c = some letter ↔ letter.char = c := by
  constructor
  · intro h
    simpa using List.find?_some h
  · rintro rfl
    cases letter <;> decide

namespace Guard

/-! ## Letters and values -/

def sign (letters : List DateLetter) (negated : Bool) : Text :=
  letters.map DateLetter.char ++ ((if negated then ['!'] else []) ++ ['='])

theorem eq_of_mem_sign {letters : List DateLetter} {negated : Bool} {c : Char}
    (h : c ∈ sign letters negated) :
    (∃ letter : DateLetter, letter.char = c) ∨ c = '!' ∨ c = '=' := by
  unfold sign at h
  rw [List.mem_append, List.mem_append] at h
  rcases h with h | h | h
  · obtain ⟨letter, -, hletter⟩ := List.mem_map.1 h
    exact .inl ⟨letter, hletter⟩
  · cases negated with
    | false => cases h
    | true => exact .inr (.inl (List.mem_singleton.1 h))
  · exact .inr (.inr (List.mem_singleton.1 h))

theorem readLetters_eq_ok_iff {position : Nat} {names : Text} {letters : List DateLetter} :
    readLetters position names = .ok letters ↔ names = letters.map DateLetter.char := by
  induction names generalizing position letters with
  | nil =>
    constructor
    · intro h
      cases h
      rfl
    · intro h
      rw [List.map_eq_nil_iff.1 h.symm]
      rfl
  | cons c names ih =>
    unfold readLetters
    constructor
    · intro h
      split at h
      next => cases h
      next letter hletter =>
        obtain ⟨more, hmore, rfl⟩ := Except.map_eq_ok h
        rw [List.map_cons, DateLetter.ofChar?_eq_some_iff.1 hletter, ← ih.1 hmore]
    · intro h
      obtain ⟨letter, more, rfl, hletter, hmore⟩ := List.map_eq_cons_iff.1 h.symm
      rw [DateLetter.ofChar?_eq_some_iff.2 hletter]
      dsimp only
      rw [ih.2 hmore.symm]
      rfl

theorem body_of_parse {position : Nat} {body : Text} {guard : Guard}
    (h : Guard.parse position body = .ok guard) :
    guard.letters ≠ [] ∧ ∃ values, guard.values = Text.commaItems values ∧
      body = sign guard.letters guard.negated ++ values := by
  unfold Guard.parse at h
  cases hcut : Text.cut? ['='] body with
  | none => simp [hcut] at h
  | some parts =>
    obtain ⟨before, values⟩ := parts
    simp only [hcut] at h
    generalize hnames :
      (if before.getLast? == some '!' then before.dropLast else before) = names at h
    have hbefore : before = names ++ (if before.getLast? == some '!' then ['!'] else []) := by
      rw [← hnames]
      split
      next hlast =>
        obtain ⟨init, rfl⟩ := List.getLast?_eq_some_iff.1 (beq_iff_eq.1 hlast)
        rw [List.dropLast_concat]
      next => simp
    by_cases hempty : names = []
    · simp [hempty] at h
    · rw [if_neg hempty] at h
      cases hletters : readLetters position names with
      | error e => simp [hletters] at h
      | ok letters =>
        simp only [hletters] at h
        split at h
        next => cases h
        next =>
          have hguard := Except.ok.inj h
          have hread := readLetters_eq_ok_iff.1 hletters
          rw [← hguard]
          refine ⟨?_, values, rfl, ?_⟩
          · rintro rfl
            exact hempty hread
          · rw [Text.eq_of_cut? hcut, sign, ← hread, ← List.append_assoc names, ← hbefore]

theorem cut?_sign (letters : List DateLetter) (negated : Bool) (values : Text) :
    Text.cut? ['='] (sign letters negated ++ values) =
      some (letters.map DateLetter.char ++ (if negated then ['!'] else []), values) := by
  have hnames : '=' ∉ letters.map DateLetter.char ++ (if negated then ['!'] else []) := by
    rw [List.mem_append]
    rintro (h | h)
    · obtain ⟨letter, -, hletter⟩ := List.mem_map.1 h
      cases letter <;> cases hletter
    · cases negated <;> simp at h
  have hcut := Text.cut?_of_not_mem hnames values
  simpa [sign] using hcut

/-- No letter of a date is an exclamation mark, so that the last character tells the sense. -/
theorem last_names (letters : List DateLetter) (negated : Bool) :
    ((letters.map DateLetter.char ++ (if negated then ['!'] else [])).getLast? == some '!') =
      negated := by
  cases negated with
  | false =>
    apply beq_eq_false_iff_ne.2
    rw [if_neg (by decide), List.append_nil]
    intro h
    obtain ⟨letter, -, hletter⟩ := List.mem_map.1 (List.mem_of_getLast? h)
    cases letter <;> cases hletter
  | true => simp

theorem parse_sign (position : Nat) {letters : List DateLetter} (hletters : letters ≠ [])
    (negated : Bool) {values : Text} (hvalues : Text.commaItems values ≠ []) :
    Guard.parse position (sign letters negated ++ values) =
      .ok ⟨letters, negated, Text.commaItems values⟩ := by
  have hnames : letters.map DateLetter.char ≠ [] := mt List.map_eq_nil_iff.1 hletters
  have hread : readLetters position (letters.map DateLetter.char) = .ok letters :=
    readLetters_eq_ok_iff.2 rfl
  unfold Guard.parse
  rw [cut?_sign]
  dsimp only
  rw [last_names]
  cases negated <;> simp [hletters, hread, hvalues]

theorem commaItems_intercalate {values : List Text} (hne : values ≠ [])
    (hcomma : ∀ v ∈ values, ',' ∉ v) (htrimmed : ∀ v ∈ values, v.IsTrimmed)
    (hnonempty : ∀ v ∈ values, v ≠ []) : Text.commaItems ([','].intercalate values) = values := by
  have htrim : values.map Text.trim = values := by
    rw [List.map_congr_left fun v hv => Text.trim_eq_self (htrimmed v hv), List.map_id']
  unfold Text.commaItems
  rw [List.splitOn_intercalate ',' hcomma hne, htrim, List.filter_eq_self]
  intro v hv
  cases v with
  | nil => exact absurd rfl (hnonempty [] hv)
  | cons c v => rfl

/-! ## Reading -/

/-- A guard that its text tells: it has letters and values, and each value ends where a comma or the
closing braces follow. -/
structure IsWritable (g : Guard) : Prop where
  letters : g.letters ≠ []
  values : g.values ≠ []
  nonempty : ∀ v ∈ g.values, v ≠ []
  trimmed : ∀ v ∈ g.values, v.IsTrimmed
  marks : ∀ v ∈ g.values, ',' ∉ v ∧ '|' ∉ v ∧ '}' ∉ v

def body (g : Guard) : Text := sign g.letters g.negated ++ [','].intercalate g.values

def text (g : Guard) : Text := opening ++ (g.body ++ closing)

variable {g : Guard}

theorem parse_body (hg : g.IsWritable) (position : Nat) : Guard.parse position g.body = .ok g := by
  have hitems : Text.commaItems ([','].intercalate g.values) = g.values :=
    commaItems_intercalate hg.values (fun v hv => (hg.marks v hv).1) hg.trimmed hg.nonempty
  unfold body
  rw [parse_sign position hg.letters g.negated (by rw [hitems]; exact hg.values), hitems]

theorem IsWritable.not_mem_body (hg : g.IsWritable) {c : Char} (hc : c = '|' ∨ c = '}') :
    c ∉ g.body := by
  intro h
  rcases List.mem_append.1 h with h | h
  · rcases eq_of_mem_sign h with ⟨letter, rfl⟩ | rfl | rfl
    · cases letter <;> revert hc <;> decide
    · exact absurd hc (by decide)
    · exact absurd hc (by decide)
  · have hcomma : c ≠ ',' := by rcases hc with rfl | rfl <;> decide
    refine Text.not_mem_intercalate hcomma (fun v hv => ?_) h
    rcases hc with rfl | rfl
    · exact (hg.marks v hv).2.1
    · exact (hg.marks v hv).2.2

end Guard

namespace Step

open Guard (opening closing)

theorem parseGuarded_body {g : Guard} (hg : g.IsWritable) (position : Nat) (rest : Text) :
    parseGuarded position (g.body ++ (closing ++ rest)) =
      (parseAction (position + g.text.byteLength) rest).map (.guarded g) := by
  have hcut : Text.cut? closing (g.body ++ (closing ++ rest)) = some (g.body, rest) :=
    Text.cut?_mark (hg.not_mem_body (.inr rfl)) rest
  have hbytes : position + opening.byteLength + g.body.byteLength + closing.byteLength =
      position + g.text.byteLength := by
    unfold Guard.text
    rw [Text.byteLength_append, Text.byteLength_append]
    omega
  unfold parseGuarded
  rw [hcut]
  dsimp only
  rw [Guard.parse_body hg, hbytes]
  cases parseAction (position + g.text.byteLength) rest <;> rfl

theorem trim_text (g : Guard) (rest : Text) : (g.text ++ rest).trim = g.text ++ rest.trimEnd := by
  obtain ⟨after, hrest, hafter⟩ := Text.exists_trimEnd rest
  have hcore : (g.text ++ rest.trimEnd).IsTrimmed := by
    constructor
    · intro c hc
      cases hc
      rfl
    · intro c hc
      rw [List.getLast?_append] at hc
      rcases Option.or_eq_some_iff.1 hc with hc | ⟨-, hc⟩
      · exact Text.isBlank_of_getLast_trimEnd hc
      · have hclose : g.text.getLast? = some '}' := by
          simp [Guard.text, closing, List.getLast?_append]
        rw [hclose] at hc
        cases hc
        rfl
  have hpadded : g.text ++ rest = [] ++ ((g.text ++ rest.trimEnd) ++ after) := by
    rw [List.nil_append, List.append_assoc, ← hrest]
  rw [hpadded]
  exact Text.trim_padded (by simp) hcore hafter

theorem parse_text {g : Guard} (hg : g.IsWritable) (rest : Text) :
    Step.parse 0 (g.text ++ rest) = (parseAction g.text.byteLength rest).map (.guarded g) := by
  have hsplit : g.text ++ rest.trimEnd = opening ++ (g.body ++ (closing ++ rest.trimEnd)) := by
    unfold Guard.text
    simp only [List.append_assoc]
  have hopening : opening.isPrefixOf (opening ++ (g.body ++ (closing ++ rest.trimEnd))) = true :=
    List.isPrefixOf_iff_prefix.2 (List.prefix_append _ _)
  have haction :
      parseAction g.text.byteLength rest.trimEnd = parseAction g.text.byteLength rest := by
    unfold parseAction
    rw [Text.trim_trimEnd]
  have hindent : (g.text ++ rest).indent = 0 := rfl
  unfold Step.parse
  dsimp only
  rw [trim_text, hindent, hsplit, if_pos hopening, List.drop_left, parseGuarded_body hg,
    Nat.zero_add, haction]

end Step

/-! ## Asking -/

def Guard.Passes (g : Guard) (d : Date) : Prop :=
  (∃ v ∈ g.values, Text.lower v = Text.lower (d.render g.letters)) ↔ g.negated = false

instance (g : Guard) (d : Date) : Decidable (g.Passes d) := by
  unfold Guard.Passes
  infer_instance

theorem Guard.holds_iff {g : Guard} {d : Date} : g.holds d = true ↔ g.Passes d := by
  have hfound : g.values.any (fun v => v.sameIgnoringCase (d.render g.letters)) = true ↔
      ∃ v ∈ g.values, Text.lower v = Text.lower (d.render g.letters) := by
    simp [Text.sameIgnoringCase]
  unfold holds Passes
  rw [← hfound]
  cases g.values.any _ <;> cases g.negated <;> decide

namespace Chain

variable {g : Guard}

theorem apply_singleton (step : Step) (base : Option Date) :
    Chain.apply [step] base = step.apply base := by
  unfold Chain.apply
  cases step.apply base with
  | error e => rfl
  | ok result => cases result <;> rfl

theorem apply_guarded (g : Guard) (action : Option Phrase) (x : Date) :
    Chain.apply [.guarded g action] (some x) =
      if g.Passes x then
        action.elim (.ok (some x)) fun phrase => (phrase.apply (some x)).map some
      else action.elim (.ok none) fun _ => .ok (some x) := by
  rw [apply_singleton]
  unfold Step.apply
  by_cases hpass : g.Passes x
  · rw [if_pos hpass]
    simp only [Guard.holds_iff.2 hpass]
    cases action <;> rfl
  · have hholds : g.holds x = false := by
      rw [← Bool.not_eq_true, Guard.holds_iff]
      exact hpass
    rw [if_neg hpass]
    simp only [hholds]
    cases action <;> rfl

theorem parse_guarded (hg : g.IsWritable) {rest : Text} (hrest : '|' ∉ rest) :
    Chain.parse (g.text ++ rest) =
      if rest.all isBlank then .ok [.guarded g none]
      else match Phrase.parse rest.trim with
        | .ok action => .ok [.guarded g (some action)]
        | .error cause => .error (.invalidPhrase g.text.byteLength cause) := by
  have hbar : '|' ∉ g.text ++ rest := by
    have hbody := hg.not_mem_body (.inl rfl)
    simp [Guard.text, Guard.opening, Guard.closing, hbody, hrest]
  rw [parse_of_not_mem hbar, Step.parse_text hg]
  unfold Step.parseAction Phrase.parseAt
  by_cases hblank : rest.all isBlank = true
  · rw [if_pos hblank, if_pos (Text.trim_eq_nil_iff.2 hblank)]
    rfl
  · rw [if_neg hblank, if_neg (mt Text.trim_eq_nil_iff.1 hblank)]
    cases Phrase.parse rest.trim <;> rfl

/-- Behind a written guard, text without bars is the phrase of one step with just this guard. Without
a phrase the step takes away the dates that do not pass, and with one it leaves them alone. -/
theorem parse_and_apply_of_guard (hg : g.IsWritable) {rest : Text} (hrest : '|' ∉ rest) :
    (Chain.parse (g.text ++ rest) =
      if rest.all isBlank then .ok [.guarded g none]
      else match Phrase.parse rest.trim with
        | .ok action => .ok [.guarded g (some action)]
        | .error cause => .error (.invalidPhrase g.text.byteLength cause)) ∧
    (∀ chain x, Chain.parse (g.text ++ rest) = .ok chain →
      (chain.apply (some x) = .ok none ↔ rest.all isBlank = true ∧ ¬ g.Passes x)) ∧
    (∀ x, Chain.apply [.guarded g none] (some x) =
      if g.Passes x then .ok (some x) else .ok none) ∧
    ∀ action x, Chain.apply [.guarded g (some action)] (some x) =
      if g.Passes x then (Phrase.apply action (some x)).map some else .ok (some x) := by
  refine ⟨parse_guarded hg hrest, ?_, apply_guarded g none,
    fun action => apply_guarded g (some action)⟩
  intro chain x hchain
  rw [parse_guarded hg hrest] at hchain
  by_cases hblank : rest.all isBlank = true
  · rw [if_pos hblank] at hchain
    cases hchain
    rw [apply_guarded, iff_true_intro hblank]
    by_cases hpass : g.Passes x <;> simp [hpass]
  · rw [if_neg hblank] at hchain
    rw [iff_false_intro hblank]
    cases haction : Phrase.parse rest.trim with
    | error cause =>
      rw [haction] at hchain
      cases hchain
    | ok action =>
      rw [haction] at hchain
      cases hchain
      rw [apply_guarded]
      by_cases hpass : g.Passes x
      · cases hphrase : Phrase.apply action (some x) <;> simp [hpass, hphrase, Except.map]
      · simp [hpass]

/-- A value with a brace and an equals sign is no end of the guard. A Saturday is left alone by the
guard with a phrase and taken away by the one without. -/
theorem parse_and_apply_of_not_saturday :
    let g : Guard := ⟨[.weekdayShort], true, ["sat".toList, ['{', '=', '!']]⟩
    let saturday : Date := ⟨⟨2018, 4, 21⟩, by decide⟩
    let sunday : Date := ⟨⟨2018, 4, 22⟩, by decide⟩
    Chain.parse (g.text ++ " +1 day".toList) = .ok [.guarded g (some [.offset 1 .day])] ∧
      Chain.parse (g.text ++ " +1 bogus".toList) = .error (.invalidPhrase 15 (.missingUnit 0)) ∧
      Chain.apply [.guarded g none] (some saturday) = .ok none ∧
      Chain.apply [.guarded g (some [.offset 1 .day])] (some saturday) = .ok (some saturday) ∧
      Chain.apply [.guarded g (some [.offset 1 .day])] (some sunday) =
        .ok (some ⟨⟨2018, 4, 23⟩, by decide⟩) := by
  intro g saturday sunday
  have hg : g.IsWritable := ⟨by decide, by decide, by decide, by decide, by decide⟩
  have hday : '|' ∉ " +1 day".toList := by decide
  have hbogus : '|' ∉ " +1 bogus".toList := by decide
  obtain ⟨hphrase, -, hwithout, hwith⟩ := parse_and_apply_of_guard hg hday
  obtain ⟨hfault, -⟩ := parse_and_apply_of_guard hg hbogus
  rw [hphrase, hfault, hwithout, hwith, hwith]
  decide +kernel

end Chain
end HolidayRules

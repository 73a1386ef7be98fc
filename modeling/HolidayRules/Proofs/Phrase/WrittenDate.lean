import HolidayRules.Phrase.Adjustment
import HolidayRules.Phrase.Parser
import HolidayRules.Proofs.Date.Months
import HolidayRules.Proofs.Text.Runs

set_option autoImplicit false

/-!
# Dates written into phrases

A date whose year has four digits is read back from its text, with or without an offset behind it. Any
other year is read as a number, and what follows it is no unit.
-/
namespace HolidayRules

theorem isGap_of_isDigit {c : Char} (h : c.isDigit = true) : Phrase.isGap c = false := by
  have hn := Decimal.toNat_of_isDigit h
  have hz : '0'.toNat = 48 := rfl
  have hc : c ≠ ',' := by
    rintro rfl
    cases h
  unfold Phrase.isGap
  rw [isBlank_eq_false (by omega), decide_eq_false hc]
  rfl

theorem isGap_of_isAlpha {c : Char} (h : c.isAlpha = true) : Phrase.isGap c = false := by
  have hn := toNat_of_isAlpha h
  have hc : c ≠ ',' := by
    rintro rfl
    cases h
  unfold Phrase.isGap
  rw [isBlank_eq_false (by omega), decide_eq_false hc]
  rfl

theorem Decimal.isDigit_natural (n : Nat) : ∀ c ∈ Decimal.natural n, c.isDigit = true := fun _ hc =>
  Nat.isDigit_of_mem_toDigits (by decide) (by decide) hc

theorem Decimal.natural_ne_nil (n : Nat) : Decimal.natural n ≠ [] := Nat.toDigits_ne_nil

namespace Phrase

/-! ## Tokens -/

theorem boundedValue_eq {digits : Text} (h : Decimal.value digits ≤ 9223372036854775807) :
    boundedValue digits = .ok (Decimal.value digits) := by
  unfold boundedValue inWord
  rw [if_pos]
  rw [Bool.and_eq_true, decide_eq_true_eq, decide_eq_true_eq]
  omega

theorem scanFrom_token {c : Char} {s rest : Text} {token : Token} (hc : isGap c = false)
    (h : readToken c (s ++ rest) = .ok (token, s.length + 1)) (position : Nat) :
    scanFrom position (c :: (s ++ rest)) =
      (scanFrom (position + Text.byteLength (c :: s)) rest).map
        (⟨token, position, position + Text.byteLength (c :: s)⟩ :: ·) := by
  have htake : (c :: (s ++ rest)).take (s.length + 1) = c :: s := by
    rw [List.take_succ_cons, List.take_left]
  rw [scanFrom, hc, h]
  simp only [Bool.false_eq_true, if_false, htake, Nat.add_sub_cancel, List.drop_left]

theorem readToken_signed {sign : Char} (hs : sign = '+' ∨ sign = '-') {digits rest : Text}
    (hne : digits ≠ []) (hd : ∀ c ∈ digits, c.isDigit = true)
    (hrest : Text.StopsRun Char.isDigit rest)
    (hv : Decimal.value digits ≤ 9223372036854775807) :
    readToken sign (digits ++ rest) =
      .ok (.number (if sign = '-' then -(Decimal.value digits : Int) else Decimal.value digits) true,
        digits.length + 1) := by
  have hdigit : sign.isDigit = false := by rcases hs with rfl | rfl <;> decide
  unfold readToken
  rw [hdigit]
  simp only [Bool.false_eq_true, if_false, if_pos hs]
  unfold readSigned
  dsimp only
  rw [Text.takeWhile_run hd hrest, boundedValue_eq hv, if_neg hne]
  rfl

theorem readToken_word {c : Char} {s rest : Text} (h : ∀ d ∈ c :: s, d.isAlpha = true)
    (hrest : Text.StopsRun Char.isAlpha rest) :
    readToken c (s ++ rest) = .ok (.word (Text.lower (c :: s)), s.length + 1) := by
  have hc := h c List.mem_cons_self
  have hn := toNat_of_isAlpha hc
  have hdigit : c.isDigit = false := by
    rw [← Bool.not_eq_true]
    intro hd
    have := Decimal.toNat_of_isDigit hd
    omega
  have hsign : ¬ (c = '+' ∨ c = '-') := by
    rintro (rfl | rfl) <;> cases hc
  have hrun := Text.takeWhile_run h hrest
  rw [List.cons_append] at hrun
  unfold readToken
  rw [hdigit]
  simp only [Bool.false_eq_true, if_false, hsign, hc, if_true, hrun]
  rfl

theorem dashedDigits?_eq {digits : Text} (hl : digits.length = 2)
    (hd : ∀ c ∈ digits, c.isDigit = true) (rest : Text) :
    dashedDigits? ('-' :: (digits ++ rest)) = some digits := by
  match digits, hl with
  | [a, b], _ =>
    have ha := hd a (by simp)
    have hb := hd b (by simp)
    simp [dashedDigits?, ha, hb]

/-- Behind a run of digits, only the four of a year can be read on as a date. -/
theorem readToken_run {c : Char} {digits rest : Text} (hd : ∀ d ∈ c :: digits, d.isDigit = true)
    (hrest : Text.StopsRun Char.isDigit rest) :
    readToken c (digits ++ rest) =
      if digits.length = 3 then
        match dateTail? rest with
        | some (month, day, used) => .ok (.date (Decimal.value (c :: digits)) month day, 4 + used)
        | none => (boundedValue (c :: digits)).map fun n => (.number n false, digits.length + 1)
      else (boundedValue (c :: digits)).map fun n => (.number n false, digits.length + 1) := by
  have hrun := Text.takeWhile_run hd hrest
  unfold readToken
  rw [if_pos (hd c List.mem_cons_self)]
  unfold readDigits
  dsimp only
  rw [← List.cons_append, hrun]
  by_cases hl : digits.length = 3
  · have hfour : (c :: digits).length = 4 := by simp [hl]
    have hdrop : ((c :: digits) ++ rest).drop 4 = rest := by rw [← hfour, List.drop_left]
    rw [if_pos hfour, if_pos hl, hdrop]
    cases dateTail? rest with
    | some tail => rfl
    | none => cases boundedValue (c :: digits) <;> rfl
  · rw [if_neg (by simpa using hl), if_neg hl]
    cases boundedValue (c :: digits) <;> rfl

theorem readToken_number {c : Char} {digits rest : Text} (hl : digits.length ≠ 3)
    (hd : ∀ d ∈ c :: digits, d.isDigit = true) (hrest : Text.StopsRun Char.isDigit rest)
    (hv : Decimal.value (c :: digits) ≤ 9223372036854775807) :
    readToken c (digits ++ rest) =
      .ok (.number (Decimal.value (c :: digits)) false, digits.length + 1) := by
  rw [readToken_run hd hrest, if_neg hl, boundedValue_eq hv]
  rfl

theorem readToken_date {c : Char} {year month day : Text} (hyear : year.length = 3)
    (hyd : ∀ d ∈ c :: year, d.isDigit = true) (hmonth : month.length = 2)
    (hmd : ∀ d ∈ month, d.isDigit = true) (hday : day.length = 2)
    (hdd : ∀ d ∈ day, d.isDigit = true) (rest : Text) :
    readToken c (year ++ '-' :: (month ++ '-' :: (day ++ rest))) =
      .ok (.date (Decimal.value (c :: year)) (Decimal.value month) (some (Decimal.value day)),
        10) := by
  have hdrop : ('-' :: (month ++ '-' :: (day ++ rest))).drop (month.length + 1) =
      '-' :: (day ++ rest) := by
    rw [List.drop_succ_cons, List.drop_left]
  have htail : dateTail? ('-' :: (month ++ '-' :: (day ++ rest))) =
      some (Decimal.value month, some (Decimal.value day), 6) := by
    unfold dateTail?
    rw [dashedDigits?_eq hmonth hmd]
    simp only [bind, Option.bind_some, hdrop, dashedDigits?_eq hday hdd]
    rw [hmonth, hday]
    rfl
  rw [readToken_run hyd (Text.stopsRun_cons (by decide) _), if_pos hyear, htail]

end Phrase

/-! ## The text of a date -/

theorem Decimal.padded_of_nonneg (width : Nat) {n : Int} (h : 0 ≤ n) :
    Decimal.padded width n = Decimal.paddedNatural width n.toNat := by
  cases n with
  | ofNat n => rfl
  | negSucc n => omega

theorem Ymd.text_append (d : Ymd) (rest : Text) :
    d.text ++ rest = Decimal.padded 4 d.year ++
      '-' :: (Decimal.paddedNatural 2 d.month ++ '-' :: (Decimal.paddedNatural 2 d.day ++ rest)) := by
  unfold Ymd.text
  simp

namespace Date

theorem length_monthText (d : Date) : (Decimal.paddedNatural 2 d.month).length = 2 := by
  have hm := d.valid.2.1
  exact Decimal.length_paddedNatural (by decide) (by omega)

theorem length_dayText (d : Date) : (Decimal.paddedNatural 2 d.day).length = 2 := by
  have hd := d.day_le
  exact Decimal.length_paddedNatural (by decide) (by omega)

/-- The month of a date stands behind a dash, which reads as a sign where no year was read before. -/
theorem scanFrom_monthText (d : Date) (position : Nat) (rest : Text) :
    ∃ stop, Phrase.scanFrom position ('-' :: (Decimal.paddedNatural 2 d.month ++ '-' :: rest)) =
      (Phrase.scanFrom stop ('-' :: rest)).map (⟨.number (-d.month) true, position, stop⟩ :: ·) := by
  have hl := d.length_monthText
  have hm := d.valid.2.1
  have hread := Phrase.readToken_signed (.inr rfl) (List.length_pos_iff.1 (by omega))
    (Decimal.isDigit_paddedNatural 2 d.month)
    (Text.stopsRun_cons (by decide) rest : Text.StopsRun _ ('-' :: rest))
    (by rw [Decimal.value_paddedNatural]; omega)
  rw [if_pos rfl, Decimal.value_paddedNatural] at hread
  exact ⟨_, Phrase.scanFrom_token (by decide) hread position⟩

end Date

namespace Phrase

theorem scanFrom_text {d : Date} (h : HasFourDigits d.year) (position : Nat) (rest : Text) :
    ∃ stop, scanFrom position (d.text ++ rest) =
      (scanFrom stop rest).map
        (⟨.date d.year.toNat d.month (some d.day), position, stop⟩ :: ·) := by
  obtain ⟨hnonneg, hle⟩ := h
  have hl : (Decimal.paddedNatural 4 d.year.toNat).length = 4 :=
    Decimal.length_paddedNatural (by decide) (by omega)
  have hdigit := Decimal.isDigit_paddedNatural 4 d.year.toNat
  have hvalue := Decimal.value_paddedNatural 4 d.year.toNat
  rw [Ymd.text_append, Decimal.padded_of_nonneg 4 hnonneg]
  cases hyear : Decimal.paddedNatural 4 d.year.toNat with
  | nil =>
    rw [hyear] at hl
    cases hl
  | cons c year =>
    rw [hyear] at hl hdigit hvalue
    have hread := readToken_date (Nat.succ.inj hl) hdigit d.length_monthText
      (Decimal.isDigit_paddedNatural 2 d.month) d.length_dayText
      (Decimal.isDigit_paddedNatural 2 d.day) rest
    have hsplit : year ++ '-' :: (Decimal.paddedNatural 2 d.month ++
          '-' :: (Decimal.paddedNatural 2 d.day ++ rest)) =
        (year ++ '-' :: (Decimal.paddedNatural 2 d.month ++
          '-' :: Decimal.paddedNatural 2 d.day)) ++ rest := by
      simp
    have hused : (year ++ '-' :: (Decimal.paddedNatural 2 d.month ++
        '-' :: Decimal.paddedNatural 2 d.day)).length + 1 = 10 := by
      simp only [List.length_append, List.length_cons, d.length_monthText, d.length_dayText,
        Nat.succ.inj hl]
    rw [hvalue, Decimal.value_paddedNatural, Decimal.value_paddedNatural, hsplit, ← hused] at hread
    rw [List.cons_append, hsplit]
    exact ⟨_, scanFrom_token (isGap_of_isDigit (hdigit c List.mem_cons_self)) hread position⟩

theorem scanFrom_offset {sign : Char} (hs : sign = '+' ∨ sign = '-') {n : Nat}
    (hn : n ≤ 9223372036854775807) {u : Text} (hne : u ≠ []) (hu : ∀ c ∈ u, c.isAlpha = true)
    (position : Nat) :
    ∃ a b c, scanFrom position (sign :: (Decimal.natural n ++ ' ' :: u)) =
      .ok [⟨.number (if sign = '-' then -n else n) true, position, a⟩,
        ⟨.word (Text.lower u), b, c⟩, ⟨.stop, c, c⟩] := by
  have hgap : isGap sign = false := by rcases hs with rfl | rfl <;> decide
  have hnumber := readToken_signed hs (Decimal.natural_ne_nil n) (Decimal.isDigit_natural n)
    (Text.stopsRun_cons (by decide) u : Text.StopsRun _ (' ' :: u)) (by simpa using hn)
  rw [Decimal.value_natural] at hnumber
  rw [scanFrom_token hgap hnumber position]
  cases u with
  | nil => exact absurd rfl hne
  | cons c u =>
    have hword := readToken_word hu (Text.stopsRun_nil _)
    have hstep := scanFrom_token (isGap_of_isAlpha (hu c List.mem_cons_self)) hword
    rw [List.append_nil] at hstep
    rw [scanFrom, show isGap ' ' = true from by decide, if_pos rfl, hstep, scanFrom]
    exact ⟨_, _, _, rfl⟩

theorem scanFrom_yearText {year : Int} (h : ¬ HasFourDigits year)
    (hb : minYear ≤ year ∧ year ≤ maxYear) (position : Nat) (rest : Text) :
    ∃ value signed stop, scanFrom position (Decimal.padded 4 year ++ '-' :: rest) =
      (scanFrom stop ('-' :: rest)).map (⟨.number value signed, position, stop⟩ :: ·) := by
  have hstops : Text.StopsRun Char.isDigit ('-' :: rest) := Text.stopsRun_cons (by decide) rest
  unfold HasFourDigits at h
  unfold minYear maxYear at hb
  cases year with
  | ofNat n =>
    have hn : 10000 ≤ n ∧ n ≤ 262142 := by
      rw [Int.ofNat_eq_natCast] at h hb
      omega
    have hdigit := Decimal.isDigit_paddedNatural 4 n
    have hvalue := Decimal.value_paddedNatural 4 n
    have hlong : 4 < (Decimal.paddedNatural 4 n).length := by
      have hnatural : 4 < (Decimal.natural n).length := by
        refine Nat.lt_of_not_le fun hle => ?_
        have := (Nat.length_toDigits_le_iff (by decide) (by decide)).1 hle
        omega
      unfold Decimal.paddedNatural
      rw [List.length_leftpad]
      exact Nat.lt_of_lt_of_le hnatural (Nat.le_max_right _ _)
    change ∃ value signed stop, scanFrom position (Decimal.paddedNatural 4 n ++ '-' :: rest) = _
    cases hyear : Decimal.paddedNatural 4 n with
    | nil =>
      rw [hyear] at hlong
      cases hlong
    | cons c digits =>
      rw [hyear] at hlong hdigit hvalue
      have hne : digits.length ≠ 3 := by
        rw [List.length_cons] at hlong
        omega
      have hread := readToken_number hne hdigit hstops (by omega)
      exact ⟨_, _, _, scanFrom_token (isGap_of_isDigit (hdigit c List.mem_cons_self)) hread position⟩
  | negSucc n =>
    have hne : Decimal.paddedNatural 3 (n + 1) ≠ [] := by
      intro hnil
      have hvalue := Decimal.value_paddedNatural 3 (n + 1)
      rw [hnil] at hvalue
      cases hvalue
    have hread := readToken_signed (.inr rfl) hne (Decimal.isDigit_paddedNatural 3 (n + 1)) hstops
      (by rw [Decimal.value_paddedNatural]; omega)
    exact ⟨_, _, _, scanFrom_token (by decide) hread position⟩

/-! ## Phrases that begin with a date -/

theorem isAlpha_of_ofName? {u : Text} {unit : OffsetUnit}
    (h : OffsetUnit.ofName? (Text.lower u) = some unit) :
    u ≠ [] ∧ ∀ c ∈ u, c.isAlpha = true := by
  have hname : Text.lower u = unit.name ∨ Text.lower u = unit.name ++ ['s'] := by
    simpa using List.find?_some h
  have halpha : Text.lower u ≠ [] ∧ (Text.lower u).all Char.isAlpha = true := by
    rcases hname with hn | hn <;> rw [hn] <;> cases unit <;> decide
  refine ⟨fun hnil => halpha.1 (by rw [hnil]; rfl), fun c hc => ?_⟩
  exact isAlpha_of_toLower (List.all_eq_true.1 halpha.2 _ (List.mem_map_of_mem hc))

theorem parse_text {d : Date} (h : HasFourDigits d.year) :
    Phrase.parse d.text = .ok [.date d.year d.month (some d.day)] := by
  obtain ⟨stop, hscan⟩ := scanFrom_text h 0 []
  rw [List.append_nil, scanFrom] at hscan
  have hyear : (d.year.toNat : Int) = d.year := Int.toNat_of_nonneg h.1
  unfold Phrase.parse scan
  rw [hscan, ← hyear]
  simp [Except.map, bind, Except.bind, readItems]

theorem parse_text_offset {d : Date} (h : HasFourDigits d.year) {sign : Char}
    (hs : sign = '+' ∨ sign = '-') {n : Nat} (hn : n ≤ 9223372036854775807) {u : Text}
    {unit : OffsetUnit} (hu : OffsetUnit.ofName? (Text.lower u) = some unit) :
    Phrase.parse (d.text ++ sign :: (Decimal.natural n ++ ' ' :: u)) =
      .ok [.date d.year d.month (some d.day), .offset (if sign = '-' then -n else n) unit] := by
  obtain ⟨stop, hscan⟩ := scanFrom_text h 0 (sign :: (Decimal.natural n ++ ' ' :: u))
  obtain ⟨hne, halpha⟩ := isAlpha_of_ofName? hu
  obtain ⟨a, b, c, hoffset⟩ := scanFrom_offset hs hn hne halpha stop
  have hyear : (d.year.toNat : Int) = d.year := Int.toNat_of_nonneg h.1
  unfold Phrase.parse scan
  rw [hscan, hoffset, ← hyear]
  simp [Except.map, bind, Except.bind, readItems, nextUnit?, nextWord?, hu]

theorem apply_date (d : Date) (base : Option Date) :
    Phrase.apply [.date d.year d.month (some d.day)] base = .ok d := by
  have hstart : (YearMonth.mk d.year d.month).day? d.day = some d := YearMonth.day?_day d
  have hrun : Adjustment.run? ⟨.ofDate d.year d.month (some d.day), [], ⟨0, 0, 0⟩, none, none⟩
      ⟨d.year, d.month, d.day⟩ = some d := by
    unfold Adjustment.run?
    simp only [hstart, bind, Option.bind_some, List.foldlM_nil, pure, Adjustment.monthStart?,
      Option.isSome_none, Bool.or_self, Bool.false_eq_true, if_false, Date.monthsLater?_zero,
      Date.daysLater?_zero, Date.workingDaysLater?_zero, Adjustment.toEdge?, Adjustment.toNth?]
  have hphrase : Adjustment.ofPhrase? [.date d.year d.month (some d.day)] =
      some ⟨.ofDate d.year d.month (some d.day), [], ⟨0, 0, 0⟩, none, none⟩ := rfl
  rw [apply_of_start? hphrase (NamedDay.start?_ofDate _ _ _ base), Option.getD_some, hrun]
  rfl

/-- A number needs a unit behind it, and a second number is none. -/
theorem parse_of_two_numbers {t : Text} {first second : Lexeme} {value value' : Int}
    {signed signed' : Bool} {more : Except PhraseError (List Lexeme)}
    (hfirst : first.token = .number value signed) (hsecond : second.token = .number value' signed')
    (h : scan t = more.map fun lexemes => first :: second :: lexemes) :
    ∃ e, Phrase.parse t = .error e := by
  obtain ⟨token, start, stop⟩ := first
  obtain ⟨token', start', stop'⟩ := second
  cases hfirst
  cases hsecond
  unfold Phrase.parse
  rw [h]
  cases more with
  | error e => exact ⟨e, rfl⟩
  | ok lexemes =>
    refine ⟨.missingUnit start, ?_⟩
    simp [Except.map, bind, Except.bind, readItems, nextUnit?, nextWord?]

theorem parse_text_of_other_year {d : Date} (h : ¬ HasFourDigits d.year) (rest : Text) :
    ∃ e, Phrase.parse (d.text ++ rest) = .error e := by
  obtain ⟨value, signed, stop, hyear⟩ := scanFrom_yearText h d.valid.1 0
    (Decimal.paddedNatural 2 d.month ++ '-' :: (Decimal.paddedNatural 2 d.day ++ rest))
  obtain ⟨stop', hmonth⟩ := d.scanFrom_monthText stop (Decimal.paddedNatural 2 d.day ++ rest)
  have hscan : scan (d.text ++ rest) =
      (scanFrom stop' ('-' :: (Decimal.paddedNatural 2 d.day ++ rest))).map fun lexemes =>
        ⟨.number value signed, 0, stop⟩ :: ⟨.number (-d.month) true, stop, stop'⟩ :: lexemes := by
    unfold scan
    rw [Ymd.text_append, hyear, hmonth]
    cases scanFrom stop' ('-' :: (Decimal.paddedNatural 2 d.day ++ rest)) <;> rfl
  exact parse_of_two_numbers rfl rfl hscan

end Phrase
end HolidayRules

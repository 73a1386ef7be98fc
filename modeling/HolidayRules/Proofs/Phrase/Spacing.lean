import HolidayRules.Proofs.Phrase.WrittenDate

set_option autoImplicit false

/-!
# Tokens with gaps between them

A token has many spellings, in the case of its letters and the zeros before a number. If a gap stands
between any two of them, the tokens of a text are those that were written, since a gap stops every
run of letters or digits and no dash can follow a date or a number.
-/
namespace HolidayRules

structure Decimal.IsNumeral (n : Nat) (digits : Text) : Prop where
  ne_nil : digits ≠ []
  isDigit : ∀ c ∈ digits, c.isDigit = true
  value_eq : Decimal.value digits = n

theorem Decimal.isNumeral_natural (n : Nat) : IsNumeral n (natural n) :=
  ⟨natural_ne_nil n, isDigit_natural n, value_natural n⟩

theorem Decimal.isNumeral_paddedNatural {width n : Nat} (hw : 0 < width) (h : n < 10 ^ width) :
    IsNumeral n (paddedNatural width n) := by
  refine ⟨fun hnil => ?_, isDigit_paddedNatural width n, value_paddedNatural width n⟩
  have hl := length_paddedNatural hw h
  rw [hnil] at hl
  exact absurd hl (Nat.ne_of_lt hw)

namespace Phrase

open Decimal (IsNumeral)

/-- The spellings of a token. Of a date the year has four digits and the rest two. -/
inductive Token.IsWritten : Token → Text → Prop where
  | yearMonth {year month : Nat} {ys ms : Text} (hy : IsNumeral year ys) (hyl : ys.length = 4)
      (hm : IsNumeral month ms) (hml : ms.length = 2) :
      IsWritten (.date year month none) (ys ++ '-' :: ms)
  | date {year month day : Nat} {ys ms ds : Text} (hy : IsNumeral year ys) (hyl : ys.length = 4)
      (hm : IsNumeral month ms) (hml : ms.length = 2) (hd : IsNumeral day ds) (hdl : ds.length = 2) :
      IsWritten (.date year month (some day)) (ys ++ '-' :: (ms ++ '-' :: ds))
  | number {n : Nat} {digits : Text} (h : IsNumeral n digits) : IsWritten (.number n false) digits
  | forwards {n : Nat} {digits : Text} (h : IsNumeral n digits) :
      IsWritten (.number n true) ('+' :: digits)
  | back {n : Nat} {digits : Text} (h : IsNumeral n digits) :
      IsWritten (.number (-n) true) ('-' :: digits)
  | word (letters : Text) : IsWritten (.word (Text.lower letters)) letters

def Token.InRange : Token → Prop
  | .date year month day => year < 10000 ∧ month < 100 ∧ ∀ d ∈ day, d < 100
  | .number n signed => n.natAbs ≤ 9223372036854775807 ∧ (signed = false → 0 ≤ n)
  | .word letters => letters ≠ [] ∧ letters.all Char.isAlpha = true ∧ Text.lower letters = letters
  | .stop => False

def IsGap (t : Text) : Prop := ∀ c ∈ t, isBlank c = true ∨ c = ','

theorem isGap_singleton {c : Char} (h : isBlank c = true ∨ c = ',') : IsGap [c] :=
  List.forall_mem_singleton.2 h

/-- The tokens in their order, with a gap behind each. Only the last gap may be empty. -/
inductive IsSpaced : List Token → Text → Prop where
  | nil : IsSpaced [] []
  | cons {token : Token} {tokens : List Token} {t gap rest : Text} (ht : token.IsWritten t)
      (hgap : IsGap gap) (hne : tokens ≠ [] → gap ≠ []) (h : IsSpaced tokens rest) :
      IsSpaced (token :: tokens) (t ++ (gap ++ rest))

/-! ## Every token can be written -/

theorem exists_isWritten {token : Token} (h : token.InRange) : ∃ t, token.IsWritten t := by
  cases token with
  | date year month day =>
    obtain ⟨hyear, hmonth, hday⟩ := h
    have hy : IsNumeral year (Decimal.paddedNatural 4 year) :=
      Decimal.isNumeral_paddedNatural (by decide) hyear
    have hm : IsNumeral month (Decimal.paddedNatural 2 month) :=
      Decimal.isNumeral_paddedNatural (by decide) hmonth
    have hyl : (Decimal.paddedNatural 4 year).length = 4 :=
      Decimal.length_paddedNatural (by decide) hyear
    have hml : (Decimal.paddedNatural 2 month).length = 2 :=
      Decimal.length_paddedNatural (by decide) hmonth
    cases day with
    | none => exact ⟨_, .yearMonth hy hyl hm hml⟩
    | some day =>
      have hd := hday day rfl
      exact ⟨_, .date hy hyl hm hml (Decimal.isNumeral_paddedNatural (by decide) hd)
        (Decimal.length_paddedNatural (by decide) hd)⟩
  | number n signed =>
    cases signed with
    | false =>
      obtain ⟨n, rfl⟩ := Int.eq_ofNat_of_zero_le (h.2 rfl)
      exact ⟨_, .number (Decimal.isNumeral_natural n)⟩
    | true =>
      obtain ⟨n, rfl | rfl⟩ := Int.eq_nat_or_neg n
      · exact ⟨_, .forwards (Decimal.isNumeral_natural n)⟩
      · exact ⟨_, .back (Decimal.isNumeral_natural n)⟩
  | word letters =>
    have hword := Token.IsWritten.word letters
    rw [h.2.2] at hword
    exact ⟨letters, hword⟩
  | stop => exact h.elim

theorem exists_isSpaced {tokens : List Token} (h : ∀ token ∈ tokens, token.InRange) :
    ∃ t, IsSpaced tokens t := by
  induction tokens with
  | nil => exact ⟨[], .nil⟩
  | cons token tokens ih =>
    obtain ⟨htoken, htokens⟩ := List.forall_mem_cons.1 h
    obtain ⟨t, ht⟩ := exists_isWritten htoken
    obtain ⟨rest, hrest⟩ := ih htokens
    have hgap : IsGap [' '] := isGap_singleton (.inl (by decide))
    exact ⟨_, .cons ht hgap (fun _ => by simp) hrest⟩

/-! ## Reading a token before a gap -/

def IsBreak (rest : Text) : Prop := ∀ c ∈ rest.head?, isGap c = true

theorem isGap_iff {c : Char} : isGap c = true ↔ isBlank c = true ∨ c = ',' := by
  simp [isGap]

variable {rest : Text}

theorem IsBreak.stopsRun {p : Char → Bool} (hp : ∀ c, p c = true → isGap c = false)
    (h : IsBreak rest) : Text.StopsRun p rest := by
  intro c hc
  rw [← Bool.not_eq_true]
  intro hrun
  have hgap := h c hc
  rw [hp c hrun] at hgap
  cases hgap

theorem IsBreak.stopsDigits (h : IsBreak rest) : Text.StopsRun Char.isDigit rest :=
  h.stopsRun fun _ => isGap_of_isDigit

theorem dashedDigits?_of_isBreak (h : IsBreak rest) : dashedDigits? rest = none := by
  unfold dashedDigits?
  split
  next c rest =>
    have hdash := h '-' rfl
    cases hdash
  next => rfl

theorem readToken_digits {c : Char} {digits : Text} (hd : ∀ d ∈ c :: digits, d.isDigit = true)
    (hv : Decimal.value (c :: digits) ≤ 9223372036854775807) (hrest : IsBreak rest) :
    readToken c (digits ++ rest) =
      .ok (.number (Decimal.value (c :: digits)) false, digits.length + 1) := by
  have htail : dateTail? rest = none := by
    unfold dateTail?
    rw [dashedDigits?_of_isBreak hrest]
    rfl
  rw [readToken_run hd hrest.stopsDigits, htail, ite_self, boundedValue_eq hv]
  rfl

theorem readToken_yearMonth {c : Char} {year month : Text} (hyear : year.length = 3)
    (hyd : ∀ d ∈ c :: year, d.isDigit = true) (hmonth : month.length = 2)
    (hmd : ∀ d ∈ month, d.isDigit = true) (hrest : IsBreak rest) :
    readToken c (year ++ '-' :: (month ++ rest)) =
      .ok (.date (Decimal.value (c :: year)) (Decimal.value month) none, 7) := by
  have hdrop : ('-' :: (month ++ rest)).drop (month.length + 1) = rest := by
    rw [List.drop_succ_cons, List.drop_left]
  have htail : dateTail? ('-' :: (month ++ rest)) = some (Decimal.value month, none, 3) := by
    unfold dateTail?
    rw [dashedDigits?_eq hmonth hmd]
    simp only [bind, Option.bind_some, hdrop, dashedDigits?_of_isBreak hrest]
    rw [hmonth]
    rfl
  rw [readToken_run hyd (Text.stopsRun_cons (by decide) _), if_pos hyear, htail]

theorem readToken_of_isWritten {token : Token} {t : Text} (hr : token.InRange)
    (h : token.IsWritten t) (hrest : IsBreak rest) :
    ∃ c s, t = c :: s ∧ isGap c = false ∧ readToken c (s ++ rest) = .ok (token, s.length + 1) := by
  cases h with
  | @yearMonth year month ys ms hy hyl hm hml =>
    match ys, hyl with
    | c :: ys, hyl =>
      have hread := readToken_yearMonth (Nat.succ.inj hyl) hy.isDigit hml hm.isDigit hrest
      rw [hy.value_eq, hm.value_eq] at hread
      refine ⟨c, ys ++ '-' :: ms, rfl, isGap_of_isDigit (hy.isDigit c List.mem_cons_self), ?_⟩
      simp only [List.append_assoc, List.cons_append, List.length_append, List.length_cons, hml,
        Nat.succ.inj hyl]
      exact hread
  | @date year month day ys ms ds hy hyl hm hml hd hdl =>
    match ys, hyl with
    | c :: ys, hyl =>
      have hread := readToken_date (Nat.succ.inj hyl) hy.isDigit hml hm.isDigit hdl hd.isDigit rest
      rw [hy.value_eq, hm.value_eq, hd.value_eq] at hread
      refine ⟨c, ys ++ '-' :: (ms ++ '-' :: ds), rfl,
        isGap_of_isDigit (hy.isDigit c List.mem_cons_self), ?_⟩
      simp only [List.append_assoc, List.cons_append, List.length_append, List.length_cons, hml,
        hdl, Nat.succ.inj hyl]
      exact hread
  | number h =>
    cases t with
    | nil => exact absurd rfl h.ne_nil
    | cons c digits =>
      have hread := readToken_digits h.isDigit (h.value_eq ▸ hr.1) hrest
      rw [h.value_eq] at hread
      exact ⟨c, digits, rfl, isGap_of_isDigit (h.isDigit c List.mem_cons_self), hread⟩
  | @forwards n digits h =>
    have hread := readToken_signed (.inl rfl) h.ne_nil h.isDigit hrest.stopsDigits
      (h.value_eq ▸ hr.1)
    rw [h.value_eq] at hread
    exact ⟨'+', digits, rfl, by decide, hread⟩
  | @back n digits h =>
    have hbound := hr.1
    rw [Int.natAbs_neg] at hbound
    have hread := readToken_signed (.inr rfl) h.ne_nil h.isDigit hrest.stopsDigits
      (h.value_eq ▸ hbound)
    rw [h.value_eq] at hread
    exact ⟨'-', digits, rfl, by decide, hread⟩
  | word =>
    obtain ⟨hne, halpha, -⟩ := hr
    have hletters : ∀ c ∈ t, c.isAlpha = true := fun c hc =>
      isAlpha_of_toLower (List.all_eq_true.1 halpha _ (List.mem_map_of_mem hc))
    cases t with
    | nil => exact absurd rfl hne
    | cons c s =>
      exact ⟨c, s, rfl, isGap_of_isAlpha (hletters c List.mem_cons_self),
        readToken_word hletters (hrest.stopsRun fun _ => isGap_of_isAlpha)⟩

theorem scanFrom_of_isWritten {token : Token} {t : Text} (hr : token.InRange)
    (h : token.IsWritten t) (hrest : IsBreak rest) (position : Nat) :
    ∃ stop, scanFrom position (t ++ rest) =
      (scanFrom stop rest).map (⟨token, position, stop⟩ :: ·) := by
  obtain ⟨c, s, rfl, hc, hread⟩ := readToken_of_isWritten hr h hrest
  exact ⟨_, scanFrom_token hc hread position⟩

theorem scanFrom_gap {gap : Text} (h : IsGap gap) (position : Nat) (rest : Text) :
    ∃ next, scanFrom position (gap ++ rest) = scanFrom next rest := by
  induction gap generalizing position with
  | nil => exact ⟨position, rfl⟩
  | cons c gap ih =>
    obtain ⟨hc, hgap⟩ := List.forall_mem_cons.1 h
    obtain ⟨next, hnext⟩ := ih hgap (position + c.utf8Size)
    refine ⟨next, ?_⟩
    rw [List.cons_append, scanFrom, if_pos (isGap_iff.2 hc), hnext]

theorem isBreak_of_isSpaced {tokens : List Token} {gap : Text} (hgap : IsGap gap)
    (hne : tokens ≠ [] → gap ≠ []) (h : IsSpaced tokens rest) : IsBreak (gap ++ rest) := by
  intro c hc
  cases gap with
  | cons d gap =>
    cases hc
    exact isGap_iff.2 (hgap c List.mem_cons_self)
  | nil =>
    cases h with
    | nil => cases hc
    | cons => exact absurd rfl (hne (by simp))

theorem scanFrom_of_isSpaced {tokens : List Token} {t : Text}
    (hr : ∀ token ∈ tokens, token.InRange) (h : IsSpaced tokens t) (position : Nat) :
    ∃ lexemes, scanFrom position t = .ok lexemes ∧
      lexemes.map Lexeme.token = tokens ++ [.stop] := by
  induction h generalizing position with
  | nil => exact ⟨_, by rw [scanFrom], rfl⟩
  | cons ht hgap hne hrest ih =>
    obtain ⟨htoken, htokens⟩ := List.forall_mem_cons.1 hr
    obtain ⟨stop, hscan⟩ :=
      scanFrom_of_isWritten htoken ht (isBreak_of_isSpaced hgap hne hrest) position
    obtain ⟨next, hnext⟩ := scanFrom_gap hgap stop _
    obtain ⟨lexemes, hlexemes, hmap⟩ := ih htokens next
    rw [hscan, hnext, hlexemes]
    exact ⟨_, rfl, by rw [List.map_cons, hmap]; rfl⟩

end Phrase
end HolidayRules

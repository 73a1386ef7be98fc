import HolidayRules.Evaluation
import HolidayRules.Proofs.Feast.FeastYears
import HolidayRules.Proofs.Phrase.WrittenDate
import HolidayRules.Proofs.Template.Flat
import HolidayRules.Proofs.Text.Trimming

set_option autoImplicit false

/-!
# Codes that are one date

A code of a single group for a feast or for a day of another calendar becomes the text of a date,
which a chain reads back where the year has four digits. In those years the code comes to the date,
and in all others it does not apply.
-/
namespace HolidayRules

theorem Decimal.mem_padded {width : Nat} {n : Int} :
    ∀ c ∈ Decimal.padded width n, c.isDigit = true ∨ c = '-' := by
  intro c hc
  cases n with
  | ofNat n => exact .inl (Decimal.isDigit_paddedNatural width n c hc)
  | negSucc n =>
    rcases List.mem_cons.1 hc with rfl | hc
    · exact .inr rfl
    · exact .inl (Decimal.isDigit_paddedNatural _ _ c hc)

theorem Ymd.mem_text (d : Ymd) : ∀ c ∈ d.text, c.isDigit = true ∨ c = '-' := by
  intro c hc
  rw [← List.append_nil d.text, Ymd.text_append] at hc
  simp only [List.append_nil, List.mem_append, List.mem_cons] at hc
  rcases hc with hc | rfl | hc | rfl | hc
  · exact Decimal.mem_padded c hc
  · exact .inr rfl
  · exact .inl (Decimal.isDigit_paddedNatural 2 d.month c hc)
  · exact .inr rfl
  · exact .inl (Decimal.isDigit_paddedNatural 2 d.day c hc)

/-! ## Chains of one date -/

namespace Chain

theorem parse_of_plain {t : Text} (h : ∀ c ∈ t, isBlank c = false ∧ c ≠ '|' ∧ c ≠ '{') :
    Chain.parse t = (Phrase.parseAt (0 + t.indent) t).map fun phrase => [.plain phrase] := by
  have hbar : t.splitOn '|' = [t] := List.splitOn_eq_singleton fun hm => (h _ hm).2.1 rfl
  have htrim : t.trim = t :=
    Text.trim_eq_self (Text.isTrimmed_of_forall fun c hc => (h c hc).1)
  have hopening : Guard.opening.isPrefixOf t = false := by
    cases t with
    | nil => rfl
    | cons c t =>
      have hc : ('{' == c) = false := beq_eq_false_iff_ne.2 (h c List.mem_cons_self).2.2.symm
      unfold Guard.opening List.isPrefixOf
      rw [hc, Bool.false_and]
  unfold Chain.parse
  rw [hbar, parseSteps, parseSteps]
  unfold Step.parse
  simp only [htrim, hopening, Bool.false_eq_true, if_false]
  cases Phrase.parseAt (0 + t.indent) t <;> rfl

theorem outcome_text (d : Date) (base : Ymd) :
    Chain.outcome d.text base =
      if HasFourDigits d.year then .date d.toYmd else .notApplicable := by
  have hplain : ∀ c ∈ d.text, isBlank c = false ∧ c ≠ '|' ∧ c ≠ '{' := by
    intro c hc
    rcases d.mem_text c hc with hdigit | rfl
    · have hn := Decimal.toNat_of_isDigit hdigit
      have hz : '0'.toNat = 48 := rfl
      refine ⟨isBlank_eq_false (by omega), ?_, ?_⟩ <;> rintro rfl <;> cases hdigit
    · decide
  unfold Chain.outcome
  rw [parse_of_plain hplain]
  by_cases h : HasFourDigits d.year
  · have hphrase : Phrase.parseAt (0 + Text.indent d.text) d.text =
        .ok [.date d.year d.month (some d.day)] := by
      unfold Phrase.parseAt
      rw [Phrase.parse_text h]
      rfl
    have hstep : Step.apply (.plain [.date d.year d.month (some d.day)]) base.date? =
        .ok (some d) := by
      change (Phrase.apply _ base.date?).map some = _
      rw [Phrase.apply_date]
      rfl
    rw [hphrase, if_pos h]
    simp only [Except.map, Chain.apply, hstep]
  · obtain ⟨e, he⟩ := Phrase.parse_text_of_other_year h []
    rw [List.append_nil] at he
    unfold Phrase.parseAt
    rw [he, if_neg h]
    rfl

end Chain

def Chain.outcomeOf (t : Option Text) (d : Ymd) : Outcome :=
  t.elim .notApplicable fun t => Chain.outcome t d

theorem Chain.outcomeOf_text {found : Option Date} {d : Ymd}
    (h : ∀ f ∈ found, HasFourDigits f.year ↔ HasFourDigits d.year) :
    Chain.outcomeOf (found.map fun f => f.text) d =
      if HasFourDigits d.year then .ofOption (found.map Date.toYmd) else .notApplicable := by
  cases found with
  | none => exact (ite_self _).symm
  | some f =>
    change Chain.outcome f.text d = _
    rw [Chain.outcome_text]
    simp only [h f rfl]
    rfl

/-! ## Codes of one group -/

namespace Template

theorem parse_inBraces {content : Text} {piece : Piece} (hc : BraceFree content)
    (h : ofGroup content = [piece]) : parse (inBraces content) = [piece] := by
  have hparse := parse_of_group (nextToken?_flat_group hc.isFlat [])
  rw [List.append_nil, parse_nil, h] at hparse
  cases piece <;> exact hparse

end Template

theorem evaluate_slot (registry : Registry) (slot : Slot) (d : Ymd) :
    evaluate registry (inBraces slot.name) d = .ok (Chain.outcomeOf (slot.value? d) d) := by
  have hgroup : Template.ofGroup slot.name = [.slot slot] := by cases slot <;> rfl
  have hbraces : Template.BraceFree slot.name := by cases slot <;> decide
  unfold evaluate
  rw [Template.parse_inBraces hbraces hgroup]
  have hfill : Template.fill? d none [.slot slot] = slot.value? d := by
    unfold Template.fill?
    cases h : slot.value? d <;> simp [Piece.fill?, h]
  unfold Template.evaluate Template.expand
  simp only [Template.choose?, Template.firstCall?, Option.map_some, hfill]
  cases slot.value? d <;> rfl

theorem evaluate_call {registry : Registry} {name : Text} {extension : Extension}
    (hget : registry.get? name = some extension) (hname : Template.ofGroup name = [.call name])
    (hbraces : Template.BraceFree name) (d : Ymd) :
    evaluate registry (inBraces name) d = .ok (Chain.outcomeOf (extension d) d) := by
  unfold evaluate
  rw [Template.parse_inBraces hbraces hname]
  have hcall : registry.call name d = .ok (extension d) := by
    unfold Registry.call
    rw [hget]
  have hfill (answer : Text) :
      Template.fill? d (some (name, answer)) [.call name] = some answer := by
    simp [Template.fill?, Piece.fill?]
  unfold Template.evaluate Template.expand
  simp only [Template.choose?, Template.firstCall?, Option.map_some, hcall]
  cases extension d with
  | none => rfl
  | some answer =>
    simp only [hfill]
    rfl

def feasts : List (Text × (Ymd → Option Date)) :=
  [("easter".toList, fun d => Easter.date? .western d.year),
    ("easter_o".toList, fun d => Easter.date? .orthodox d.year),
    ("passover".toList, fun d => Passover.date? d.year)]

def calendars : List (Text × (Ymd → Option Date)) :=
  [("hebrew".toList, fun d => Hebrew.inYear? d.year d.month d.day),
    ("islamic".toList, fun d => HijriDate.inYear? d.year d.month d.day)]

theorem Hebrew.year_of_inYear? {year : Int} {month day : Nat} {d : Date}
    (h : inYear? year month day = some d) : d.year = year := by
  unfold inYear? at h
  simpa using List.find?_some h

theorem HijriDate.year_of_inYear? {year : Int} {month day : Nat} {d : Date}
    (h : inYear? year month day = some d) : d.year = year := by
  unfold inYear? at h
  split at h
  next =>
    obtain ⟨start, -, hfind⟩ := Option.bind_eq_some_iff.1 h
    simpa using List.find?_some hfind
  next => cases h

theorem hasFourDigits_of_mem_feasts {entry : Text × (Ymd → Option Date)} (h : entry ∈ feasts)
    {d : Ymd} {f : Date} (hf : entry.2 d = some f) :
    HasFourDigits f.year ↔ HasFourDigits d.year := by
  simp only [feasts, List.mem_cons, List.not_mem_nil, or_false] at h
  rcases h with rfl | rfl | rfl
  · rw [Easter.year_of_date? hf]
  · rw [Easter.year_of_date? hf]
  · exact Passover.hasFourDigits_of_date? hf

theorem hasFourDigits_of_mem_calendars {entry : Text × (Ymd → Option Date)}
    (h : entry ∈ calendars) {d : Ymd} {f : Date} (hf : entry.2 d = some f) :
    HasFourDigits f.year ↔ HasFourDigits d.year := by
  simp only [calendars, List.mem_cons, List.not_mem_nil, or_false] at h
  rcases h with rfl | rfl
  · rw [Hebrew.year_of_inYear? hf]
  · rw [HijriDate.year_of_inYear? hf]

theorem evaluate_feast (registry : Registry) {entry : Text × (Ymd → Option Date)}
    (h : entry ∈ feasts) (d : Ymd) :
    evaluate registry (inBraces entry.1) d =
      .ok (if HasFourDigits d.year then .ofOption ((entry.2 d).map Date.toYmd)
        else .notApplicable) := by
  have hslot : ∃ slot : Slot, entry.1 = slot.name ∧
      slot.value? d = (entry.2 d).map fun f => f.text := by
    simp only [feasts, List.mem_cons, List.not_mem_nil, or_false] at h
    rcases h with rfl | rfl | rfl
    · exact ⟨.easter, rfl, rfl⟩
    · exact ⟨.easterOrthodox, rfl, rfl⟩
    · exact ⟨.passover, rfl, rfl⟩
  obtain ⟨slot, hname, hvalue⟩ := hslot
  rw [hname, evaluate_slot, hvalue,
    Chain.outcomeOf_text fun f hf => hasFourDigits_of_mem_feasts h hf]

theorem evaluate_calendar {registry : Registry} {entry : Text × (Ymd → Option Date)}
    (h : entry ∈ calendars) (hget : registry.get? entry.1 = Registry.builtin.get? entry.1)
    (d : Ymd) :
    evaluate registry (inBraces entry.1) d =
      .ok (if HasFourDigits d.year then .ofOption ((entry.2 d).map Date.toYmd)
        else .notApplicable) := by
  have hcall : Registry.builtin.get? entry.1 = some (fun d => (entry.2 d).map fun f => f.text) ∧
      Template.ofGroup entry.1 = [.call entry.1] ∧ Template.BraceFree entry.1 := by
    simp only [calendars, List.mem_cons, List.not_mem_nil, or_false] at h
    rcases h with rfl | rfl
    · exact ⟨rfl, rfl, by decide⟩
    · exact ⟨rfl, rfl, by decide⟩
  obtain ⟨hbuiltin, hname, hbraces⟩ := hcall
  rw [evaluate_call (hget.trans hbuiltin) hname hbraces,
    Chain.outcomeOf_text fun f hf => hasFourDigits_of_mem_calendars h hf]

/-- A date with a year of four digits is read back from its text, alone and with an offset behind it;
any other date is not. So a feast or a day of another calendar comes as a code to its date in the
years with four digits, and to nothing in all others. -/
theorem text_isRead_iff_hasFourDigits :
    (∀ d : Date, HasFourDigits d.year →
      (∀ (sign : Char) (n : Nat) (u : Text) (unit : OffsetUnit), sign = '+' ∨ sign = '-' →
        n ≤ 9223372036854775807 → OffsetUnit.ofName? (Text.lower u) = some unit →
        Phrase.parse (d.text ++ sign :: (Decimal.natural n ++ ' ' :: u)) =
          .ok [.date d.year d.month (some d.day), .offset (if sign = '-' then -n else n) unit]) ∧
      ∃ phrase, Phrase.parse d.text = .ok phrase ∧ ∀ base, phrase.apply base = .ok d) ∧
    (∀ d : Date, ¬ HasFourDigits d.year → ∀ rest, ∃ e, Phrase.parse (d.text ++ rest) = .error e) ∧
    ∀ (registry : Registry) (d : Ymd) (entry : Text × (Ymd → Option Date)),
      entry ∈ feasts ∨
        entry ∈ calendars ∧ registry.get? entry.1 = Registry.builtin.get? entry.1 →
      evaluate registry (inBraces entry.1) d =
        .ok (if HasFourDigits d.year then .ofOption ((entry.2 d).map Date.toYmd)
          else .notApplicable) := by
  refine ⟨fun d h => ⟨?_, ?_⟩, fun d h rest => Phrase.parse_text_of_other_year h rest, ?_⟩
  · intro sign n u unit hs hn hu
    exact Phrase.parse_text_offset h hs hn hu
  · exact ⟨_, Phrase.parse_text h, Phrase.apply_date d⟩
  · rintro registry d entry (hfeast | ⟨hcalendar, hget⟩)
    · exact evaluate_feast registry hfeast d
    · exact evaluate_calendar hcalendar hget d

/-- Easter Monday of 2019, a year of five digits, and the 21st of Nisan, the eighth month, in 2019. -/
theorem text_isRead_2019 :
    Phrase.parse "2019-04-21+1 day".toList = .ok [.date 2019 4 (some 21), .offset 1 .day] ∧
      (∃ e, Phrase.parse "10000-04-16".toList = .error e) ∧
      evaluate .empty "{{easter}}".toList ⟨2019, 1, 1⟩ = .ok (.date ⟨2019, 4, 21⟩) ∧
      evaluate .builtin "{{hebrew}}".toList ⟨2019, 8, 21⟩ = .ok (.date ⟨2019, 4, 26⟩) := by
  obtain ⟨hfour, hother, hcode⟩ := text_isRead_iff_hasFourDigits
  refine ⟨?_, ?_, ?_, ?_⟩
  · exact (hfour ⟨⟨2019, 4, 21⟩, by decide⟩ (by decide)).1 '+' 1 "day".toList .day (.inl rfl)
      (by decide) (by decide)
  · exact hother ⟨⟨10000, 4, 16⟩, by decide⟩ (by decide) []
  · exact hcode .empty ⟨2019, 1, 1⟩ _ (.inl List.mem_cons_self)
  · exact hcode .builtin ⟨2019, 8, 21⟩ _ (.inr ⟨List.mem_cons_self, rfl⟩)

end HolidayRules

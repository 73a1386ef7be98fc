import HolidayRules.Proofs.Phrase.Spacing

set_option autoImplicit false

/-!
# Phrases that are written and read back

Each item has one or more forms, which are lists of tokens. The items share words, but no item begins
with a unit, with `of` or with a number that has no sign, and these are all that a reader of the item
before it looks out for.
-/
namespace HolidayRules

open Phrase

def nameWords (name : Text) : List Text := [Text.lower name, Text.lower (abbreviation name)]

def Movement.words : Movement → List Text
  | thisOrNext => ["this".toList]
  | next => ["next".toList]
  | previous => ["previous".toList, "last".toList]

def MonthEdge.word : MonthEdge → Text
  | first => "first".toList
  | last => "last".toList

def OffsetUnit.words (unit : OffsetUnit) : List Text := [unit.name, unit.name ++ ['s']]

def ordinalWords : Int → List Text
  | 1 => ["first".toList, "next".toList]
  | 2 => ["second".toList]
  | 3 => ["third".toList]
  | 4 => ["fourth".toList]
  | 5 => ["fifth".toList]
  | 6 => ["sixth".toList]
  | 7 => ["seventh".toList]
  | 8 => ["eighth".toList]
  | 9 => ["ninth".toList]
  | 10 => ["tenth".toList]
  | 11 => ["eleventh".toList]
  | 12 => ["twelfth".toList]
  | -1 => ["last".toList]
  | _ => []

namespace Item

/-- The forms of an item. A weekday by itself is the one of today or the next. -/
inductive IsForm : Item → List Token → Prop where
  | date (year month : Nat) (day : Option Nat) :
      IsForm (.date year month day) [.date year month day]
  | month {m : Nat} {w : Text} (hw : w ∈ nameWords (monthName m)) :
      IsForm (.month m none) [.word w]
  | dayOfMonth {m : Nat} {w : Text} (hw : w ∈ nameWords (monthName m)) (day : Nat) :
      IsForm (.month m (some day)) [.word w, .number day false]
  | offset (amount : Int) {unit : OffsetUnit} {w : Text} (hw : w ∈ unit.words) :
      IsForm (.offset amount unit) [.number amount true, .word w]
  | ago : IsForm .ago [.word "ago".toList]
  | weekday {day : Weekday} {w : Text} (hw : w ∈ nameWords day.name) :
      IsForm (.weekday day .thisOrNext) [.word w]
  | moved {day : Weekday} {movement : Movement} {direction w : Text}
      (hd : direction ∈ movement.words) (hw : w ∈ nameWords day.name) :
      IsForm (.weekday day movement) [.word direction, .word w]
  | edge (edge : MonthEdge) :
      IsForm (.edge edge) [.word edge.word, .word "day".toList, .word "of".toList]
  | nth {n : Int} {day : Weekday} {ordinal w : Text} (ho : ordinal ∈ ordinalWords n)
      (hw : w ∈ nameWords day.name) :
      IsForm (.nth n day) [.word ordinal, .word w, .word "of".toList]

def IsWritable : Item → Prop
  | .date y m day => (0 ≤ y ∧ y ≤ 9999) ∧ m ≤ 99 ∧ ∀ d ∈ day, d ≤ 99
  | .month m day => (1 ≤ m ∧ m ≤ 12) ∧ ∀ d ∈ day, 1 ≤ d ∧ d ≤ 31
  | .offset amount _ => -9223372036854775807 ≤ amount ∧ amount ≤ 9223372036854775807
  | .nth n _ => (1 ≤ n ∧ n ≤ 12) ∨ n = -1
  | .ago | .weekday _ _ | .edge _ => True

end Item

namespace Phrase

inductive HasTokens : Phrase → List Token → Prop where
  | nil : HasTokens [] []
  | cons {item : Item} {phrase : Phrase} {form tokens : List Token} (hitem : item.IsForm form)
      (h : HasTokens phrase tokens) : HasTokens (item :: phrase) (form ++ tokens)

/-- The items in their forms and in any letter case, with gaps between all words, numbers and
dates. -/
def IsWritten (phrase : Phrase) (t : Text) : Prop :=
  ∃ tokens gap body, HasTokens phrase tokens ∧ IsGap gap ∧ IsSpaced tokens body ∧ t = gap ++ body

/-! ## The words -/

/-- A word that is no item by itself and leads to nothing but a name. -/
def IsName (w : Text) : Prop :=
  fixedWords.lookup w = none ∧ edges.lookup w = none ∧ ordinals.lookup w = none ∧
    directions.lookup w = none

instance (w : Text) : Decidable (IsName w) := inferInstanceAs (Decidable (_ ∧ _ ∧ _ ∧ _))

/-- What no reader of the item before takes for a part of it. -/
def Token.BeginsItem : Token → Prop
  | .number _ signed => signed = true
  | .word w => OffsetUnit.ofName? w = none ∧ w ≠ "of".toList
  | .date _ _ _ | .stop => True

instance (w : Text) : Decidable (Token.BeginsItem (.word w)) :=
  inferInstanceAs (Decidable (_ ∧ _))

instance (w : Text) : Decidable (Token.InRange (.word w)) :=
  inferInstanceAs (Decidable (_ ∧ _ ∧ _))

theorem weekday_word {day : Weekday} {w : Text} (h : w ∈ nameWords day.name) :
    Weekday.ofName? w = some day ∧ IsName w ∧ w ≠ "day".toList ∧
      Token.BeginsItem (.word w) ∧ Token.InRange (.word w) := by
  revert w
  cases day <;> decide

theorem month_word {month : Nat} (hm : 1 ≤ month ∧ month ≤ 12) {w : Text}
    (h : w ∈ nameWords (monthName month)) :
    monthOfName? w = some month ∧ Weekday.ofName? w = none ∧ IsName w ∧
      Token.BeginsItem (.word w) ∧ Token.InRange (.word w) := by
  have hall : ∀ m ∈ List.range' 1 12, ∀ w ∈ nameWords (monthName m),
      monthOfName? w = some m ∧ Weekday.ofName? w = none ∧ IsName w ∧
        Token.BeginsItem (.word w) ∧ Token.InRange (.word w) := by decide
  exact hall month (List.mem_range'_1.2 (by omega)) w h

theorem unit_word {unit : OffsetUnit} {w : Text} (h : w ∈ unit.words) :
    OffsetUnit.ofName? w = some unit ∧ Token.InRange (.word w) := by
  revert w
  cases unit <;> decide

theorem direction_word {movement : Movement} {w : Text} (h : w ∈ movement.words) :
    (∃ amount, directions.lookup w = some (amount, movement)) ∧ fixedWords.lookup w = none ∧
      Token.BeginsItem (.word w) ∧ Token.InRange (.word w) := by
  cases movement with
  | thisOrNext | next =>
    obtain rfl := List.mem_singleton.1 h
    exact ⟨⟨_, rfl⟩, by decide⟩
  | previous =>
    rcases List.mem_cons.1 h with rfl | h
    · exact ⟨⟨_, rfl⟩, by decide⟩
    · obtain rfl := List.mem_singleton.1 h
      exact ⟨⟨_, rfl⟩, by decide⟩

theorem ordinal_word {n : Int} {w : Text} (h : w ∈ ordinalWords n) :
    ordinals.lookup w = some n ∧ fixedWords.lookup w = none ∧
      Token.BeginsItem (.word w) ∧ Token.InRange (.word w) := by
  unfold ordinalWords at h
  split at h
  case h_14 => cases h
  all_goals
    revert w
    decide

/-! ## Reading one item -/

def StartsItem (lexemes : List Lexeme) : Prop := ∀ lexeme ∈ lexemes.head?, lexeme.token.BeginsItem

variable {rest : List Lexeme}

theorem nextUnit?_of_startsItem (h : StartsItem rest) : nextUnit? rest = none := by
  cases rest with
  | nil => rfl
  | cons lexeme rest =>
    obtain ⟨token, start, stop⟩ := lexeme
    have htoken := h _ rfl
    cases token with
    | word w => exact htoken.1
    | date | number | stop => rfl

theorem nextWord?_of_startsItem (h : StartsItem rest) : nextWord? rest ≠ some "of".toList := by
  cases rest with
  | nil => simp [nextWord?]
  | cons lexeme rest =>
    obtain ⟨token, start, stop⟩ := lexeme
    have htoken := h _ rfl
    cases token with
    | word w => exact fun hof => htoken.2 (Option.some.inj hof)
    | date | number | stop => simp [nextWord?]

theorem dayOfMonth?_of_startsItem (h : StartsItem rest) : dayOfMonth? rest = none := by
  cases rest with
  | nil => rfl
  | cons lexeme rest =>
    obtain ⟨token, start, stop⟩ := lexeme
    have htoken := h _ rfl
    cases token with
    | number n signed =>
      obtain rfl : signed = true := htoken
      rfl
    | date | word | stop => rfl

theorem readItems_word {w : Text} {start stop used : Nat} {item : Item}
    (h : readWord start w rest = .ok (some item, used)) :
    readItems (⟨.word w, start, stop⟩ :: rest) =
      (readItems (rest.drop used)).map (item :: ·) := by
  rw [readItems, h]
  change (readItems (rest.drop used) >>= fun items => pure (item :: items)) = _
  cases readItems (rest.drop used) <;> rfl

theorem readWord_of_isName {w : Text} (h : IsName w) (position : Nat) (rest : List Lexeme) :
    readWord position w rest = readName position w rest := by
  obtain ⟨hfixed, hedge, hordinal, hdirection⟩ := h
  have hedge' : edgeItem? w rest = none := by
    unfold edgeItem?
    rw [hedge]
    exact ite_self _
  have hnth : nthItem? w rest = none := by
    unfold nthItem?
    rw [hordinal]
    rfl
  unfold readWord
  rw [hfixed, hedge', hnth, hdirection]
  rfl

/-- Neither `day of` nor a numbered weekday stands behind a word before a weekday without `of`. -/
theorem readWord_direction {direction w : Text} {amount : Int} {movement : Movement}
    {day : Weekday} {start stop : Nat} (hd : directions.lookup direction = some (amount, movement))
    (hfixed : fixedWords.lookup direction = none) (hw : Weekday.ofName? w = some day)
    (hday : w ≠ "day".toList) (hrest : nextWord? rest ≠ some "of".toList) (position : Nat) :
    readWord position direction (⟨.word w, start, stop⟩ :: rest) =
      .ok (some (.weekday day movement), 1) := by
  have hedge : edgeItem? direction (⟨.word w, start, stop⟩ :: rest) = none := by
    unfold edgeItem?
    rw [if_neg fun h => hday (Option.some.inj h.1)]
  have hnext : nextWeekday? (⟨.word w, start, stop⟩ :: rest) = some day := hw
  have hnth : nthItem? direction (⟨.word w, start, stop⟩ :: rest) = none := by
    unfold nthItem?
    rw [hnext]
    cases ordinals.lookup direction with
    | none => rfl
    | some n => exact if_neg hrest
  unfold readWord
  rw [hfixed, hedge, hnth, hd]
  dsimp only [Option.or]
  unfold readDirected
  rw [hnext]

theorem readWord_ordinal {ordinal w : Text} {n : Int} {day : Weekday} {start stop start' stop' : Nat}
    (ho : ordinals.lookup ordinal = some n) (hfixed : fixedWords.lookup ordinal = none)
    (hw : Weekday.ofName? w = some day) (hday : w ≠ "day".toList) (position : Nat) :
    readWord position ordinal (⟨.word w, start, stop⟩ :: ⟨.word "of".toList, start', stop'⟩ :: rest) =
      .ok (some (.nth n day), 2) := by
  have hedge : edgeItem? ordinal
      (⟨.word w, start, stop⟩ :: ⟨.word "of".toList, start', stop'⟩ :: rest) = none := by
    unfold edgeItem?
    rw [if_neg fun h => hday (Option.some.inj h.1)]
  have hnth : nthItem? ordinal
      (⟨.word w, start, stop⟩ :: ⟨.word "of".toList, start', stop'⟩ :: rest) = some (.nth n day) := by
    unfold nthItem?
    rw [ho, nextWeekday?, nextWord?, Option.bind_some, hw]
    rfl
  unfold readWord
  rw [hfixed, hedge, hnth]
  rfl

theorem readName_of_weekday {w : Text} {day : Weekday} (h : Weekday.ofName? w = some day)
    (position : Nat) :
    readName position w rest = .ok (some (.weekday day .thisOrNext), 0) := by
  unfold readName
  rw [h]

theorem readName_of_month {w : Text} {m : Nat} (h : monthOfName? w = some m)
    (hw : Weekday.ofName? w = none) (position : Nat) :
    readName position w rest =
      .ok (some (.month m (dayOfMonth? rest)), if (dayOfMonth? rest).isSome then 1 else 0) := by
  unfold readName
  rw [hw, h]
  cases dayOfMonth? rest <;> rfl

theorem dayOfMonth?_number {day start stop : Nat} (hday : 1 ≤ day ∧ day ≤ 31)
    (hrest : nextUnit? rest = none) :
    dayOfMonth? (⟨.number day false, start, stop⟩ :: rest) = some day := by
  have hbounds : (1 ≤ (day : Int) ∧ (day : Int) ≤ 31) ∧ nextUnit? rest = none := ⟨by omega, hrest⟩
  rw [dayOfMonth?, if_pos hbounds, Int.toNat_natCast]

theorem exists_of_map_token {lexemes : List Lexeme} {token : Token} {tokens : List Token}
    (h : lexemes.map Lexeme.token = token :: tokens) :
    ∃ start stop more, lexemes = ⟨token, start, stop⟩ :: more ∧
      more.map Lexeme.token = tokens := by
  obtain ⟨⟨found, start, stop⟩, more, hl, htoken, hmore⟩ := List.map_eq_cons_iff.1 h
  obtain rfl : found = token := htoken
  exact ⟨start, stop, more, hl, hmore⟩

theorem readItems_of_isForm {item : Item} {form : List Token} {lexemes : List Lexeme}
    (hi : item.IsWritable) (hf : item.IsForm form) (hl : lexemes.map Lexeme.token = form)
    (hrest : StartsItem rest) : readItems (lexemes ++ rest) = (readItems rest).map (item :: ·) := by
  cases hf with
  | date year month day =>
    obtain ⟨start, stop, more, rfl, hnil⟩ := exists_of_map_token hl
    obtain rfl := List.map_eq_nil_iff.1 hnil
    rw [List.cons_append, readItems]
    rfl
  | month hw =>
    obtain ⟨start, stop, more, rfl, hnil⟩ := exists_of_map_token hl
    obtain rfl := List.map_eq_nil_iff.1 hnil
    obtain ⟨hmonth, hnone, hname, -⟩ := month_word hi.1 hw
    have hread := readWord_of_isName hname start rest
    rw [readName_of_month hmonth hnone, dayOfMonth?_of_startsItem hrest] at hread
    exact readItems_word hread
  | dayOfMonth hw day =>
    obtain ⟨start, stop, more, rfl, hmore⟩ := exists_of_map_token hl
    obtain ⟨start', stop', more', rfl, hnil⟩ := exists_of_map_token hmore
    obtain rfl := List.map_eq_nil_iff.1 hnil
    obtain ⟨hmonth, hnone, hname, -⟩ := month_word hi.1 hw
    have hread := readWord_of_isName hname start (⟨.number day false, start', stop'⟩ :: rest)
    rw [readName_of_month hmonth hnone,
      dayOfMonth?_number (hi.2 day rfl) (nextUnit?_of_startsItem hrest)] at hread
    exact readItems_word hread
  | offset amount hw =>
    obtain ⟨start, stop, more, rfl, hmore⟩ := exists_of_map_token hl
    obtain ⟨start', stop', more', rfl, hnil⟩ := exists_of_map_token hmore
    obtain rfl := List.map_eq_nil_iff.1 hnil
    have hunit : nextUnit? (⟨.word _, start', stop'⟩ :: rest) = some _ := (unit_word hw).1
    rw [List.cons_append, List.cons_append, readItems, List.nil_append, hunit]
    rfl
  | ago =>
    obtain ⟨start, stop, more, rfl, hnil⟩ := exists_of_map_token hl
    obtain rfl := List.map_eq_nil_iff.1 hnil
    have hread : readWord start "ago".toList rest = .ok (some .ago, 0) := rfl
    exact readItems_word hread
  | weekday hw =>
    obtain ⟨start, stop, more, rfl, hnil⟩ := exists_of_map_token hl
    obtain rfl := List.map_eq_nil_iff.1 hnil
    obtain ⟨hday, hname, -⟩ := weekday_word hw
    have hread := readWord_of_isName hname start rest
    rw [readName_of_weekday hday] at hread
    exact readItems_word hread
  | moved hd hw =>
    obtain ⟨start, stop, more, rfl, hmore⟩ := exists_of_map_token hl
    obtain ⟨start', stop', more', rfl, hnil⟩ := exists_of_map_token hmore
    obtain rfl := List.map_eq_nil_iff.1 hnil
    obtain ⟨⟨amount, hdirection⟩, hfixed, -⟩ := direction_word hd
    obtain ⟨hday, -, hne, -⟩ := weekday_word hw
    exact readItems_word
      (readWord_direction hdirection hfixed hday hne (nextWord?_of_startsItem hrest) start)
  | edge edge =>
    obtain ⟨start, stop, more, rfl, hmore⟩ := exists_of_map_token hl
    obtain ⟨start', stop', more', rfl, hmore'⟩ := exists_of_map_token hmore
    obtain ⟨start'', stop'', more'', rfl, hnil⟩ := exists_of_map_token hmore'
    obtain rfl := List.map_eq_nil_iff.1 hnil
    have hread : readWord start edge.word (⟨.word "day".toList, start', stop'⟩ ::
        ⟨.word "of".toList, start'', stop''⟩ :: rest) = .ok (some (.edge edge), 2) := by
      cases edge <;> rfl
    exact readItems_word hread
  | nth ho hw =>
    obtain ⟨start, stop, more, rfl, hmore⟩ := exists_of_map_token hl
    obtain ⟨start', stop', more', rfl, hmore'⟩ := exists_of_map_token hmore
    obtain ⟨start'', stop'', more'', rfl, hnil⟩ := exists_of_map_token hmore'
    obtain rfl := List.map_eq_nil_iff.1 hnil
    obtain ⟨hordinal, hfixed, -⟩ := ordinal_word ho
    obtain ⟨hday, -, hne, -⟩ := weekday_word hw
    exact readItems_word (readWord_ordinal hordinal hfixed hday hne start)

/-! ## Reading all of them -/

theorem inRange_of_isForm {item : Item} {form : List Token} (hi : item.IsWritable)
    (hf : item.IsForm form) : ∀ token ∈ form, token.InRange := by
  have hof : Token.InRange (.word "of".toList) := by decide
  cases hf with
  | date year month day =>
    obtain ⟨hyear, hmonth, hday⟩ := hi
    have hlast : ∀ d ∈ day, d < 100 := fun d hd => Nat.lt_succ_of_le (hday d hd)
    exact List.forall_mem_singleton.2 ⟨by omega, by omega, hlast⟩
  | month hw =>
    obtain ⟨-, -, -, -, hname⟩ := month_word hi.1 hw
    exact List.forall_mem_singleton.2 hname
  | dayOfMonth hw day =>
    obtain ⟨-, -, -, -, hname⟩ := month_word hi.1 hw
    have hday := hi.2 day rfl
    exact List.forall_mem_cons.2
      ⟨hname, List.forall_mem_singleton.2 ⟨by omega, fun _ => by omega⟩⟩
  | offset amount hw =>
    obtain ⟨-, hunit⟩ := unit_word hw
    obtain ⟨hlow, hhigh⟩ := hi
    have hamount : Token.InRange (.number amount true) := ⟨by omega, fun h => by cases h⟩
    exact List.forall_mem_cons.2 ⟨hamount, List.forall_mem_singleton.2 hunit⟩
  | ago => exact List.forall_mem_singleton.2 (by decide)
  | weekday hw =>
    obtain ⟨-, -, -, -, hname⟩ := weekday_word hw
    exact List.forall_mem_singleton.2 hname
  | moved hd hw =>
    obtain ⟨-, -, -, hdirection⟩ := direction_word hd
    obtain ⟨-, -, -, -, hname⟩ := weekday_word hw
    exact List.forall_mem_cons.2 ⟨hdirection, List.forall_mem_singleton.2 hname⟩
  | edge edge =>
    have hword : Token.InRange (.word edge.word) := by cases edge <;> decide
    have hday : Token.InRange (.word "day".toList) := by decide
    exact List.forall_mem_cons.2 ⟨hword, List.forall_mem_cons.2
      ⟨hday, List.forall_mem_singleton.2 hof⟩⟩
  | nth ho hw =>
    obtain ⟨-, -, -, hordinal⟩ := ordinal_word ho
    obtain ⟨-, -, -, -, hname⟩ := weekday_word hw
    exact List.forall_mem_cons.2 ⟨hordinal, List.forall_mem_cons.2
      ⟨hname, List.forall_mem_singleton.2 hof⟩⟩

theorem exists_begin_of_isForm {item : Item} {form : List Token} (hi : item.IsWritable)
    (hf : item.IsForm form) : ∃ token more, form = token :: more ∧ token.BeginsItem := by
  cases hf with
  | date => exact ⟨_, _, rfl, trivial⟩
  | month hw | dayOfMonth hw =>
    obtain ⟨-, -, -, hbegins, -⟩ := month_word hi.1 hw
    exact ⟨_, _, rfl, hbegins⟩
  | offset => exact ⟨_, _, rfl, rfl⟩
  | ago => exact ⟨_, _, rfl, by decide⟩
  | weekday hw =>
    obtain ⟨-, -, -, hbegins, -⟩ := weekday_word hw
    exact ⟨_, _, rfl, hbegins⟩
  | moved hd =>
    obtain ⟨-, -, hbegins, -⟩ := direction_word hd
    exact ⟨_, _, rfl, hbegins⟩
  | edge edge => exact ⟨_, _, rfl, by cases edge <;> decide⟩
  | nth ho =>
    obtain ⟨-, -, hbegins, -⟩ := ordinal_word ho
    exact ⟨_, _, rfl, hbegins⟩

theorem exists_isForm {item : Item} (hi : item.IsWritable) : ∃ form, item.IsForm form := by
  cases item with
  | date year month day =>
    obtain ⟨year, rfl⟩ := Int.eq_ofNat_of_zero_le hi.1.1
    exact ⟨_, .date year month day⟩
  | month m day =>
    cases day with
    | none => exact ⟨_, .month List.mem_cons_self⟩
    | some day => exact ⟨_, .dayOfMonth List.mem_cons_self day⟩
  | offset amount unit => exact ⟨_, .offset amount List.mem_cons_self⟩
  | ago => exact ⟨_, .ago⟩
  | weekday day movement =>
    cases movement <;> exact ⟨_, .moved List.mem_cons_self List.mem_cons_self⟩
  | edge edge => exact ⟨_, .edge edge⟩
  | nth n day =>
    have hordinal : ∃ ordinal, ordinal ∈ ordinalWords n := by
      rcases hi with hn | rfl
      · have hall : ∀ k ∈ List.range' 1 12, ordinalWords k ≠ [] := by decide
        obtain ⟨k, rfl⟩ := Int.eq_ofNat_of_zero_le (show 0 ≤ n by omega)
        exact List.exists_mem_of_ne_nil _ (hall k (List.mem_range'_1.2 (by omega)))
      · exact ⟨_, List.mem_cons_self⟩
    obtain ⟨ordinal, ho⟩ := hordinal
    exact ⟨_, .nth ho List.mem_cons_self⟩

variable {phrase : Phrase} {tokens : List Token}

theorem inRange_of_hasTokens (hw : ∀ item ∈ phrase, item.IsWritable)
    (h : HasTokens phrase tokens) : ∀ token ∈ tokens, token.InRange := by
  induction h with
  | nil => simp
  | cons hitem h ih =>
    obtain ⟨hi, hrest⟩ := List.forall_mem_cons.1 hw
    exact List.forall_mem_append.2 ⟨inRange_of_isForm hi hitem, ih hrest⟩

theorem exists_hasTokens (hw : ∀ item ∈ phrase, item.IsWritable) :
    ∃ tokens, HasTokens phrase tokens := by
  induction phrase with
  | nil => exact ⟨[], .nil⟩
  | cons item phrase ih =>
    obtain ⟨hi, hrest⟩ := List.forall_mem_cons.1 hw
    obtain ⟨form, hform⟩ := exists_isForm hi
    obtain ⟨tokens, htokens⟩ := ih hrest
    exact ⟨_, .cons hform htokens⟩

theorem startsItem_of_hasTokens (hw : ∀ item ∈ phrase, item.IsWritable)
    (h : HasTokens phrase tokens) {lexemes : List Lexeme}
    (hl : lexemes.map Lexeme.token = tokens ++ [.stop]) : StartsItem lexemes := by
  cases h with
  | nil =>
    obtain ⟨start, stop, more, rfl, -⟩ := exists_of_map_token hl
    intro lexeme hlexeme
    cases hlexeme
    trivial
  | cons hitem h =>
    obtain ⟨token, more, rfl, hbegins⟩ := exists_begin_of_isForm (hw _ List.mem_cons_self) hitem
    obtain ⟨start, stop, more, rfl, -⟩ := exists_of_map_token hl
    intro lexeme hlexeme
    cases hlexeme
    exact hbegins

theorem readItems_of_hasTokens (hw : ∀ item ∈ phrase, item.IsWritable)
    (h : HasTokens phrase tokens) {lexemes : List Lexeme}
    (hl : lexemes.map Lexeme.token = tokens ++ [.stop]) : readItems lexemes = .ok phrase := by
  induction h generalizing lexemes with
  | nil =>
    obtain ⟨start, stop, more, rfl, -⟩ := exists_of_map_token hl
    rw [readItems]
  | cons hitem h ih =>
    obtain ⟨hi, hrest⟩ := List.forall_mem_cons.1 hw
    rw [List.append_assoc] at hl
    obtain ⟨first, rest, rfl, hfirst, htail⟩ := List.map_eq_append_iff.1 hl
    rw [readItems_of_isForm hi hitem hfirst (startsItem_of_hasTokens hrest h htail),
      ih hrest htail]
    rfl

theorem ne_nil_of_hasTokens (hne : phrase ≠ []) (hw : ∀ item ∈ phrase, item.IsWritable)
    (h : HasTokens phrase tokens) : tokens ≠ [] := by
  cases h with
  | nil => exact absurd rfl hne
  | cons hitem h =>
    obtain ⟨token, more, rfl, -⟩ := exists_begin_of_isForm (hw _ List.mem_cons_self) hitem
    simp

/-- Every phrase can be written, and reads as itself in whatever way it is written. -/
theorem parse_of_isWritten (phrase : Phrase) (hne : phrase ≠ [])
    (hw : ∀ item ∈ phrase, item.IsWritable) :
    (∃ t, phrase.IsWritten t) ∧ ∀ t, phrase.IsWritten t → Phrase.parse t = .ok phrase := by
  constructor
  · obtain ⟨tokens, htokens⟩ := exists_hasTokens hw
    obtain ⟨body, hbody⟩ := exists_isSpaced (inRange_of_hasTokens hw htokens)
    exact ⟨body, tokens, [], body, htokens, by simp [IsGap], hbody, rfl⟩
  · rintro _ ⟨tokens, gap, body, htokens, hgap, hbody, rfl⟩
    obtain ⟨next, hnext⟩ := scanFrom_gap hgap 0 body
    obtain ⟨lexemes, hscan, hl⟩ :=
      scanFrom_of_isSpaced (inRange_of_hasTokens hw htokens) hbody next
    have hread := readItems_of_hasTokens hw htokens hl
    have hlength : 2 ≤ lexemes.length := by
      have htokensLength := List.length_pos_iff.2 (ne_nil_of_hasTokens hne hw htokens)
      have hmap := congrArg List.length hl
      rw [List.length_map, List.length_append, List.length_singleton] at hmap
      omega
    rw [Phrase.parse, scan, hnext, hscan]
    match lexemes, hlength with
    | first :: second :: lexemes, _ => exact hread

/-- Neither the offset is taken for the day of May nor the second dash for one of the date, and the
offset behind it keeps its sign. -/
theorem parse_neighbours :
    let phrase : Phrase :=
      [.month 5 none, .offset (-3) .day, .nth (-1) .monday, .date 2018 4 none, .offset (-5) .week]
    let t := "MAY,-03 Days last mon of 2018-04,-5 weeks".toList
    phrase ≠ [] ∧ (∀ item ∈ phrase, item.IsWritable) ∧ phrase.IsWritten t ∧
      Phrase.parse t = .ok phrase := by
  intro phrase t
  have hne : phrase ≠ [] := by simp [phrase]
  have hw : ∀ item ∈ phrase, item.IsWritable := by simp [phrase, Item.IsWritable]
  have hmay : Item.IsForm (.month 5 none) [.word (Text.lower "MAY".toList)] := .month (by decide)
  have hdays : Item.IsForm (.offset (-3) .day) [.number (-3) true, .word (Text.lower "Days".toList)] :=
    .offset (-3) (by decide)
  have hlast : Item.IsForm (.nth (-1) .monday) [.word (Text.lower "last".toList),
      .word (Text.lower "mon".toList), .word "of".toList] := .nth (by decide) (by decide)
  have hweeks : Item.IsForm (.offset (-5) .week)
      [.number (-5) true, .word (Text.lower "weeks".toList)] := .offset (-5) (by decide)
  have htokens := HasTokens.cons hmay (.cons hdays (.cons hlast (.cons (.date 2018 4 none)
    (.cons hweeks .nil))))
  have hthree : Decimal.IsNumeral 3 "03".toList :=
    ⟨by decide, List.all_eq_true.1 (by decide), by decide⟩
  have hfive : Decimal.IsNumeral 5 "5".toList :=
    ⟨by decide, List.all_eq_true.1 (by decide), by decide⟩
  have hyear : Decimal.IsNumeral 2018 "2018".toList :=
    ⟨by decide, List.all_eq_true.1 (by decide), by decide⟩
  have hmonth : Decimal.IsNumeral 4 "04".toList :=
    ⟨by decide, List.all_eq_true.1 (by decide), by decide⟩
  have hblank : IsGap [' '] := isGap_singleton (.inl (by decide))
  have hcomma : IsGap [','] := isGap_singleton (.inr rfl)
  have hnone : IsGap [] := by simp [IsGap]
  have hspaced :=
    IsSpaced.cons (.word "MAY".toList) hcomma (by decide) <|
    IsSpaced.cons (.back hthree) hblank (by decide) <|
    IsSpaced.cons (.word "Days".toList) hblank (by decide) <|
    IsSpaced.cons (.word "last".toList) hblank (by decide) <|
    IsSpaced.cons (.word "mon".toList) hblank (by decide) <|
    IsSpaced.cons (.word "of".toList) hblank (by decide) <|
    IsSpaced.cons (.yearMonth hyear rfl hmonth rfl) hcomma (by decide) <|
    IsSpaced.cons (.back hfive) hblank (by decide) <|
    IsSpaced.cons (.word "weeks".toList) hnone (absurd rfl) .nil
  have hwritten : phrase.IsWritten t := ⟨_, [], _, htokens, hnone, hspaced, by decide⟩
  exact ⟨hne, hw, hwritten, (parse_of_isWritten phrase hne hw).2 t hwritten⟩

end Phrase
end HolidayRules

import HolidayRules.Proofs.Template.Canonical
import HolidayRules.Proofs.Text.Marks

set_option autoImplicit false

/-!
# Flat templates

A flat template has no braces but those of its groups, and no year lists. It is read piece by piece:
what stands behind it does not change what it reads as, apart from texts that are joined.
-/
namespace HolidayRules.Template

def BraceFree (t : Text) : Prop := ∀ c ∈ t, c ≠ '{' ∧ c ≠ '}'

instance (t : Text) : Decidable (BraceFree t) := List.decidableBAll _ t

theorem braceFree_cons {c : Char} {t : Text} :
    BraceFree (c :: t) ↔ (c ≠ '{' ∧ c ≠ '}') ∧ BraceFree t :=
  List.forall_mem_cons

theorem braceFree_append {s t : Text} : BraceFree (s ++ t) ↔ BraceFree s ∧ BraceFree t :=
  List.forall_mem_append

/-- Text of allowed characters without braces, and groups without braces in them that are no year
lists. -/
inductive IsFlat (allowed : Char → Prop) : Text → Prop where
  | nil : IsFlat allowed []
  | char {c : Char} {t : Text} (hc : c ≠ '{' ∧ c ≠ '}') (ha : allowed c)
      (h : IsFlat allowed t) : IsFlat allowed (c :: t)
  | group {content t : Text} (hc : BraceFree content) (hy : readYears? content = none)
      (h : IsFlat allowed t) : IsFlat allowed (inBraces content ++ t)

theorem IsFlat.mono {allowed more : Char → Prop} (hmore : ∀ c, allowed c → more c) {t : Text}
    (h : IsFlat allowed t) : IsFlat more t := by
  induction h with
  | nil => exact .nil
  | char hc ha _ ih => exact .char hc (hmore _ ha) ih
  | group hc hy _ ih => exact .group hc hy ih

theorem IsFlat.append {allowed : Char → Prop} {s t : Text} (hs : IsFlat allowed s)
    (ht : IsFlat allowed t) : IsFlat allowed (s ++ t) := by
  induction hs with
  | nil => exact ht
  | char hc ha _ ih => exact .char hc ha ih
  | group hc hy _ ih =>
    rw [List.append_assoc]
    exact .group hc hy ih

theorem IsFlat.of_braceFree {allowed : Char → Prop} {t : Text} (h : BraceFree t)
    (ha : ∀ c ∈ t, allowed c) : IsFlat allowed t := by
  induction t with
  | nil => exact .nil
  | cons c t ih =>
    obtain ⟨hc, ht⟩ := braceFree_cons.1 h
    obtain ⟨hac, hat⟩ := List.forall_mem_cons.1 ha
    exact .char hc hac (ih ht hat)

theorem BraceFree.isFlat {t : Text} (h : BraceFree t) : IsFlat (fun _ => True) t :=
  .of_braceFree h fun _ _ => trivial

/-! ## Closing braces and commas -/

theorem inBraces_append (content t : Text) :
    inBraces content ++ t = '{' :: '{' :: (content ++ '}' :: '}' :: t) := by
  simp [inBraces, openBraces, closeBraces]

theorem closeGroup?_char {c : Char} (hc : c ≠ '{' ∧ c ≠ '}') (depth : Nat) (t : Text) :
    closeGroup? depth (c :: t) = (closeGroup? depth t).map fun parts => (c :: parts.1, parts.2) := by
  rw [closeGroup?]
  · rintro rest rfl -
    exact hc.1 rfl
  · rintro rest - rfl -
    exact hc.2 rfl
  · rintro n rest - rfl -
    exact hc.2 rfl

theorem closeGroup?_braceFree {s : Text} (hs : BraceFree s) (depth : Nat) (t : Text) :
    closeGroup? depth (s ++ t) =
      (closeGroup? depth t).map fun parts => (s ++ parts.1, parts.2) := by
  induction s with
  | nil => simp
  | cons c s ih =>
    obtain ⟨hc, hrest⟩ := braceFree_cons.1 hs
    rw [List.cons_append, closeGroup?_char hc, ih hrest, Option.map_map]
    rfl

/-- Each group closes itself, so that a flat template does not end the group it stands in. -/
theorem closeGroup?_flat {allowed : Char → Prop} {s : Text} (hs : IsFlat allowed s) (depth : Nat)
    (t : Text) :
    closeGroup? depth (s ++ t) =
      (closeGroup? depth t).map fun parts => (s ++ parts.1, parts.2) := by
  induction hs with
  | nil => simp
  | char hc _ _ ih =>
    rw [List.cons_append, closeGroup?_char hc, ih, Option.map_map]
    rfl
  | @group content s hc _ _ ih =>
    rw [List.append_assoc, inBraces_append, closeGroup?, closeGroup?_braceFree hc, closeGroup?, ih]
    simp only [Option.map_map]
    congr 1
    funext parts
    simp [inBraces_append]

theorem nextToken?_flat_group {allowed : Char → Prop} {content : Text} (h : IsFlat allowed content)
    (t : Text) : nextToken? (inBraces content ++ t) = some (.group content, t) := by
  have hclose : closeGroup? 0 (content ++ '}' :: '}' :: t) = some (content, t) := by
    rw [closeGroup?_flat h, closeGroup?]
    simp
  rw [inBraces_append, nextToken?, group?, hclose]

theorem splitEntries_char {c : Char} (hc : c ≠ '{' ∧ c ≠ '}') {depth : Nat}
    (hcomma : ¬ (c = ',' ∧ depth = 0)) (t : Text) :
    splitEntries depth (c :: t) = (splitEntries depth t).modifyHead (c :: ·) := by
  rw [splitEntries, if_neg hcomma]
  · rintro rest rfl -
    exact hc.1 rfl
  · rintro rest rfl -
    exact hc.2 rfl

theorem splitEntries_braceFree {s : Text} (hs : BraceFree s) (depth : Nat) (t : Text) :
    splitEntries (depth + 1) (s ++ t) = (splitEntries (depth + 1) t).modifyHead (s ++ ·) := by
  induction s with
  | nil => exact (congrFun List.modifyHead_id _).symm
  | cons c s ih =>
    obtain ⟨hc, hrest⟩ := braceFree_cons.1 hs
    rw [List.cons_append, splitEntries_char hc (by simp), ih hrest, List.modifyHead_modifyHead]
    rfl

theorem splitEntries_flat {s : Text} (hs : IsFlat (· ≠ ',') s) (t : Text) :
    splitEntries 0 (s ++ t) = (splitEntries 0 t).modifyHead (s ++ ·) := by
  induction hs with
  | nil => exact (congrFun List.modifyHead_id _).symm
  | char hc ha _ ih =>
    rw [List.cons_append, splitEntries_char hc (by simp [ha]), ih, List.modifyHead_modifyHead]
    rfl
  | @group content s hc _ _ ih =>
    rw [List.append_assoc, inBraces_append, splitEntries, splitEntries_braceFree hc, splitEntries,
      Nat.add_sub_cancel, ih]
    simp only [List.modifyHead_modifyHead]
    congr 1
    funext entry
    simp [inBraces_append]

theorem splitEntries_comma (t : Text) : splitEntries 0 (',' :: t) = [] :: splitEntries 0 t := by
  simp [splitEntries]

theorem splitEntries_intercalate {entries : List Text} (hne : entries ≠ [])
    (he : ∀ entry ∈ entries, IsFlat (· ≠ ',') entry) :
    splitEntries 0 ([','].intercalate entries) = entries := by
  induction entries with
  | nil => exact absurd rfl hne
  | cons entry entries ih =>
    obtain ⟨hentry, hentries⟩ := List.forall_mem_cons.1 he
    cases entries with
    | nil =>
      have h := splitEntries_flat hentry []
      rw [List.append_nil] at h
      simpa [splitEntries] using h
    | cons next entries =>
      have hrest := ih (List.cons_ne_nil _ _) hentries
      rw [List.intercalate_cons_cons, List.append_assoc, splitEntries_flat hentry,
        List.singleton_append, splitEntries_comma, hrest]
      simp

theorem readYears?_eq {digits : Text} (hl : digits.length = 4)
    (hd : ∀ c ∈ digits, c.isDigit = true) {entries : List Text} (hne : entries ≠ [])
    (he : ∀ entry ∈ entries, IsFlat (· ≠ ',') entry) :
    readYears? (digits ++ ':' :: [','].intercalate entries) =
      some (Decimal.value digits, entries) := by
  have hcolon : ':' ∉ digits := fun hm => absurd (hd _ hm) (by decide)
  have hdigits : Decimal.fourDigits? digits = some (Decimal.value digits) :=
    Decimal.fourDigits?_eq_some_iff.2 ⟨hl, hd, rfl⟩
  unfold readYears?
  rw [Text.cut?_of_not_mem hcolon]
  simp [hdigits, splitEntries_intercalate hne he]

/-! ## Reading what is joined -/

theorem cons_cons_text (s t : Text) (x : Template) :
    cons (.text s) (cons (.text t) x) = cons (.text (s ++ t)) x := by
  cases x with
  | nil => rfl
  | cons piece x => cases piece <;> simp [cons]

theorem join_cons (piece : Piece) (a b : Template) :
    join (cons piece a) b = cons piece (join a b) := by
  unfold cons
  split
  next s t rest => exact (cons_cons_text s t (join rest b)).symm
  next => rfl

theorem join_assoc (a b c : Template) : join (join a b) c = join a (join b c) := by
  induction a with
  | nil => rfl
  | cons piece a ih =>
    change join (cons piece (join a b)) c = cons piece (join a (join b c))
    rw [join_cons, ih]

theorem join_cons_of_ne {piece : Piece} (hp : ∀ s, piece ≠ .text s) (a b : Template) :
    join a (piece :: b) = join a [] ++ piece :: b := by
  have hcons (q : Piece) (x : Template) : cons q (x ++ piece :: b) = cons q x ++ piece :: b := by
    cases x with
    | nil => cases piece <;> cases q <;> simp_all [cons]
    | cons y x => cases q <;> cases y <;> simp [cons]
  induction a with
  | nil => rfl
  | cons q a ih =>
    change cons q (join a (piece :: b)) = cons q (join a []) ++ piece :: b
    rw [ih, hcons]

theorem parse_nil : parse [] = [] := by
  rw [parse]
  rfl

theorem parse_of_text {t s rest : Text} (h : nextToken? t = some (.text s, rest)) :
    parse t = cons (.text s) (parse rest) := by
  rw [parse]
  split <;> simp_all

def ofGroup (content : Text) : Template :=
  match Slot.ofName? content with
  | some slot => [.slot slot]
  | none => match readYears? content with
    | some (first, entries) => [.years first (entries.map parse)]
    | none =>
      if isCallName content then [.call content]
      else cons (.text openBraces) (join (parse content) [.text closeBraces])

theorem parse_of_group {t content rest : Text} (h : nextToken? t = some (.group content, rest)) :
    parse t = join (ofGroup content) (parse rest) := by
  rw [parse]
  split
  next hn => simp [hn] at h
  next s r hn => simp [hn] at h
  next c r hn =>
    obtain ⟨rfl, rfl⟩ : c = content ∧ r = rest := by simpa [hn] using h
    -- The matches of `parse` are taken apart first, since one of them has its equation in the term.
    split
    next slot hs =>
      have hgroup : ofGroup c = [.slot slot] := by simp only [ofGroup, hs]
      rw [hgroup]
      rfl
    next hs =>
      split
      next first entries hy =>
        have hgroup : ofGroup c = [.years first (entries.map parse)] := by
          simp only [ofGroup, hs, hy]
        rw [hgroup, List.attach_map_val]
        rfl
      next hy =>
        split
        next hcall =>
          have hgroup : ofGroup c = [.call c] := by simp only [ofGroup, hs, hy, hcall, if_true]
          rw [hgroup]
          rfl
        next hcall =>
          have hgroup : ofGroup c =
              cons (.text openBraces) (join (parse c) [.text closeBraces]) := by
            simp only [ofGroup, hs, hy, hcall, Bool.false_eq_true, if_false]
          rw [hgroup, join_cons, join_assoc]
          rfl

theorem parse_of_group?_eq_none {c : Char} {t : Text} (h : group? (c :: t) = none) :
    parse (c :: t) = cons (.text (c :: (untilOpen t).1)) (parse (untilOpen t).2) := by
  apply parse_of_text
  rw [nextToken?, h]

theorem group?_eq_none {c : Char} {t : Text} (h : ∀ rest, c = '{' → t = '{' :: rest → False) :
    group? (c :: t) = none := by
  unfold group?
  split
  next rest heq =>
    cases heq
    exact absurd rfl (h rest rfl)
  next => rfl

theorem parse_cons_of_ne {c : Char} (hc : c ≠ '{') (t : Text) :
    parse (c :: t) = cons (.text [c]) (parse t) := by
  rw [parse_of_group?_eq_none (group?_eq_none fun _ h _ => hc h)]
  fun_cases untilOpen t with
  | case1 => rfl
  | case2 rest => rfl
  | case3 d rest hopen =>
    rw [parse_of_group?_eq_none (group?_eq_none hopen), cons_cons_text]
    rfl

theorem parse_append {allowed : Char → Prop} {s : Text} (hs : IsFlat allowed s) (t : Text) :
    parse (s ++ t) = join (parse s) (parse t) := by
  induction hs with
  | nil =>
    rw [parse_nil]
    rfl
  | char hc _ _ ih =>
    rw [List.cons_append, parse_cons_of_ne hc.1, parse_cons_of_ne hc.1, ih, join_cons]
  | @group content s hc _ _ ih =>
    have hflat := hc.isFlat
    rw [List.append_assoc, parse_of_group (nextToken?_flat_group hflat (s ++ t)),
      parse_of_group (nextToken?_flat_group hflat s), ih, join_assoc]

def HasNoYears (t : Template) : Prop := ∀ first entries, Piece.years first entries ∉ t

theorem hasNoYears_cons {piece : Piece} {t : Template}
    (hp : ∀ first entries, piece ≠ .years first entries) (h : t.HasNoYears) :
    (cons piece t).HasNoYears := by
  intro first entries hmem
  rcases mem_of_mem_cons (by simp) hmem with hmem | hmem
  · exact hp first entries hmem.symm
  · exact h first entries hmem

theorem hasNoYears_join {a b : Template} (ha : a.HasNoYears) (hb : b.HasNoYears) :
    (join a b).HasNoYears := by
  intro first entries hmem
  rcases mem_of_mem_join (by simp) hmem with hmem | hmem
  · exact ha first entries hmem
  · exact hb first entries hmem

theorem hasNoYears_parse_braceFree {t : Text} (h : BraceFree t) : (parse t).HasNoYears := by
  induction t with
  | nil => simp [parse_nil, HasNoYears]
  | cons c t ih =>
    obtain ⟨hc, ht⟩ := braceFree_cons.1 h
    rw [parse_cons_of_ne hc.1]
    exact hasNoYears_cons (by simp) (ih ht)

theorem hasNoYears_ofGroup {content : Text} (hc : BraceFree content)
    (hy : readYears? content = none) : (ofGroup content).HasNoYears := by
  unfold ofGroup
  rw [hy]
  split
  · simp [HasNoYears]
  · dsimp only
    split
    · simp [HasNoYears]
    · exact hasNoYears_cons (by simp)
        (hasNoYears_join (hasNoYears_parse_braceFree hc) (by simp [HasNoYears]))

theorem hasNoYears_parse {allowed : Char → Prop} {t : Text} (h : IsFlat allowed t) :
    (parse t).HasNoYears := by
  induction h with
  | nil => simp [parse_nil, HasNoYears]
  | char hc _ _ ih =>
    rw [parse_cons_of_ne hc.1]
    exact hasNoYears_cons (by simp) ih
  | group hc hy _ ih =>
    rw [parse_of_group (nextToken?_flat_group hc.isFlat _)]
    exact hasNoYears_join (hasNoYears_ofGroup hc hy) ih

end HolidayRules.Template

import HolidayRules.Proofs.Text.Numerals
import HolidayRules.Template.Parser

set_option autoImplicit false

/-!
# Templates and their source texts

Reading a template loses nothing: the source of what is read is the text again. What is read has one
form only, in which neighbouring texts are one piece, and so have the entries of its year lists, the
entries of theirs, and so on.
-/
namespace HolidayRules.Template

/-- A property of what is read from a text holds if each of the ways to read keeps it. -/
theorem parse_induction {P : Text → Template → Prop} (nil : P [] [])
    (text : ∀ t s rest, nextToken? t = some (.text s, rest) → P rest (parse rest) →
      P t (cons (.text s) (parse rest)))
    (slot : ∀ t content rest s, nextToken? t = some (.group content, rest) →
      Slot.ofName? content = some s → P rest (parse rest) → P t (.slot s :: parse rest))
    (years : ∀ t content rest first entries, nextToken? t = some (.group content, rest) →
      readYears? content = some (first, entries) → (∀ entry ∈ entries, P entry (parse entry)) →
      P rest (parse rest) → P t (.years first (entries.map parse) :: parse rest))
    (call : ∀ t name rest, nextToken? t = some (.group name, rest) → Slot.ofName? name = none →
      isCallName name = true → P rest (parse rest) → P t (.call name :: parse rest))
    (other : ∀ t content rest, nextToken? t = some (.group content, rest) →
      P content (parse content) → P rest (parse rest) →
      P t (cons (.text openBraces) (join (parse content) (cons (.text closeBraces) (parse rest)))))
    (t : Text) : P t (parse t) := by
  fun_induction parse t with
  | case1 t h =>
    cases t with
    | nil => exact nil
    | cons c t =>
      simp only [nextToken?] at h
      split at h <;> cases h
  | case2 t s rest h _ ih => exact text t s rest h ih
  | case3 t content rest h _ _ s hs ih => exact slot t content rest s h hs ih
  | case4 t content rest h _ _ _ first entries hy ihe ih =>
    rw [List.attach_map_val]
    exact years t content rest first entries h hy (fun entry he => ihe ⟨entry, he⟩) ih
  | case5 t content rest h _ _ hs _ hc ih => exact call t content rest h hs hc ih
  | case6 t content rest h _ _ _ _ _ ihc ih => exact other t content rest h ihc ih

theorem source_cons (piece : Piece) (t : Template) :
    (cons piece t).source = piece.source ++ t.source := by
  unfold cons
  split
  · simp [source, piecesSource, Piece.source]
  · rfl

theorem source_join (a b : Template) : (join a b).source = a.source ++ b.source := by
  induction a with
  | nil => rfl
  | cons piece a ih =>
    change (cons piece (join a b)).source = _
    rw [source_cons, ih, ← List.append_assoc]
    rfl

theorem entriesSource_eq (entries : List Template) :
    entriesSource entries = [','].intercalate (entries.map source) := by
  induction entries with
  | nil => rfl
  | cons entry entries ih =>
    cases entries with
    | nil => simp [entriesSource, source]
    | cons next entries =>
      rw [entriesSource, ih]
      simp [source]

theorem intercalate_modifyHead (mark s : Text) {ts : List Text} (h : ts ≠ []) :
    mark.intercalate (ts.modifyHead (s ++ ·)) = s ++ mark.intercalate ts := by
  cases ts with
  | nil => exact absurd rfl h
  | cons t ts =>
    cases ts with
    | nil => simp
    | cons next ts => simp

theorem splitEntries_ne_nil (depth : Nat) (t : Text) : splitEntries depth t ≠ [] := by
  fun_induction splitEntries depth t with
  | case1 => simp
  | case2 _ _ ih => simpa using ih
  | case3 _ _ ih => simpa using ih
  | case4 => simp
  | case5 _ _ _ _ _ _ ih => simpa using ih

theorem intercalate_splitEntries (depth : Nat) (t : Text) :
    [','].intercalate (splitEntries depth t) = t := by
  fun_induction splitEntries depth t with
  | case1 => rfl
  | case2 depth rest ih =>
    have h := intercalate_modifyHead [','] ['{', '{'] (splitEntries_ne_nil (depth + 1) rest)
    rw [ih] at h
    exact h
  | case3 depth rest ih =>
    have h := intercalate_modifyHead [','] ['}', '}'] (splitEntries_ne_nil (depth - 1) rest)
    rw [ih] at h
    exact h
  | case4 depth c rest _ _ h ih =>
    obtain ⟨entry, entries, he⟩ := List.exists_cons_of_ne_nil (splitEntries_ne_nil 0 rest)
    rw [he] at ih ⊢
    rw [List.intercalate_cons_cons, ih, h.1]
    rfl
  | case5 depth c rest _ _ _ ih =>
    have h := intercalate_modifyHead [','] [c] (splitEntries_ne_nil depth rest)
    rw [ih] at h
    exact h

theorem content_of_readYears? {content : Text} {first : Nat} {entries : List Text}
    (h : readYears? content = some (first, entries)) :
    content = Decimal.paddedNatural 4 first ++ ':' :: [','].intercalate entries := by
  unfold readYears? at h
  obtain ⟨⟨start, rest⟩, hcut, h⟩ := Option.bind_eq_some_iff.1 h
  obtain ⟨n, hn, h⟩ := Option.bind_eq_some_iff.1 h
  cases h
  rw [Decimal.paddedNatural_of_fourDigits? hn, intercalate_splitEntries]
  simpa using Text.eq_of_cut? hcut

theorem name_of_ofName? {t : Text} {s : Slot} (h : Slot.ofName? t = some s) : t = s.name := by
  simpa using List.find?_some h

theorem source_years {content : Text} {first : Nat} {entries : List Text}
    (h : readYears? content = some (first, entries))
    (he : ∀ entry ∈ entries, (parse entry).source = entry) :
    (Piece.years first (entries.map parse)).source = inBraces content := by
  have hmap : (entries.map parse).map source = entries := by
    rw [List.map_map]
    exact (List.map_congr_left he).trans (List.map_id entries)
  change inBraces (Decimal.paddedNatural 4 first ++ ':' :: entriesSource (entries.map parse)) = _
  rw [entriesSource_eq, hmap, ← content_of_readYears? h]

theorem source_parse (t : Text) : (parse t).source = t := by
  refine parse_induction (P := fun t template => template.source = t) rfl ?_ ?_ ?_ ?_ ?_ t
  · intro t s rest h ih
    rw [source_cons, ih]
    exact (eq_of_nextToken? h).symm
  · intro t content rest s h hs ih
    change inBraces s.name ++ source (parse rest) = t
    rw [ih, ← name_of_ofName? hs]
    exact (eq_of_nextToken? h).symm
  · intro t content rest first entries h hy ihe ih
    change (Piece.years first (entries.map parse)).source ++ source (parse rest) = t
    rw [ih, source_years hy ihe]
    exact (eq_of_nextToken? h).symm
  · intro t name rest h _ _ ih
    change inBraces name ++ source (parse rest) = t
    rw [ih]
    exact (eq_of_nextToken? h).symm
  · intro t content rest h ihc ih
    rw [source_cons, source_join, source_cons, ihc, ih, eq_of_nextToken? h]
    simp [Piece.source, Token.source, inBraces]

end HolidayRules.Template

import HolidayRules.Evaluation
import HolidayRules.Proofs.Template.Flat

set_option autoImplicit false

/-!
# Year lists and their entries

A code with a year list comes to the same as the code with the entry of the year in the place of the
list; in a year without an entry it comes to nothing, whatever else stands in it.
-/
namespace HolidayRules.Template

theorem fill?_cons_eq (d : Ymd) (called : Option (Text × Text)) (piece : Piece) (t : Template) :
    fill? d called (piece :: t) =
      (piece.fill? d called).bind fun head => (fill? d called t).map (head ++ ·) := by
  unfold fill?
  rw [List.mapM_cons]
  cases piece.fill? d called with
  | none => rfl
  | some head =>
    cases List.mapM (Piece.fill? d called) t <;> rfl

theorem fill?_cons (d : Ymd) (called : Option (Text × Text)) (piece : Piece) (t : Template) :
    fill? d called (cons piece t) = fill? d called (piece :: t) := by
  unfold cons
  split
  next s t rest =>
    simp only [fill?_cons_eq, Piece.fill?, Option.bind_some, Option.map_map]
    congr 1
    funext tail
    simp
  next => rfl

theorem fill?_append (d : Ymd) (called : Option (Text × Text)) (a b : Template) :
    fill? d called (a ++ b) =
      (fill? d called a).bind fun head => (fill? d called b).map (head ++ ·) := by
  induction a with
  | nil =>
    change fill? d called b = (fill? d called b).map ([] ++ ·)
    simp
  | cons piece a ih =>
    rw [List.cons_append, fill?_cons_eq, fill?_cons_eq, ih]
    cases piece.fill? d called with
    | none => rfl
    | some head =>
      cases fill? d called a with
      | none => rfl
      | some middle => cases fill? d called b <;> simp

theorem fill?_join (d : Ymd) (called : Option (Text × Text)) (a b : Template) :
    fill? d called (join a b) = fill? d called (a ++ b) := by
  induction a with
  | nil => rfl
  | cons piece a ih =>
    change fill? d called (cons piece (join a b)) = fill? d called (piece :: (a ++ b))
    rw [fill?_cons, fill?_cons_eq, fill?_cons_eq, ih]

theorem firstCall?_cons (piece : Piece) (t : Template) :
    firstCall? (cons piece t) = firstCall? (piece :: t) := by
  unfold cons
  split <;> rfl

theorem firstCall?_append (a b : Template) :
    firstCall? (a ++ b) = (firstCall? a).or (firstCall? b) := by
  induction a with
  | nil => rfl
  | cons piece a ih =>
    cases piece with
    | call name => rfl
    | _ => exact ih

theorem firstCall?_join (a b : Template) : firstCall? (join a b) = firstCall? (a ++ b) := by
  induction a with
  | nil => rfl
  | cons piece a ih =>
    change firstCall? (cons piece (join a b)) = firstCall? (piece :: (a ++ b))
    rw [firstCall?_cons]
    cases piece with
    | call name => rfl
    | _ => exact ih

theorem expand_congr (registry : Registry) (d : Ymd) {a b : Template}
    (hcall : firstCall? a = firstCall? b) (hfill : ∀ called, fill? d called a = fill? d called b) :
    expand registry d a = expand registry d b := by
  unfold expand
  rw [hcall]
  simp only [hfill]

theorem expand_join (registry : Registry) (d : Ymd) (a b c : Template) :
    expand registry d (join a (join b c)) = expand registry d (a ++ (b ++ c)) := by
  apply expand_congr
  · rw [firstCall?_join, firstCall?_append, firstCall?_join, firstCall?_append a]
  · intro called
    rw [fill?_join, fill?_append, fill?_join, fill?_append d called a]

theorem choose?_of_hasNoYears {a : Template} (h : a.HasNoYears) (year : Int) :
    choose? year a = some a := by
  induction a with
  | nil => rfl
  | cons piece a ih =>
    have hrest := ih fun first entries hmem => h first entries (List.mem_cons_of_mem piece hmem)
    cases piece with
    | years first entries => exact absurd List.mem_cons_self (h first entries)
    | _ => simp [choose?, hrest]

theorem choose?_append_years {a : Template} (h : a.HasNoYears) (year : Int) (first : Nat)
    (entries : List Template) (b : Template) :
    choose? year (a ++ .years first entries :: b) =
      (entryFor? first entries year).map fun entry => a ++ (entry ++ b) := by
  induction a with
  | nil => rfl
  | cons piece a ih =>
    have hrest := ih fun first entries hmem => h first entries (List.mem_cons_of_mem piece hmem)
    cases piece with
    | years first entries => exact absurd List.mem_cons_self (h first entries)
    | _ => simp [choose?, hrest, Function.comp_def]

theorem entryFor?_of_eq {first k : Nat} {entries : List Template} {year : Int}
    (h : year = first + k) : entryFor? first entries year = entries[k]? := by
  unfold entryFor?
  rw [if_neg (by omega), show (year - first).toNat = k by omega]

theorem entryFor?_of_ne {first : Nat} {entries : List Template} {year : Int}
    (h : ∀ k, k < entries.length → year ≠ first + k) : entryFor? first entries year = none := by
  unfold entryFor?
  split
  next => rfl
  next hle =>
    apply List.getElem?_eq_none
    apply Nat.le_of_not_lt
    intro hlt
    exact h _ hlt (by omega)

def yearList (digits : Text) (entries : List Text) : Text :=
  inBraces (digits ++ ':' :: [','].intercalate entries)

theorem isFlat_intercalate {entries : List Text} (he : ∀ v ∈ entries, IsFlat (· ≠ ',') v) :
    IsFlat (fun _ => True) ([','].intercalate entries) := by
  induction entries with
  | nil => exact .nil
  | cons entry entries ih =>
    have hentry := (he entry List.mem_cons_self).mono fun _ _ => trivial
    have hrest := ih fun v hv => he v (List.mem_cons_of_mem entry hv)
    cases entries with
    | nil => simpa using hentry
    | cons next entries =>
      rw [List.intercalate_cons_cons, List.append_assoc]
      exact hentry.append (.char (by decide) trivial hrest)

theorem isFlat_of_isDigit {digits : Text} (h : ∀ c ∈ digits, c.isDigit = true) :
    IsFlat (fun _ => True) digits := by
  apply BraceFree.isFlat
  intro c hc
  constructor <;> rintro rfl <;> exact absurd (h _ hc) (by decide)

theorem ofName?_of_isDigit {c : Char} (h : c.isDigit = true) (t : Text) :
    Slot.ofName? (c :: t) = none := by
  rw [Slot.ofName?_eq_none_iff]
  rintro s heq
  cases s <;> cases heq <;> cases h

section

variable {digits : Text} {entries : List Text} (hl : digits.length = 4)
  (hd : ∀ c ∈ digits, c.isDigit = true) (hne : entries ≠ [])
  (he : ∀ v ∈ entries, IsFlat (· ≠ ',') v)
include hl hd hne he

theorem parse_yearList (s : Text) :
    parse (yearList digits entries ++ s) =
      .years (Decimal.value digits) (entries.map parse) :: parse s := by
  have hflat : IsFlat (fun _ => True) (digits ++ ':' :: [','].intercalate entries) :=
    (isFlat_of_isDigit hd).append (.char (by decide) trivial (isFlat_intercalate he))
  have hname : Slot.ofName? (digits ++ ':' :: [','].intercalate entries) = none := by
    cases digits with
    | nil => cases hl
    | cons c digits => exact ofName?_of_isDigit (hd c List.mem_cons_self) _
  unfold yearList
  rw [parse_of_group (nextToken?_flat_group hflat s), ofGroup, hname, readYears?_eq hl hd hne he]
  rfl

theorem choose?_yearList {p : Text} (hp : IsFlat (fun _ => True) p) (s : Text) (year : Int) :
    choose? year (parse (p ++ (yearList digits entries ++ s))) =
      (entryFor? (Decimal.value digits) (entries.map parse) year).map fun entry =>
        parse p ++ (entry ++ parse s) := by
  have hself := parse_append hp []
  rw [List.append_nil, parse_nil] at hself
  rw [parse_append hp, parse_yearList hl hd hne he, join_cons_of_ne (by simp), ← hself,
    choose?_append_years (hasNoYears_parse hp)]

end

theorem hasNoYears_append {a b : Template} (ha : a.HasNoYears) (hb : b.HasNoYears) :
    HasNoYears (a ++ b) := by
  intro first entries hmem
  rcases List.mem_append.1 hmem with h | h
  · exact ha first entries h
  · exact hb first entries h

theorem evaluate_of_choose? {t chosen : Template} {d : Ymd} (h : choose? d.year t = some chosen)
    (hc : chosen.HasNoYears) (registry : Registry) :
    t.evaluate registry d = chosen.evaluate registry d := by
  unfold Template.evaluate
  rw [h, choose?_of_hasNoYears hc]

theorem evaluate_parse_append (registry : Registry) (d : Ymd) {p v s : Text}
    (hp : IsFlat (fun _ => True) p) (hv : IsFlat (fun _ => True) v)
    (hs : IsFlat (fun _ => True) s) :
    HolidayRules.evaluate registry (p ++ (v ++ s)) d =
      Template.evaluate registry (parse p ++ (parse v ++ parse s)) d := by
  have hapart := hasNoYears_append (hasNoYears_parse hp)
    (hasNoYears_append (hasNoYears_parse hv) (hasNoYears_parse hs))
  have hjoined := hasNoYears_parse (hp.append (hv.append hs))
  unfold HolidayRules.evaluate Template.evaluate
  rw [choose?_of_hasNoYears hapart, choose?_of_hasNoYears hjoined, parse_append hp,
    parse_append hv]
  dsimp only
  rw [expand_join]

/-- A year list stands for the entry of the year. In a year without an entry the code does not apply,
even if the rest of it calls an extension that is unknown. -/
theorem evaluate_yearList (registry : Registry) (d : Ymd) {p s digits : Text}
    {entries : List Text} (hp : IsFlat (fun _ => True) p) (hs : IsFlat (fun _ => True) s)
    (hl : digits.length = 4) (hd : ∀ c ∈ digits, c.isDigit = true) (hne : entries ≠ [])
    (he : ∀ v ∈ entries, IsFlat (· ≠ ',') v) :
    (∀ (k : Nat) (hk : k < entries.length), d.year = Decimal.value digits + k →
      HolidayRules.evaluate registry (p ++ (yearList digits entries ++ s)) d =
        HolidayRules.evaluate registry (p ++ (entries[k] ++ s)) d) ∧
    ((∀ k, k < entries.length → d.year ≠ Decimal.value digits + k) →
      HolidayRules.evaluate registry (p ++ (yearList digits entries ++ s)) d =
        .ok .notApplicable) := by
  have hchoose := choose?_yearList hl hd hne he hp s d.year
  constructor
  · intro k hk hyear
    have hv : IsFlat (fun _ => True) entries[k] :=
      (he _ (List.getElem_mem hk)).mono fun _ _ => trivial
    rw [entryFor?_of_eq hyear, List.getElem?_map, List.getElem?_eq_getElem hk] at hchoose
    rw [evaluate_parse_append registry d hp hv hs]
    exact evaluate_of_choose? hchoose (hasNoYears_append (hasNoYears_parse hp)
      (hasNoYears_append (hasNoYears_parse hv) (hasNoYears_parse hs))) registry
  · intro hyear
    rw [entryFor?_of_ne (by simpa using hyear)] at hchoose
    unfold HolidayRules.evaluate Template.evaluate
    rw [hchoose]
    rfl

/-- The entry of 2019 has a comma inside its group. The call behind the list is unknown, which is an
error in 2019 and makes no difference in 2021. -/
theorem evaluate_yearList_2018 :
    let list := yearList "2018".toList ["05-01".toList, "05-02|{{?D=Sat,Sun}} friday".toList]
    HolidayRules.evaluate .builtin ("{{year}}-".toList ++ (list ++ "{{lunar}}".toList))
        ⟨2019, 1, 1⟩ =
      HolidayRules.evaluate .builtin
        ("{{year}}-".toList ++ ("05-02|{{?D=Sat,Sun}} friday".toList ++ "{{lunar}}".toList))
        ⟨2019, 1, 1⟩ ∧
    HolidayRules.evaluate .builtin ("{{year}}-".toList ++ (list ++ "{{lunar}}".toList))
        ⟨2021, 1, 1⟩ = .ok .notApplicable := by
  have hp : IsFlat (fun _ => True) "{{year}}-".toList :=
    @IsFlat.group _ "year".toList ['-'] (by decide) (by decide) (BraceFree.isFlat (by decide))
  have hs : IsFlat (fun _ => True) "{{lunar}}".toList :=
    @IsFlat.group _ "lunar".toList [] (by decide) (by decide) .nil
  have hfirst : IsFlat (· ≠ ',') "05-01".toList :=
    .of_braceFree (by decide) (List.forall_mem_ne'.2 (by decide))
  have hsecond : IsFlat (· ≠ ',') ("05-02|".toList ++ "{{?D=Sat,Sun}} friday".toList) :=
    .append (.of_braceFree (by decide) (List.forall_mem_ne'.2 (by decide)))
      (@IsFlat.group _ "?D=Sat,Sun".toList " friday".toList (by decide) (by decide)
        (.of_braceFree (by decide) (List.forall_mem_ne'.2 (by decide))))
  have he : ∀ v ∈ ["05-01".toList, "05-02|{{?D=Sat,Sun}} friday".toList], IsFlat (· ≠ ',') v := by
    intro v hv
    rcases List.mem_cons.1 hv with rfl | hv
    · exact hfirst
    · rw [List.mem_singleton.1 hv]
      exact hsecond
  have hdigits : ∀ c ∈ "2018".toList, c.isDigit = true := List.all_eq_true.1 (by decide)
  have hyears := fun year : Int => evaluate_yearList .builtin ⟨year, 1, 1⟩ hp hs
    (show "2018".toList.length = 4 by decide) hdigits (List.cons_ne_nil _ _) he
  exact ⟨(hyears 2019).1 1 (by decide) (by decide), (hyears 2021).2 (by decide)⟩

end HolidayRules.Template

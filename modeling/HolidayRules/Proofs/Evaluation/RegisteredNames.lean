import HolidayRules.Proofs.Evaluation.DateCodes

set_option autoImplicit false

/-!
# The names of extensions

A name is taken by a registry just if a template can call it, that is, if the name in braces reads as
one call, or if any code at all has a call by it. After any registrations such a call is answered by the
extension that was registered last.
-/
namespace HolidayRules

namespace Template

def Calls (t : Template) (name : Text) : Prop := ∃ part, IsPart part t ∧ Piece.call name ∈ part

end Template

namespace Registry

variable {r : Registry} {name : Text} {extension : Extension}

theorem isValidName_iff_isSound : isValidName name = true ↔ (Piece.call name).IsSound := by
  unfold isValidName
  rw [Template.isSound_call_iff, Bool.and_eq_true, Option.isNone_iff_eq_none]

theorem ofGroup_of_isValidName (h : isValidName name = true) :
    Template.ofGroup name = [.call name] ∧ Template.BraceFree name := by
  have hsound := isValidName_iff_isSound.1 h
  obtain ⟨hcall, hslot⟩ := Template.isSound_call_iff.1 hsound
  obtain ⟨-, hletters, -⟩ := hsound
  have hyears : Template.readYears? name = none := by
    refine Option.eq_none_iff_forall_ne_some.2 fun ⟨first, entries⟩ hread => ?_
    have hcolon : ':' ∈ name := by
      rw [Template.content_of_readYears? hread]
      simp
    exact absurd (hletters ':' hcolon).1 (by decide)
  refine ⟨?_, fun c hc => ⟨?_, ?_⟩⟩
  · unfold Template.ofGroup
    rw [hslot]
    simp only [hyears, hcall, if_true]
  · rintro rfl
    exact absurd (hletters _ hc).2 (by decide)
  · rintro rfl
    exact absurd (hletters _ hc).2 (by decide)

theorem isValidName_of_calls {code : Text} (h : (Template.parse code).Calls name) :
    isValidName name = true := by
  obtain ⟨part, hpart, hmem⟩ := h
  obtain ⟨text, rfl⟩ := Template.exists_parse_of_isPart hpart
  exact isValidName_iff_isSound.2 ((Template.isCanonical_parse text).sound _ hmem)

theorem isValidName_iff_parse :
    isValidName name = true ↔ Template.parse (inBraces name) = [.call name] := by
  constructor
  · intro h
    obtain ⟨hgroup, hbraces⟩ := ofGroup_of_isValidName h
    exact Template.parse_inBraces hbraces hgroup
  · intro h
    exact isValidName_of_calls ⟨_, .self, h ▸ List.mem_singleton_self _⟩

theorem isValidName_iff_calls :
    isValidName name = true ↔ ∃ code, (Template.parse code).Calls name := by
  constructor
  · intro h
    refine ⟨inBraces name, _, .self, ?_⟩
    rw [isValidName_iff_parse.1 h]
    exact List.mem_singleton_self _
  · rintro ⟨code, h⟩
    exact isValidName_of_calls h

/-! ## Registering -/

def registered (r : Registry) (entry : Text × Extension) : Registry :=
  match (register entry.1 entry.2).run r with
  | .ok _ next => next
  | .error _ next => next

def lastOf? (name : Text) (entries : List (Text × Extension)) : Option Extension :=
  entries.reverse.lookup name

theorem run_register_of_isValidName (h : isValidName name = true) :
    (register name extension).run r =
      .ok () ⟨(name, extension) :: r.entries.filter fun entry => entry.1 ≠ name⟩ := by
  unfold register
  rw [h]
  rfl

theorem run_register_of_not_isValidName (h : isValidName name = false) :
    (register name extension).run r = .error (.invalidName name) r := by
  unfold register
  rw [h]
  rfl

theorem exists_register_iff :
    (∃ next, (register name extension).run r = .ok () next) ↔ isValidName name = true := by
  cases h : isValidName name with
  | false => simp [run_register_of_not_isValidName h]
  | true => simp [run_register_of_isValidName h]

theorem register_eq_error_iff {e : ExtensionError} {next : Registry} :
    (register name extension).run r = .error e next ↔
      isValidName name = false ∧ e = .invalidName name ∧ next = r := by
  cases h : isValidName name with
  | false => simp [run_register_of_not_isValidName h, eq_comm]
  | true => simp [run_register_of_isValidName h]

theorem lookup_filter {other : Text} (h : name ≠ other) (entries : List (Text × Extension)) :
    (entries.filter fun entry => entry.1 ≠ other).lookup name = entries.lookup name := by
  induction entries with
  | nil => rfl
  | cons entry entries ih =>
    obtain ⟨key, value⟩ := entry
    by_cases hkey : key = other
    · have hname : (name == key) = false := by simp [hkey, h]
      rw [List.filter_cons_of_neg (by simp [hkey]), ih, List.lookup_cons, hname]
    · rw [List.filter_cons_of_pos (by simp [hkey]), List.lookup_cons, List.lookup_cons, ih]

theorem get?_registered (h : isValidName name = true) (entry : Text × Extension) :
    (r.registered entry).get? name = if entry.1 = name then some entry.2 else r.get? name := by
  obtain ⟨other, extension⟩ := entry
  unfold registered
  by_cases hname : other = name
  · subst hname
    rw [run_register_of_isValidName h, if_pos rfl]
    simp [get?]
  · rw [if_neg hname]
    cases hvalid : isValidName other with
    | false => rw [run_register_of_not_isValidName hvalid]
    | true =>
      have hne : (name == other) = false := by simpa using Ne.symm hname
      rw [run_register_of_isValidName hvalid]
      unfold get?
      rw [List.lookup_cons, hne]
      exact lookup_filter (Ne.symm hname) r.entries

theorem get?_foldl_registered (h : isValidName name = true) (entries : List (Text × Extension)) :
    (entries.foldl registered r).get? name = (lastOf? name entries).or (r.get? name) := by
  induction entries generalizing r with
  | nil => rfl
  | cons entry entries ih =>
    obtain ⟨other, extension⟩ := entry
    unfold lastOf? at ih ⊢
    rw [List.foldl_cons, ih, get?_registered h, List.reverse_cons, List.lookup_append,
      Option.or_assoc]
    by_cases hname : other = name
    · subst hname
      simp
    · have hne : (name == other) = false := by simpa using Ne.symm hname
      simp [hname, hne, List.lookup_cons]

theorem evaluate_of_isValidName (h : isValidName name = true) (d : Ymd) :
    evaluate r (inBraces name) d =
      match r.get? name with
      | none => .error (.unknown name)
      | some extension => .ok (Chain.outcomeOf (extension d) d) := by
  obtain ⟨hgroup, hbraces⟩ := ofGroup_of_isValidName h
  cases hget : r.get? name with
  | some extension => exact evaluate_call hget hgroup hbraces d
  | none =>
    have hcall : r.call name d = .error (.unknown name) := by
      unfold call
      rw [hget]
    unfold evaluate
    rw [isValidName_iff_parse.1 h]
    unfold Template.evaluate Template.expand
    simp only [Template.choose?, Template.firstCall?, Option.map_some, hcall]

/-- A registry takes the names that templates can call, and no others: it takes a name just if the name
in braces is one call, and just if any code has a call by it. A name that it refuses leaves it as it was.
After any registrations the call by a name is answered by the last extension for it, which may have been
there from the start, and is unknown if there is none. -/
theorem register_iff_callable :
    (∀ (r : Registry) (name : Text) (extension : Extension),
      ((∃ next, (register name extension).run r = .ok () next) ↔
        Template.parse (inBraces name) = [.call name]) ∧
      ((∃ next, (register name extension).run r = .ok () next) ↔
        ∃ code, (Template.parse code).Calls name) ∧
      ∀ e next, (register name extension).run r = .error e next →
        e = .invalidName name ∧ next = r) ∧
    ∀ (start : Registry) (entries : List (Text × Extension)) (name : Text) (d : Ymd),
      Template.parse (inBraces name) = [.call name] →
        evaluate (entries.foldl registered start) (inBraces name) d =
          match (lastOf? name entries).or (start.get? name) with
          | none => .error (.unknown name)
          | some extension => .ok (match extension d with
            | none => .notApplicable
            | some t => Chain.outcome t d) := by
  refine ⟨fun r name extension => ⟨?_, ?_, ?_⟩, fun start entries name d hparse => ?_⟩
  · rw [exists_register_iff, isValidName_iff_parse]
  · rw [exists_register_iff, isValidName_iff_calls]
  · intro e next he
    exact (register_eq_error_iff.1 he).2
  · have hvalid := isValidName_iff_parse.2 hparse
    rw [evaluate_of_isValidName hvalid, get?_foldl_registered hvalid]
    cases (lastOf? name entries).or (start.get? name) with
    | none => rfl
    | some extension =>
      dsimp only
      cases extension d <;> rfl

/-- Of two registrations the later one counts, and a name with a capital letter is refused. -/
theorem evaluate_registered_twice :
    let entries : List (Text × Extension) :=
      [("lunar".toList, fun _ => none), ("Solar".toList, fun _ => none),
        ("lunar".toList, fun d => some (Decimal.padded 4 d.year ++ "-02-16|+1 day".toList))]
    Template.parse (inBraces "lunar".toList) = [.call "lunar".toList] ∧
      evaluate (entries.foldl registered .builtin) (inBraces "lunar".toList) ⟨2018, 1, 1⟩ =
        .ok (.date ⟨2018, 2, 17⟩) ∧
      evaluate (entries.foldl registered .builtin) (inBraces "solar".toList) ⟨2018, 1, 1⟩ =
        .error (.unknown "solar".toList) := by
  intro entries
  have hlunar : Template.parse (inBraces "lunar".toList) = [.call "lunar".toList] :=
    isValidName_iff_parse.1 (by decide)
  have hsolar : Template.parse (inBraces "solar".toList) = [.call "solar".toList] :=
    isValidName_iff_parse.1 (by decide)
  have hdate : Chain.outcome "2018-02-16|+1 day".toList ⟨2018, 1, 1⟩ = .date ⟨2018, 2, 17⟩ := by
    decide +kernel
  have hcall := register_iff_callable.2 .builtin entries
  exact ⟨hlunar, (hcall _ ⟨2018, 1, 1⟩ hlunar).trans (congrArg Except.ok hdate),
    hcall _ ⟨2018, 1, 1⟩ hsolar⟩

end Registry
end HolidayRules

import Mathlib.Data.List.Permutation
import HolidayRules.Proofs.Except
import HolidayRules.Proofs.Selection.Listing
import HolidayRules.Proofs.Selection.StableSort

set_option autoImplicit false

/-!
# The holidays of several years

A list of several years asks for the outcome of each rule in each year, one after the other, and sorts
the dates that it gets. The years can be parted anywhere, although a rule may fall in a year next to
the one it is asked for.
-/
namespace HolidayRules

/-! ## Dates in order -/

namespace Ymd

theorem atMost_iff {a b : Ymd} :
    a.atMost b = true ↔ a.year < b.year ∨ a.year = b.year ∧
      (a.month < b.month ∨ a.month = b.month ∧ a.day ≤ b.day) := by
  simp [atMost]

theorem atMost_antisymm {a b : Ymd} (h : a.atMost b = true) (h' : b.atMost a = true) : a = b := by
  rw [atMost_iff] at h h'
  obtain ⟨year, month, day⟩ := a
  obtain ⟨year', month', day'⟩ := b
  dsimp only at h h'
  obtain rfl : year = year' := by omega
  obtain rfl : month = month' := by omega
  obtain rfl : day = day' := by omega
  rfl

end Ymd

namespace Holiday

theorem atMost_trans (a b c : Holiday) (hab : a.atMost b = true) (hbc : b.atMost c = true) :
    a.atMost c = true := by
  unfold atMost at *
  rw [Ymd.atMost_iff] at *
  omega

theorem atMost_total (a b : Holiday) : (a.atMost b || b.atMost a) = true := by
  unfold atMost
  rw [Bool.or_eq_true, Ymd.atMost_iff, Ymd.atMost_iff]
  omega

theorem atMost_of_date_eq {a b : Holiday} (h : a.1 = b.1) : a.atMost b = true := by
  unfold atMost
  rw [h, Ymd.atMost_iff]
  omega

/-- The same holidays by date, where those of one date keep their order. -/
structure IsByDate (sorted list : List Holiday) : Prop where
  perm : sorted.Perm list
  ordered : sorted.Pairwise fun a b => a.atMost b = true
  stable : ∀ date : Ymd, sorted.filter (fun entry => entry.1 = date) =
    list.filter fun entry => entry.1 = date

theorem isByDate_mergeSort (list : List Holiday) : IsByDate (list.mergeSort atMost) list where
  perm := List.mergeSort_perm list atMost
  ordered := List.pairwise_mergeSort atMost_trans atMost_total list
  stable date := by
    refine filter_mergeSort atMost_trans atMost_total (fun a b ha hb => ?_) list
    rw [decide_eq_true_eq] at ha hb
    exact atMost_of_date_eq (ha.trans hb.symm)

theorem IsByDate.unique {a b list : List Holiday} (ha : IsByDate a list) (hb : IsByDate b list) :
    a = b := by
  have hlevel (z : Holiday) : onLevel atMost z = fun entry => decide (entry.1 = z.1) := by
    funext entry
    rw [Bool.eq_iff_iff, onLevel, Bool.and_eq_true, decide_eq_true_eq]
    exact ⟨fun h => Ymd.atMost_antisymm h.1 h.2,
      fun h => ⟨atMost_of_date_eq h, atMost_of_date_eq h.symm⟩⟩
  refine eq_of_filter_onLevel atMost_total ha.ordered hb.ordered fun z => ?_
  rw [hlevel, ha.stable, hb.stable]

end Holiday

namespace Selection

/-! ## The years of a span -/

theorem mem_yearsFrom {first last year : Int} :
    year ∈ yearsFrom first last ↔ first ≤ year ∧ year ≤ last := by
  unfold yearsFrom
  simp only [List.mem_map, List.mem_range]
  constructor
  · rintro ⟨k, hk, rfl⟩
    omega
  · rintro ⟨hfirst, hlast⟩
    exact ⟨(year - first).toNat, by omega, by omega⟩

theorem pairwise_yearsFrom (first last : Int) : (yearsFrom first last).Pairwise (· < ·) := by
  unfold yearsFrom
  rw [List.pairwise_map]
  exact List.pairwise_lt_range.imp fun h => by omega

theorem yearsFrom_append {first middle last : Int} (hfirst : first ≤ middle) (hlast : middle < last) :
    yearsFrom first last = yearsFrom first middle ++ yearsFrom (middle + 1) last := by
  have hcount : (last - first + 1).toNat =
      (middle - first + 1).toNat + (last - (middle + 1) + 1).toNat := by omega
  unfold yearsFrom
  rw [hcount, List.range_add, List.map_append, List.map_map]
  congr 1
  refine List.map_congr_left fun k _ => ?_
  change first + (((middle - first + 1).toNat + k : Nat) : Int) = middle + 1 + k
  omega

/-! ## What is asked for -/

def requests (s : Selection) (accepts : Rule → Bool) (years : List Int) : List (Int × Rule) :=
  years.flatMap fun year => (s.selected.filter accepts).map (year, ·)

def outcomeOf (s : Selection) (request : Int × Rule) : Except ExtensionError Outcome :=
  request.2.outcome s.registry ⟨request.1, 1, 1⟩

def entry? (s : Selection) (request : Int × Rule) : Option Holiday :=
  (request.2.date? s.registry ⟨request.1, 1, 1⟩).map (·, request.2)

def FailsFirst (s : Selection) (requests : List (Int × Rule)) (e : ExtensionError) : Prop :=
  ∃ before request after, requests = before ++ request :: after ∧
    (∀ earlier ∈ before, ∃ outcome, s.outcomeOf earlier = .ok outcome) ∧
    s.outcomeOf request = .error e

variable {s : Selection} {accepts : Rule → Bool}

theorem mem_requests {years : List Int} {request : Int × Rule} :
    request ∈ s.requests accepts years ↔
      request.1 ∈ years ∧ request.2 ∈ s.selected.filter accepts := by
  obtain ⟨year, r⟩ := request
  unfold requests
  rw [List.mem_flatMap]
  constructor
  · rintro ⟨_, hyear, hr⟩
    obtain ⟨r, hr, he⟩ := List.mem_map.1 hr
    cases he
    exact ⟨hyear, hr⟩
  · rintro ⟨hyear, hr⟩
    exact ⟨year, hyear, List.mem_map_of_mem hr⟩

def answer (s : Selection) (request : Int × Rule) : Except ExtensionError (Option Holiday) :=
  request.2.holiday? s.registry ⟨request.1, 1, 1⟩

theorem answer_of_outcomeOf {request : Int × Rule} {outcome : Outcome}
    (h : s.outcomeOf request = .ok outcome) : s.answer request = .ok (s.entry? request) := by
  rw [answer, Rule.holiday?, show request.2.outcome s.registry ⟨request.1, 1, 1⟩ = .ok outcome from h,
    entry?, Rule.date?_of_outcome h]
  rfl

theorem answer_eq_ok_iff {request : Int × Rule} :
    (∃ found, s.answer request = .ok found) ↔ ∃ outcome, s.outcomeOf request = .ok outcome := by
  unfold answer Rule.holiday? outcomeOf
  cases request.2.outcome s.registry ⟨request.1, 1, 1⟩ <;> simp [Except.map]

theorem answer_eq_error_iff {request : Int × Rule} {e : ExtensionError} :
    s.answer request = .error e ↔ s.outcomeOf request = .error e := by
  unfold answer Rule.holiday? outcomeOf
  cases request.2.outcome s.registry ⟨request.1, 1, 1⟩ <;> simp [Except.map]

theorem unsorted_of_years (s : Selection) (accepts : Rule → Bool) (years : List Int) :
    (years.mapM fun year => s.unsorted (s.selected.filter accepts) ⟨year, 1, 1⟩).map
        List.flatten =
      ((s.requests accepts years).mapM s.answer).map fun found => found.filterMap id := by
  induction years with
  | nil => rfl
  | cons year years ih =>
    have hyear : s.unsorted (s.selected.filter accepts) ⟨year, 1, 1⟩ =
        (((s.selected.filter accepts).map (year, ·)).mapM s.answer).map
          fun found => found.filterMap id := by
      rw [List.mapM_map]
      rfl
    have hrequests : s.requests accepts (year :: years) =
        (s.selected.filter accepts).map (year, ·) ++ s.requests accepts years := List.flatMap_cons
    rw [List.mapM_cons, hyear, hrequests, List.mapM_append]
    generalize (years.mapM fun year => s.unsorted (s.selected.filter accepts) ⟨year, 1, 1⟩) = lists
      at ih ⊢
    generalize (s.requests accepts years).mapM s.answer = rest at ih ⊢
    cases ((s.selected.filter accepts).map (year, ·)).mapM s.answer with
    | error e => rfl
    | ok found =>
      cases lists with
      | error e =>
        cases rest with
        | error e' =>
          cases ih
          rfl
        | ok rest => cases ih
      | ok lists =>
        cases rest with
        | error e' => cases ih
        | ok rest =>
          have hrest : lists.flatten = rest.filterMap id := Except.ok.inj ih
          change Except.ok (found.filterMap id ++ lists.flatten) = Except.ok ((found ++ rest).filterMap id)
          rw [hrest, List.filterMap_append]

theorem holidaysOfYears_eq (s : Selection) (first last : Int) (accepts : Rule → Bool) :
    s.holidaysOfYears first last accepts =
      ((s.requests accepts (yearsFrom first last)).mapM s.answer).map fun found =>
        (found.filterMap id).mergeSort Holiday.atMost := by
  have hunsorted := congrArg (fun found => found.map fun list => list.mergeSort Holiday.atMost)
    (unsorted_of_years s accepts (yearsFrom first last))
  rw [Except.map_map, Except.map_map] at hunsorted
  exact hunsorted

theorem holidaysOfYears_of_resolves {first last : Int}
    (h : ∀ year, first ≤ year → year ≤ last → s.Resolves (s.selected.filter accepts) ⟨year, 1, 1⟩) :
    s.holidaysOfYears first last accepts =
      .ok (((s.requests accepts (yearsFrom first last)).filterMap s.entry?).mergeSort
        Holiday.atMost) := by
  have hanswers : (s.requests accepts (yearsFrom first last)).mapM s.answer =
      .ok ((s.requests accepts (yearsFrom first last)).map s.entry?) := by
    refine Except.mapM_eq_ok fun request hrequest => ?_
    obtain ⟨hyear, hr⟩ := mem_requests.1 hrequest
    obtain ⟨hfirst, hlast⟩ := mem_yearsFrom.1 hyear
    obtain ⟨outcome, houtcome⟩ := h request.1 hfirst hlast request.2 hr
    exact answer_of_outcomeOf houtcome
  rw [holidaysOfYears_eq, hanswers, Except.map, List.filterMap_map]
  rfl

theorem holidaysOfYears_eq_error_iff {first last : Int} {e : ExtensionError} :
    s.holidaysOfYears first last accepts = .error e ↔
      s.FailsFirst (s.requests accepts (yearsFrom first last)) e := by
  have hmap : s.holidaysOfYears first last accepts = .error e ↔
      (s.requests accepts (yearsFrom first last)).mapM s.answer = .error e := by
    rw [holidaysOfYears_eq]
    cases (s.requests accepts (yearsFrom first last)).mapM s.answer <;> simp [Except.map]
  rw [hmap, Except.mapM_eq_error_iff]
  simp only [FailsFirst, answer_eq_ok_iff, answer_eq_error_iff]

theorem resolves_of_holidaysOfYears {first last : Int} {list : List Holiday}
    (h : s.holidaysOfYears first last accepts = .ok list) (year : Int) (hfirst : first ≤ year)
    (hlast : year ≤ last) : s.Resolves (s.selected.filter accepts) ⟨year, 1, 1⟩ := by
  intro r hr
  rw [holidaysOfYears_eq] at h
  cases hanswers : (s.requests accepts (yearsFrom first last)).mapM s.answer with
  | error e =>
    rw [hanswers] at h
    cases h
  | ok found =>
    have hrequest : (year, r) ∈ s.requests accepts (yearsFrom first last) :=
      mem_requests.2 ⟨mem_yearsFrom.2 ⟨hfirst, hlast⟩, hr⟩
    exact answer_eq_ok_iff.1 (Except.exists_of_mapM_eq_ok hanswers _ hrequest)

theorem holidaysOfYears_split {first middle last : Int} (hfirst : first ≤ middle)
    (hlast : middle < last) :
    s.holidaysOfYears first last accepts =
      (s.holidaysOfYears first middle accepts >>= fun before =>
        (s.holidaysOfYears (middle + 1) last accepts).map fun after =>
          before.merge after Holiday.atMost) := by
  have hrequests : s.requests accepts (yearsFrom first last) =
      s.requests accepts (yearsFrom first middle) ++
        s.requests accepts (yearsFrom (middle + 1) last) := by
    rw [yearsFrom_append hfirst hlast, requests, List.flatMap_append]
    rfl
  rw [holidaysOfYears_eq, holidaysOfYears_eq, holidaysOfYears_eq, hrequests, List.mapM_append]
  cases (s.requests accepts (yearsFrom first middle)).mapM s.answer with
  | error e => rfl
  | ok before =>
    cases (s.requests accepts (yearsFrom (middle + 1) last)).mapM s.answer with
    | error e => rfl
    | ok after =>
      change Except.ok (((before ++ after).filterMap id).mergeSort Holiday.atMost) = Except.ok _
      rw [List.filterMap_append, mergeSort_append Holiday.atMost_trans Holiday.atMost_total]

theorem holidaysOfYears_self (s : Selection) (year : Int) :
    s.holidaysOfYears year year (fun _ => true) = s.holidays year {} := by
  have hyears : yearsFrom year year = [year] := by
    unfold yearsFrom
    rw [show (year - year + 1).toNat = 1 by omega]
    simp [List.range_succ]
  have hrules : s.selected.filter (fun _ => true) = s.selected :=
    List.filter_eq_self.2 fun _ _ => rfl
  unfold holidaysOfYears holidays
  rw [hyears, hrules, List.mapM_cons, List.mapM_nil]
  cases s.unsorted s.selected ⟨year, 1, 1⟩ with
  | error e => rfl
  | ok found =>
    change Except.ok ((found ++ []).mergeSort Holiday.atMost) = Except.ok _
    rw [List.append_nil]

/-- The holidays of several years are those of the requests by date, or the first error among the
requests. A list of more years is the merge of lists of fewer, and of one year the list of the
year. -/
theorem holidaysOfYears_lists_requests (s : Selection) (accepts : Rule → Bool) (first last : Int) :
    ((∀ year, first ≤ year → year ≤ last →
        s.Resolves (s.selected.filter accepts) ⟨year, 1, 1⟩) →
      ∃ list, s.holidaysOfYears first last accepts = .ok list ∧
        ∀ other, Holiday.IsByDate other
          ((s.requests accepts (yearsFrom first last)).filterMap s.entry?) ↔ other = list) ∧
    ((¬ ∀ year, first ≤ year → year ≤ last →
        s.Resolves (s.selected.filter accepts) ⟨year, 1, 1⟩) →
      ∃ e, s.holidaysOfYears first last accepts = .error e ∧
        s.FailsFirst (s.requests accepts (yearsFrom first last)) e) ∧
    ((∀ year, year ∈ yearsFrom first last ↔ first ≤ year ∧ year ≤ last) ∧
      (yearsFrom first last).Pairwise (· < ·)) ∧
    (last < first → s.holidaysOfYears first last accepts = .ok []) ∧
    (∀ middle, first ≤ middle → middle < last →
      s.holidaysOfYears first last accepts =
        (s.holidaysOfYears first middle accepts >>= fun before =>
          (s.holidaysOfYears (middle + 1) last accepts).map fun after =>
            before.merge after Holiday.atMost)) ∧
    ∀ year, s.holidaysOfYears year year (fun _ => true) = s.holidays year {} := by
  refine ⟨fun hresolves => ?_, fun hfails => ?_,
    ⟨fun year => mem_yearsFrom, pairwise_yearsFrom first last⟩, fun hempty => ?_,
    fun middle => holidaysOfYears_split, holidaysOfYears_self s⟩
  · have hsorted := Holiday.isByDate_mergeSort
      ((s.requests accepts (yearsFrom first last)).filterMap s.entry?)
    refine ⟨_, holidaysOfYears_of_resolves hresolves, fun other => ?_⟩
    constructor
    · intro h
      exact h.unique hsorted
    · rintro rfl
      exact hsorted
  · cases h : s.holidaysOfYears first last accepts with
    | error e => exact ⟨e, rfl, holidaysOfYears_eq_error_iff.1 h⟩
    | ok list => exact absurd (resolves_of_holidaysOfYears h) hfails
  · have hnone : yearsFrom first last = [] :=
      List.eq_nil_iff_forall_not_mem.2 fun year hyear => by
        have hbounds := mem_yearsFrom.1 hyear
        omega
    rw [holidaysOfYears_eq, hnone]
    simp [requests, Except.map, pure, Except.pure]

/-- The first rule falls in the year after the one it is asked for, behind the New Year of that
year. -/
theorem holidaysOfYears_past_new_year :
    let late : Rule :=
      { id := 1, month := some 12, day := some 31, code := "+2 days".toList, region := "DE".toList }
    let early : Rule := { id := 2, month := some 1, day := some 1, region := "DE".toList }
    let s : Selection :=
      { rules := [late, early], region := ⟨"DE".toList, by decide⟩, kinds := .official,
        registry := .builtin }
    (∀ year, 2018 ≤ year → year ≤ 2019 →
        s.Resolves (s.selected.filter fun _ => true) ⟨year, 1, 1⟩) ∧
      s.holidaysOfYears 2018 2019 (fun _ => true) = .ok [(⟨2018, 1, 1⟩, early),
        (⟨2019, 1, 1⟩, early), (⟨2019, 1, 2⟩, late), (⟨2020, 1, 2⟩, late)] ∧
      s.holidaysOfYears 2018 2019 (fun _ => true) =
        (s.holidaysOfYears 2018 2018 (fun _ => true) >>= fun before =>
          (s.holidaysOfYears 2019 2019 (fun _ => true)).map fun after =>
            before.merge after Holiday.atMost) := by
  intro late early s
  have hresolves (year : Int) (hfirst : 2018 ≤ year) (hlast : year ≤ 2019) :
      s.Resolves (s.selected.filter fun _ => true) ⟨year, 1, 1⟩ := by
    have hselected : s.selected.filter (fun _ => true) = [late, early] := by decide +kernel
    have hdate : late.date? .builtin ⟨year, 1, 1⟩ = some ⟨year + 1, 1, 2⟩ := by
      obtain rfl | rfl : year = 2018 ∨ year = 2019 := by omega
      all_goals decide +kernel
    rw [hselected]
    exact List.forall_mem_cons.2
      ⟨Rule.exists_outcome_of_date? hdate, List.forall_mem_singleton.2 ⟨_, rfl⟩⟩
  have hentries : (s.requests (fun _ => true) (yearsFrom 2018 2019)).filterMap s.entry? =
      [(⟨2019, 1, 2⟩, late), (⟨2018, 1, 1⟩, early), (⟨2020, 1, 2⟩, late),
        (⟨2019, 1, 1⟩, early)] := by decide +kernel
  obtain ⟨hlist, -, -, -, hsplit, -⟩ :=
    holidaysOfYears_lists_requests s (fun _ => true) 2018 2019
  obtain ⟨list, hok, hbyDate⟩ := hlist hresolves
  refine ⟨hresolves, ?_, hsplit 2018 (by omega) (by omega)⟩
  rw [hok, ← (hbyDate _).1 (Holiday.isByDate_mergeSort _), hentries]
  exact congrArg Except.ok (by cbv)

end Selection
end HolidayRules

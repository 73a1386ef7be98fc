import HolidayRules.Phrase.Adjustment

set_option autoImplicit false

/-!
# The order of items

Each item of a phrase, `ago` apart, has a part in one thing that an adjustment holds, so that items
of different groups may be written in any order. `ago` turns the sums before it round, which comes to
a sign on the amounts of the offsets, as long as nothing leaves the range of a word.
-/
namespace HolidayRules

inductive OffsetSum where
  | months
  | days
  | workingDays
deriving DecidableEq, Repr

/-- Items of one group act on the same part of an adjustment. -/
inductive ItemGroup where
  | anchor
  | move
  | offset (sum : OffsetSum)
  | edge
  | nth
deriving DecidableEq, Repr

namespace OffsetUnit

def sum : OffsetUnit → OffsetSum
  | day | week | fortnight => .days
  | month | year => .months
  | weekday => .workingDays

def scale : OffsetUnit → Int
  | day | month | weekday => 1
  | week => 7
  | fortnight => 14
  | year => 12

end OffsetUnit

namespace Item

def group? : Item → Option ItemGroup
  | .date .. | .month .. => some .anchor
  | .offset _ unit => some (.offset unit.sum)
  | .ago => none
  | .weekday .. => some .move
  | .edge _ => some .edge
  | .nth .. => some .nth

inductive LeavesSums : Item → Prop where
  | date (year : Int) (month : Nat) (day : Option Nat) : LeavesSums (.date year month day)
  | month (month : Nat) (day : Option Nat) : LeavesSums (.month month day)
  | weekday (weekday : Weekday) (movement : Movement) : LeavesSums (.weekday weekday movement)
  | edge (edge : MonthEdge) : LeavesSums (.edge edge)
  | nth (n : Int) (weekday : Weekday) : LeavesSums (.nth n weekday)

theorem LeavesSums.ne_ago {x : Item} (hx : x.LeavesSums) : x ≠ .ago := by
  rintro rfl
  cases hx

theorem ago_or_offset_or_leavesSums (x : Item) :
    x = .ago ∨ (∃ n u, x = .offset n u) ∨ x.LeavesSums := by
  cases x with
  | ago => exact .inl rfl
  | offset n u => exact .inr (.inl ⟨n, u, rfl⟩)
  | date year month day => exact .inr (.inr (.date year month day))
  | month month day => exact .inr (.inr (.month month day))
  | weekday day movement => exact .inr (.inr (.weekday day movement))
  | edge e => exact .inr (.inr (.edge e))
  | nth n day => exact .inr (.inr (.nth n day))

end Item

namespace Totals

def get (t : Totals) : OffsetSum → Int
  | .months => t.months
  | .days => t.days
  | .workingDays => t.workingDays

def set (t : Totals) (sum : OffsetSum) (n : Int) : Totals :=
  match sum with
  | .months => { t with months := n }
  | .days => { t with days := n }
  | .workingDays => { t with workingDays := n }

theorem get_set_of_ne (t : Totals) {s r : OffsetSum} (h : s ≠ r) (n : Int) :
    (t.set s n).get r = t.get r := by
  cases s <;> cases r <;> first | rfl | exact absurd rfl h

theorem set_comm (t : Totals) {s r : OffsetSum} (h : s ≠ r) (m n : Int) :
    (t.set s m).set r n = (t.set r n).set s m := by
  cases s <;> cases r <;> first | rfl | exact absurd rfl h

theorem add?_eq (t : Totals) (amount : Int) (unit : OffsetUnit) :
    t.add? amount unit =
      (addScaled? (t.get unit.sum) amount unit.scale).map (t.set unit.sum) := by
  cases unit <;> rfl

theorem add?_comm (t : Totals) {u v : OffsetUnit} (h : u.sum ≠ v.sum) (m n : Int) :
    (t.add? m u).bind (·.add? n v) = (t.add? n v).bind (·.add? m u) := by
  simp only [add?_eq, Option.bind_map, Function.comp_def, get_set_of_ne t h, get_set_of_ne t h.symm]
  cases addScaled? (t.get u.sum) m u.scale with
  | none => cases addScaled? (t.get v.sum) n v.scale <;> rfl
  | some k =>
    cases addScaled? (t.get v.sum) n v.scale with
    | none => rfl
    | some l => exact congrArg some (set_comm t h k l)

end Totals

/-! ## Items of different groups -/

namespace Adjustment

theorem add?_two_offsets (a : Adjustment) (m n : Int) (u v : OffsetUnit) :
    (a.add? (.offset m u)).bind (·.add? (.offset n v)) =
      ((a.totals.add? m u).bind (·.add? n v)).map fun totals => { a with totals := totals } := by
  change ((a.totals.add? m u).map _).bind _ = _
  cases a.totals.add? m u <;> rfl

theorem add?_offset_comm (a : Adjustment) (n : Int) (u : OffsetUnit) {x : Item}
    (hx : x.LeavesSums) :
    (a.add? (.offset n u)).bind (·.add? x) = (a.add? x).bind (·.add? (.offset n u)) := by
  cases hx
  all_goals
    change ((a.totals.add? n u).map _).bind _ = (a.totals.add? n u).map _
    cases a.totals.add? n u <;> rfl

theorem add?_comm_of_leavesSums (a : Adjustment) {x y : Item} (hx : x.LeavesSums)
    (hy : y.LeavesSums) (h : x.group? ≠ y.group?) :
    (a.add? x).bind (·.add? y) = (a.add? y).bind (·.add? x) := by
  cases hx <;> cases hy <;> first | rfl | exact absurd rfl h

theorem add?_comm (a : Adjustment) {x y : Item} (hx : x ≠ .ago) (hy : y ≠ .ago)
    (h : x.group? ≠ y.group?) :
    (a.add? x).bind (·.add? y) = (a.add? y).bind (·.add? x) := by
  rcases x.ago_or_offset_or_leavesSums with rfl | ⟨m, u, rfl⟩ | hxs
  · exact absurd rfl hx
  · rcases y.ago_or_offset_or_leavesSums with rfl | ⟨n, v, rfl⟩ | hys
    · exact absurd rfl hy
    · have hsum : u.sum ≠ v.sum := fun he => h (congrArg (some ∘ ItemGroup.offset) he)
      rw [add?_two_offsets, add?_two_offsets, Totals.add?_comm a.totals hsum]
    · exact add?_offset_comm a m u hys
  · rcases y.ago_or_offset_or_leavesSums with rfl | ⟨n, v, rfl⟩ | hys
    · exact absurd rfl hy
    · exact (add?_offset_comm a n v hxs).symm
    · exact add?_comm_of_leavesSums a hxs hys h

/-- An item may be taken before others of which none is in its group. -/
theorem foldlM_add?_middle (a : Adjustment) {x : Item} {before : Phrase} (rest : Phrase)
    (hx : x ≠ .ago) (hbefore : ∀ y ∈ before, y ≠ .ago ∧ y.group? ≠ x.group?) :
    (before ++ x :: rest).foldlM add? a = (x :: (before ++ rest)).foldlM add? a := by
  induction before generalizing a with
  | nil => rfl
  | cons y before ih =>
    obtain ⟨⟨hy, hgroup⟩, hbefore⟩ := List.forall_mem_cons.1 hbefore
    calc ((y :: before) ++ x :: rest).foldlM add? a
        = (a.add? y).bind fun b => (before ++ x :: rest).foldlM add? b := rfl
      _ = (a.add? y).bind fun b => (b.add? x).bind fun c => (before ++ rest).foldlM add? c :=
        congrArg _ (funext fun b => ih b hbefore)
      _ = ((a.add? y).bind (·.add? x)).bind fun c => (before ++ rest).foldlM add? c :=
        (Option.bind_assoc _ _ _).symm
      _ = ((a.add? x).bind (·.add? y)).bind fun c => (before ++ rest).foldlM add? c := by
        rw [add?_comm a hy hx hgroup]
      _ = (x :: ((y :: before) ++ rest)).foldlM add? a := Option.bind_assoc _ _ _

end Adjustment

namespace Phrase

def ofGroup (p : Phrase) (g : ItemGroup) : Phrase := p.filter fun item => item.group? = some g

/-- The same items in another order, which keeps the order inside each group. -/
def IsReordering (p q : Phrase) : Prop := p.Perm q ∧ ∀ g, ofGroup p g = ofGroup q g

theorem exists_group {x : Item} (hx : x ≠ .ago) : ∃ g, x.group? = some g := by
  cases x with
  | ago => exact absurd rfl hx
  | _ => exact ⟨_, rfl⟩

theorem exists_middle {x : Item} {p q : Phrase} (hx : x ≠ .ago)
    (h : ∀ g, ofGroup (x :: p) g = ofGroup q g) :
    ∃ before rest, q = before ++ x :: rest ∧ (∀ y ∈ before, y.group? ≠ x.group?) ∧
      ∀ g, ofGroup p g = ofGroup (before ++ rest) g := by
  obtain ⟨g, hg⟩ := exists_group hx
  have hfirst : ofGroup q g = x :: ofGroup p g := by
    rw [← h g]
    exact List.filter_cons_of_pos (by simpa using hg)
  obtain ⟨before, rest, rfl, hbefore, -, -⟩ := List.filter_eq_cons_iff.1 hfirst
  have hother : ∀ y ∈ before, y.group? ≠ x.group? := by
    intro y hy
    rw [hg]
    simpa using hbefore y hy
  refine ⟨before, rest, rfl, hother, fun k => ?_⟩
  have hk := h k
  unfold ofGroup at hk ⊢
  rw [List.filter_append, List.filter_cons, List.filter_cons] at hk
  rw [List.filter_append]
  by_cases hxk : x.group? = some k
  · have hnone : (before.filter fun item => item.group? = some k) = [] := by
      rw [List.filter_eq_nil_iff]
      intro y hy
      rw [← hxk]
      simpa using hother y hy
    simpa [hxk, hnone] using hk
  · simpa [hxk] using hk

theorem foldlM_add?_of_ofGroup {p q : Phrase} (hp : .ago ∉ p) (hq : .ago ∉ q)
    (h : ∀ g, ofGroup p g = ofGroup q g) (a : Adjustment) :
    p.foldlM Adjustment.add? a = q.foldlM Adjustment.add? a := by
  induction p generalizing q a with
  | nil =>
    cases q with
    | nil => rfl
    | cons y q =>
      obtain ⟨g, hg⟩ := exists_group (x := y) fun he => hq (he ▸ List.mem_cons_self)
      have hempty := List.filter_eq_nil_iff.1 (h g).symm y List.mem_cons_self
      exact absurd (by simpa using hg) hempty
  | cons x p ih =>
    have hx : x ≠ .ago := fun he => hp (he ▸ List.mem_cons_self)
    obtain ⟨before, rest, rfl, hbefore, hrest⟩ := exists_middle hx h
    have hqago : ∀ y ∈ before, y ≠ .ago := fun y hy he =>
      hq (he ▸ List.mem_append_left _ hy)
    have hrago : .ago ∉ before ++ rest := by
      simp only [List.mem_append, List.mem_cons, not_or] at hq ⊢
      exact ⟨hq.1, hq.2.2⟩
    rw [Adjustment.foldlM_add?_middle a rest hx fun y hy => ⟨hqago y hy, hbefore y hy⟩,
      List.foldlM_cons, List.foldlM_cons]
    exact congrArg _ (funext (ih (fun hmem => hp (List.mem_cons_of_mem _ hmem)) hrago hrest))

theorem apply_of_isReordering {p q : Phrase} (hago : .ago ∉ p) (h : IsReordering p q)
    (base : Option Date) : Phrase.apply p base = Phrase.apply q base := by
  have hq : .ago ∉ q := fun hmem => hago (h.1.mem_iff.2 hmem)
  have hgather : Adjustment.ofPhrase? p = Adjustment.ofPhrase? q :=
    foldlM_add?_of_ofGroup hago hq h.2 _
  unfold Phrase.apply
  rw [hgather]

end Phrase

/-! ## The sign of `ago` -/

/-- Neither the number nor its negation leaves the range of a word. -/
def InOpenWord (n : Int) : Prop := -9223372036854775808 < n ∧ n < 9223372036854775808

instance (n : Int) : Decidable (InOpenWord n) := inferInstanceAs (Decidable (_ ∧ _))

theorem inWord_of_inOpenWord {n : Int} (h : InOpenWord n) : inWord n = true := by
  obtain ⟨hlow, hhigh⟩ := h
  unfold inWord
  simp only [Bool.and_eq_true, decide_eq_true_eq]
  omega

theorem ne_leastWord_of_inOpenWord {n : Int} (h : InOpenWord n) : n ≠ leastWord := by
  rintro rfl
  exact absurd h (by decide)

def Item.IsInside : Item → Prop
  | .offset amount unit => InOpenWord (amount * unit.scale)
  | _ => True

instance : DecidablePred Item.IsInside
  | .offset _ _ => inferInstanceAs (Decidable (InOpenWord _))
  | .date .. | .month .. | .ago | .weekday .. | .edge .. | .nth .. =>
    inferInstanceAs (Decidable True)

namespace Totals

def zero : Totals := ⟨0, 0, 0⟩

def IsInside (t : Totals) : Prop :=
  InOpenWord t.months ∧ InOpenWord t.days ∧ InOpenWord t.workingDays

instance (t : Totals) : Decidable t.IsInside := inferInstanceAs (Decidable (_ ∧ _))

def plus (t : Totals) (amount : Int) (unit : OffsetUnit) : Totals :=
  t.set unit.sum (t.get unit.sum + amount * unit.scale)

def after (t : Totals) : Item → Totals
  | .offset amount unit => t.plus amount unit
  | .ago => t.neg
  | _ => t

theorem after_of_leavesSums (t : Totals) {x : Item} (hx : x.LeavesSums) : t.after x = t := by
  cases hx <;> rfl

def times (t : Totals) (sign : Int) : Totals :=
  ⟨sign * t.months, sign * t.days, sign * t.workingDays⟩

theorem get_set (t : Totals) (s : OffsetSum) (n : Int) : (t.set s n).get s = n := by
  cases s <;> rfl

theorem get_times (t : Totals) (sign : Int) (s : OffsetSum) :
    (t.times sign).get s = sign * t.get s := by
  cases s <;> rfl

theorem times_set (t : Totals) (sign : Int) (s : OffsetSum) (n : Int) :
    (t.set s n).times sign = (t.times sign).set s (sign * n) := by
  cases s <;> rfl

theorem times_one (t : Totals) : t.times 1 = t := by
  unfold times
  simp only [Int.one_mul]

theorem hasLeast_of_isInside {t : Totals} (h : t.IsInside) : t.hasLeast = false := by
  obtain ⟨hmonths, hdays, hworking⟩ := h
  simp [hasLeast, ne_leastWord_of_inOpenWord hmonths, ne_leastWord_of_inOpenWord hdays,
    ne_leastWord_of_inOpenWord hworking]

theorem neg_of_isInside {t : Totals} (h : t.IsInside) : t.neg = t.times (-1) := by
  rw [neg_eq_iff.2 (hasLeast_of_isInside h)]
  unfold times
  rw [Int.neg_one_mul, Int.neg_one_mul, Int.neg_one_mul]

theorem neg_times_neg {t : Totals} {sign : Int} (h : (t.times (-sign)).IsInside) :
    (t.times (-sign)).neg = t.times sign := by
  rw [neg_of_isInside h]
  unfold times
  simp only [Int.neg_mul, Int.neg_neg, Int.one_mul]

theorem times_plus (t : Totals) {sign : Int} (h : sign * sign = 1) (n : Int) (u : OffsetUnit) :
    (t.plus (sign * n) u).times sign = (t.times sign).plus n u := by
  unfold plus
  rw [times_set, get_times]
  congr 1
  calc sign * (t.get u.sum + sign * n * u.scale)
      = sign * t.get u.sum + sign * sign * (n * u.scale) := by
        rw [Int.mul_add, Int.mul_assoc, Int.mul_assoc]
    _ = sign * t.get u.sum + n * u.scale := by rw [h, Int.one_mul]

theorem inOpenWord_get {t : Totals} (h : t.IsInside) (s : OffsetSum) : InOpenWord (t.get s) := by
  obtain ⟨hmonths, hdays, hworking⟩ := h
  cases s with
  | months => exact hmonths
  | days => exact hdays
  | workingDays => exact hworking

theorem add?_of_isInside {t : Totals} {n : Int} {u : OffsetUnit}
    (hamount : InOpenWord (n * u.scale)) (hsum : (t.plus n u).IsInside) :
    t.add? n u = some (t.plus n u) := by
  have hget := inOpenWord_get hsum u.sum
  rw [plus, get_set] at hget
  rw [add?_eq]
  unfold addScaled?
  rw [inWord_of_inOpenWord hamount, inWord_of_inOpenWord hget]
  rfl

end Totals

namespace Phrase

/-- No scaled amount and no sum leaves the open range, from the sums `t` on. -/
def StaysInside (t : Totals) : Phrase → Prop
  | [] => t.IsInside
  | item :: rest => t.IsInside ∧ item.IsInside ∧ StaysInside (t.after item) rest

instance decidableStaysInside : (t : Totals) → (p : Phrase) → Decidable (StaysInside t p)
  | t, [] => inferInstanceAs (Decidable t.IsInside)
  | t, item :: rest =>
    have := decidableStaysInside (t.after item) rest
    inferInstanceAs (Decidable (_ ∧ _ ∧ _))

theorem StaysInside.isInside {t : Totals} {p : Phrase} (h : StaysInside t p) : t.IsInside := by
  cases p with
  | nil => exact h
  | cons item rest => exact h.1

def sign (p : Phrase) : Int := Int.pow (-1) (p.count .ago)

/-- Each `ago` becomes a sign on the offsets before it. -/
def withoutAgo : Phrase → Phrase
  | [] => []
  | .ago :: rest => withoutAgo rest
  | .offset amount unit :: rest => .offset (sign rest * amount) unit :: withoutAgo rest
  | item :: rest => item :: withoutAgo rest

theorem withoutAgo_of_leavesSums {x : Item} (hx : x.LeavesSums) (p : Phrase) :
    withoutAgo (x :: p) = x :: withoutAgo p := by
  cases hx <;> rfl

theorem sign_ago (p : Phrase) : sign (.ago :: p) = -sign p := by
  unfold sign
  rw [List.count_cons_self]
  exact (Int.pow_succ (-1) _).trans (Int.mul_neg_one _)

theorem sign_of_ne {x : Item} (hx : x ≠ .ago) (p : Phrase) : sign (x :: p) = sign p := by
  unfold sign
  rw [List.count_cons_of_ne hx]

theorem sign_mul_self (p : Phrase) : sign p * sign p = 1 := by
  induction p with
  | nil => rfl
  | cons x p ih =>
    by_cases hx : x = .ago
    · rw [hx, sign_ago, Int.neg_mul_neg, ih]
    · rw [sign_of_ne hx, ih]

end Phrase

namespace Adjustment
open Phrase

def times (a : Adjustment) (sign : Int) : Adjustment := { a with totals := a.totals.times sign }

theorem add?_of_isInside {a : Adjustment} {n : Int} {u : OffsetUnit} {rest : Phrase}
    (h : StaysInside a.totals (.offset n u :: rest)) :
    a.add? (.offset n u) = some { a with totals := a.totals.plus n u } := by
  change (a.totals.add? n u).map _ = _
  rw [Totals.add?_of_isInside h.2.1 h.2.2.isInside]
  rfl

theorem exists_add?_times (a : Adjustment) {x : Item} (hx : x.LeavesSums) :
    ∃ b, a.add? x = some b ∧ b.totals = a.totals ∧
      ∀ sign, (a.times sign).add? x = some (b.times sign) := by
  cases hx <;> exact ⟨_, rfl, rfl, fun _ => rfl⟩

theorem add?_ago_times {a : Adjustment} {sign : Int} (h : (a.totals.times (-sign)).IsInside) :
    (a.times (-sign)).add? .ago = some (a.times sign) := by
  change some { a with totals := (a.totals.times (-sign)).neg } = _
  rw [Totals.neg_times_neg h]
  rfl

/-- The two phrases are gathered side by side; their sums differ by the sign of what is left. -/
theorem foldlM_add?_withoutAgo (p : Phrase) (a : Adjustment)
    (h : StaysInside (a.totals.times (sign p)) p) (hsigned : StaysInside a.totals (withoutAgo p)) :
    p.foldlM add? (a.times (sign p)) = (withoutAgo p).foldlM add? a := by
  induction p generalizing a with
  | nil =>
    change some (a.times 1) = some a
    rw [times, Totals.times_one]
  | cons x p ih =>
    rcases x.ago_or_offset_or_leavesSums with rfl | ⟨n, u, rfl⟩ | hx
    · rw [sign_ago] at h ⊢
      have hrest : StaysInside (a.totals.times (-sign p)).neg p := h.2.2
      rw [Totals.neg_times_neg h.isInside] at hrest
      rw [List.foldlM_cons, add?_ago_times h.isInside]
      exact ih a hrest hsigned
    · rw [sign_of_ne (by simp)] at h ⊢
      have hplus := a.totals.times_plus (sign_mul_self p) n u
      have hrest : StaysInside ((a.totals.times (sign p)).plus n u) p := h.2.2
      have hright := add?_of_isInside hsigned
      have hleft : (a.times (sign p)).add? (.offset n u) =
          some (times { a with totals := a.totals.plus (sign p * n) u } (sign p)) := by
        rw [add?_of_isInside h]
        unfold times
        rw [hplus]
      rw [← hplus] at hrest
      change _ = (Item.offset (sign p * n) u :: withoutAgo p).foldlM add? a
      rw [List.foldlM_cons, List.foldlM_cons, hleft, hright]
      exact ih _ hrest hsigned.2.2
    · obtain ⟨b, hadd, htotals, htimes⟩ := a.exists_add?_times hx
      rw [sign_of_ne hx.ne_ago] at h ⊢
      rw [withoutAgo_of_leavesSums hx] at hsigned ⊢
      have hrest := h.2.2
      have hsignedRest := hsigned.2.2
      rw [Totals.after_of_leavesSums _ hx, ← htotals] at hrest hsignedRest
      rw [List.foldlM_cons, List.foldlM_cons, htimes, hadd]
      exact ih b hrest hsignedRest

end Adjustment

namespace Phrase

theorem apply_withoutAgo {p : Phrase} (h : StaysInside .zero p)
    (hsigned : StaysInside .zero p.withoutAgo) (base : Option Date) :
    Phrase.apply p base = Phrase.apply p.withoutAgo base := by
  have hzero : Totals.times .zero (sign p) = .zero := by
    unfold Totals.times Totals.zero
    simp only [Int.mul_zero]
  have hstart : Adjustment.times .identity (sign p) = .identity := by
    change Adjustment.mk _ _ (Totals.times .zero (sign p)) _ _ = _
    rw [hzero]
    rfl
  have hgather : Adjustment.ofPhrase? p = Adjustment.ofPhrase? p.withoutAgo := by
    have hrun := Adjustment.foldlM_add?_withoutAgo p .identity
      (show StaysInside (Totals.times .zero (sign p)) p by rwa [hzero]) hsigned
    rwa [hstart] at hrun
  unfold Phrase.apply
  rw [hgather]

/-- Items of different groups may change places, with the same date or the same error for every base;
and each `ago` may be replaced by a sign on the amounts before it, if no scaled amount and no sum
leaves the open range of a word on either side. -/
theorem apply_of_reordering_and_without_ago :
    (∀ p q : Phrase, .ago ∉ p → IsReordering p q →
      ∀ base, Phrase.apply p base = Phrase.apply q base) ∧
    ∀ p : Phrase, StaysInside .zero p → StaysInside .zero p.withoutAgo →
      ∀ base, Phrase.apply p base = Phrase.apply p.withoutAgo base :=
  ⟨fun _ _ hago h base => apply_of_isReordering hago h base,
    fun _ h hsigned base => apply_withoutAgo h hsigned base⟩

/-- The first of the next month may be asked for last, and in `3 days ago 2 months 1 week ago` the three
days go forwards. -/
theorem apply_first_day_of_next_month_and_ago :
    let p : Phrase := [.edge .first, .offset 1 .month, .weekday .monday .next, .offset 3 .day]
    let q : Phrase := [.offset 3 .day, .weekday .monday .next, .offset 1 .month, .edge .first]
    let r : Phrase := [.offset 3 .day, .ago, .offset 2 .month, .offset 1 .week, .ago]
    (.ago ∉ p ∧ IsReordering p q ∧ ∀ base, Phrase.apply p base = Phrase.apply q base) ∧
      StaysInside .zero r ∧ StaysInside .zero r.withoutAgo ∧
      r.withoutAgo = [.offset 3 .day, .offset (-2) .month, .offset (-1) .week] ∧
      ∀ base, Phrase.apply r base = Phrase.apply r.withoutAgo base := by
  intro p q r
  have hago : .ago ∉ p := by decide
  have hreordering : IsReordering p q := by
    refine ⟨by decide, fun g => ?_⟩
    rcases g with _ | _ | sum | _ | _
    case offset => cases sum <;> rfl
    all_goals rfl
  have hinside : StaysInside .zero r := by decide
  have hsigned : StaysInside .zero r.withoutAgo := by decide
  exact ⟨⟨hago, hreordering, apply_of_reordering_and_without_ago.1 p q hago hreordering⟩, hinside,
    hsigned, by decide, apply_of_reordering_and_without_ago.2 r hinside hsigned⟩

end Phrase
end HolidayRules

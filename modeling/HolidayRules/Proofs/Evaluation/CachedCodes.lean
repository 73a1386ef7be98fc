import HolidayRules.Cache

set_option autoImplicit false

/-!
# Codes evaluated through the cache

Of the map in which templates are kept no more is used than that it finds the values that it holds and
drops an entry only where a new one does not fit. So each template that is found is what its code reads
as, and a run of evaluations gives what each would give by itself.
-/
namespace HolidayRules

namespace BoundedMap

section

variable {Key Value State : Type}

def keys (map : BoundedMap Key Value State) (s : State) : List Key := (map.entries s).map Prod.fst

/-- A value is found if and only if it is held, and finding it changes at most the order of the entries.
A new entry joins the others, and takes the place of one of them where all the room is taken. -/
structure IsLawful [BEq Key] (map : BoundedMap Key Value State) : Prop where
  room_withRoom : ∀ n, map.room (map.withRoom n) = n
  entries_withRoom : ∀ n, map.entries (map.withRoom n) = []
  room_get : ∀ s key, map.room (map.get s key).2 = map.room s
  room_put : ∀ s key value, map.room (map.put s key value) = map.room s
  found : ∀ s key, (map.get s key).1 = (map.entries s).lookup key
  entries_get : ∀ s key, (map.keys s).Nodup →
    (map.entries (map.get s key).2).Perm (map.entries s)
  entries_put : ∀ s key value, key ∉ map.keys s → (map.entries s).length < map.room s →
    (map.entries (map.put s key value)).Perm ((key, value) :: map.entries s)
  entries_put_of_full : ∀ s key value, key ∉ map.keys s → 0 < map.room s →
    (map.entries s).length = map.room s → ∃ dropped ∈ map.entries s,
      (dropped :: map.entries (map.put s key value)).Perm ((key, value) :: map.entries s)

end

variable {State : Type} {map : BoundedMap Text Template State} {size : Nat} {kept : State}

/-- The entries fit into the room, each code has one of them, and its template is what the code reads
as. -/
structure IsSound (map : BoundedMap Text Template State) (size : Nat) (kept : State) : Prop where
  size_pos : 0 < size
  room_eq : map.room kept = size
  fits : (map.entries kept).length ≤ size
  distinct : (map.keys kept).Nodup
  read : ∀ entry ∈ map.entries kept, entry.2 = Template.parse entry.1

def after (map : BoundedMap Text Template State) (kept : State) (queries : List Query) : State :=
  queries.foldl (fun kept query => (map.evaluate kept query).2) kept

theorem isSound_withRoom (hmap : map.IsLawful) (hsize : 0 < size) :
    map.IsSound size (map.withRoom size) where
  size_pos := hsize
  room_eq := hmap.room_withRoom size
  fits := by simp [hmap.entries_withRoom]
  distinct := by simp [keys, hmap.entries_withRoom]
  read := by simp [hmap.entries_withRoom]

theorem IsSound.of_perm {other : State} (h : map.IsSound size kept)
    (hroom : map.room other = map.room kept)
    (hperm : (map.entries other).Perm (map.entries kept)) : map.IsSound size other where
  size_pos := h.size_pos
  room_eq := hroom.trans h.room_eq
  fits := hperm.length_eq ▸ h.fits
  distinct := (hperm.map Prod.fst).nodup_iff.2 h.distinct
  read := fun entry hentry => h.read entry (hperm.mem_iff.1 hentry)

theorem IsSound.put (hmap : map.IsLawful) (h : map.IsSound size kept) {code : Text}
    (hnew : code ∉ map.keys kept) : map.IsSound size (map.put kept code (Template.parse code)) := by
  have hroom := (hmap.room_put kept code (Template.parse code)).trans h.room_eq
  have hdistinct : (((code, Template.parse code) :: map.entries kept).map Prod.fst).Nodup :=
    List.nodup_cons.2 ⟨hnew, h.distinct⟩
  have hread : ∀ entry ∈ (code, Template.parse code) :: map.entries kept,
      entry.2 = Template.parse entry.1 := List.forall_mem_cons.2 ⟨rfl, h.read⟩
  by_cases hfull : (map.entries kept).length = size
  · obtain ⟨dropped, -, hperm⟩ := hmap.entries_put_of_full kept code (Template.parse code) hnew
      (h.room_eq ▸ h.size_pos) (hfull.trans h.room_eq.symm)
    have hlength := hperm.length_eq
    simp only [List.length_cons] at hlength
    exact {
      size_pos := h.size_pos
      room_eq := hroom
      fits := by omega
      distinct := (List.nodup_cons.1 ((hperm.map Prod.fst).nodup_iff.2 hdistinct)).2
      read := fun entry hentry => hread entry (hperm.mem_iff.1 (List.mem_cons_of_mem _ hentry)) }
  · have hlt := Nat.lt_of_le_of_ne h.fits hfull
    have hperm := hmap.entries_put kept code (Template.parse code) hnew (h.room_eq ▸ hlt)
    have hlength := hperm.length_eq
    simp only [List.length_cons] at hlength
    exact {
      size_pos := h.size_pos
      room_eq := hroom
      fits := by omega
      distinct := (hperm.map Prod.fst).nodup_iff.2 hdistinct
      read := fun entry hentry => hread entry (hperm.mem_iff.1 hentry) }

theorem template_of_isSound (hmap : map.IsLawful) (h : map.IsSound size kept) (code : Text) :
    (map.template kept code).1 = Template.parse code ∧
      map.IsSound size (map.template kept code).2 := by
  have hfound := hmap.found kept code
  have hperm := hmap.entries_get kept code h.distinct
  have hget := h.of_perm (hmap.room_get kept code) hperm
  have hkeys := hperm.map Prod.fst
  unfold template
  split
  next template next hcase =>
    rw [hcase] at hfound hget
    obtain ⟨before, behind, hentries, -⟩ := List.lookup_eq_some_iff.1 hfound.symm
    have hmem : (code, template) ∈ map.entries kept := by simp [hentries]
    exact ⟨h.read _ hmem, hget⟩
  next next hcase =>
    rw [hcase] at hfound hget hkeys
    have hnew : code ∉ map.keys kept := by
      intro hmem
      obtain ⟨entry, hentry, rfl⟩ := List.mem_map.1 hmem
      simpa using List.lookup_eq_none_iff.1 hfound.symm entry hentry
    exact ⟨rfl, hget.put hmap (mt hkeys.mem_iff.1 hnew)⟩

theorem evaluate_of_isSound (hmap : map.IsLawful) (h : map.IsSound size kept) (query : Query) :
    (map.evaluate kept query).1 = HolidayRules.evaluate query.registry query.code query.day ∧
      map.IsSound size (map.evaluate kept query).2 := by
  obtain ⟨htemplate, hnext⟩ := template_of_isSound hmap h query.code
  refine ⟨?_, hnext⟩
  change (map.template kept query.code).1.evaluate query.registry query.day = _
  rw [htemplate]
  rfl

theorem evaluateAll_of_isSound (hmap : map.IsLawful) (h : map.IsSound size kept)
    (queries : List Query) :
    map.evaluateAll kept queries =
      queries.map fun query => HolidayRules.evaluate query.registry query.code query.day := by
  induction queries generalizing kept with
  | nil => rfl
  | cons query queries ih =>
    obtain ⟨hresult, hnext⟩ := evaluate_of_isSound hmap h query
    rw [List.map_cons, ← hresult, ← ih hnext]
    rfl

theorem isSound_after (hmap : map.IsLawful) (h : map.IsSound size kept) (queries : List Query) :
    map.IsSound size (map.after kept queries) := by
  induction queries generalizing kept with
  | nil => exact h
  | cons query queries ih => exact ih (evaluate_of_isSound hmap h query).2

end BoundedMap

namespace RecentMap

variable {Key Value : Type} {entries : List (Key × Value)} {key : Key}

theorem exists_dropped (entry : Key × Value) (h : entries ≠ []) :
    ∃ dropped ∈ entries,
      (dropped :: (entry :: entries).take entries.length).Perm (entry :: entries) := by
  obtain ⟨init, last, rfl⟩ : ∃ init last, entries = init ++ [last] :=
    ⟨_, _, (List.dropLast_concat_getLast h).symm⟩
  refine ⟨last, by simp, ?_⟩
  have htake : (entry :: (init ++ [last])).take (init ++ [last]).length = entry :: init := by
    simp
  rw [htake]
  exact (List.perm_append_singleton last (entry :: init)).symm

variable [BEq Key] [LawfulBEq Key]

theorem filter_of_not_mem (h : key ∉ entries.map Prod.fst) :
    (entries.filter fun entry => entry.1 != key) = entries := by
  apply List.filter_eq_self.2
  intro entry hentry
  rw [bne_iff_ne]
  rintro rfl
  exact h (List.mem_map_of_mem hentry)

theorem inFront_of_not_mem (h : key ∉ entries.map Prod.fst) (value : Value) :
    inFront key value entries = (key, value) :: entries := by
  unfold inFront
  rw [filter_of_not_mem h]

theorem inFront_perm {value : Value} (hdistinct : (entries.map Prod.fst).Nodup)
    (hfound : entries.lookup key = some value) : (inFront key value entries).Perm entries := by
  obtain ⟨before, behind, rfl, -⟩ := List.lookup_eq_some_iff.1 hfound
  have hperm : (before ++ (key, value) :: behind).Perm ((key, value) :: (before ++ behind)) :=
    List.perm_middle
  have hrest := (List.nodup_cons.1 ((hperm.map Prod.fst).nodup_iff.1 hdistinct)).1
  have hfilter : ((before ++ (key, value) :: behind).filter fun entry => entry.1 != key) =
      before ++ behind := by
    rw [← filter_of_not_mem hrest]
    simp
  unfold inFront
  rw [hfilter]
  exact hperm.symm

theorem isLawful_operations :
    (operations : BoundedMap Key Value (RecentMap Key Value)).IsLawful where
  room_withRoom _ := rfl
  entries_withRoom _ := rfl
  room_get m key := by
    change (m.get key).2.room = m.room
    unfold get
    split <;> rfl
  room_put _ _ _ := rfl
  found m key := by
    change (m.get key).1 = m.entries.lookup key
    unfold get
    split
    next value hfound => exact hfound.symm
    next hnone => exact hnone.symm
  entries_get m key hdistinct := by
    change ((m.get key).2.entries).Perm m.entries
    unfold get
    split
    next value hfound => exact inFront_perm hdistinct hfound
    next => exact .refl _
  entries_put m key value hnew hroom := by
    change key ∉ m.entries.map Prod.fst at hnew
    change ((inFront key value m.entries).take m.room).Perm ((key, value) :: m.entries)
    rw [inFront_of_not_mem hnew, List.take_of_length_le hroom]
  entries_put_of_full m key value hnew hpos hfull := by
    change key ∉ m.entries.map Prod.fst at hnew
    change ∃ dropped ∈ m.entries, (dropped :: (inFront key value m.entries).take m.room).Perm
      ((key, value) :: m.entries)
    change 0 < m.room at hpos
    change m.entries.length = m.room at hfull
    rw [inFront_of_not_mem hnew, ← hfull]
    exact exists_dropped (key, value) (List.length_pos_iff.1 (hfull ▸ hpos))

end RecentMap

namespace Cache

/-- Whatever codes are evaluated one after the other, through a map that is empty at first, by any
registries and for any days: each comes to what it comes to by itself. All the time the map holds at
most 256 templates, each for a code of its own and as that code reads. -/
theorem evaluateAll_eq_map {State : Type} {map : BoundedMap Text Template State}
    (h : map.IsLawful) (queries : List Query) :
    map.evaluateAll (map.withRoom capacity) queries =
        queries.map (fun query => evaluate query.registry query.code query.day) ∧
      ∀ n, let kept := map.after (map.withRoom capacity) (queries.take n)
        (map.entries kept).length ≤ 256 ∧ ((map.entries kept).map Prod.fst).Nodup ∧
          ∀ code template, (code, template) ∈ map.entries kept → template = Template.parse code := by
  have hstart := BoundedMap.isSound_withRoom h (show 0 < capacity by decide)
  refine ⟨BoundedMap.evaluateAll_of_isSound h hstart queries, fun n => ?_⟩
  have hkept := BoundedMap.isSound_after h hstart (queries.take n)
  exact ⟨hkept.fits, hkept.distinct, fun code template hmem => hkept.read (code, template) hmem⟩

/-- Three hundred codes, each twice, for which the room does not suffice. -/
theorem evaluateAll_three_hundred_codes :
    let query : Nat → Query := fun n =>
      ⟨.builtin, '+' :: Decimal.natural n ++ " days".toList, ⟨2018, 1, 1⟩⟩
    let queries := (List.range 300).map query ++ (List.range 300).map query
    (RecentMap.operations : BoundedMap Text Template Cache).IsLawful ∧
      capacity < ((List.range 300).map query).length ∧
      Cache.empty.evaluateAll queries =
        queries.map (fun query => evaluate query.registry query.code query.day) ∧
      (RecentMap.operations.entries
        (RecentMap.operations.after Cache.empty queries)).length ≤ 256 := by
  intro query queries
  have hlawful : (RecentMap.operations : BoundedMap Text Template Cache).IsLawful :=
    RecentMap.isLawful_operations
  have hmore : capacity < ((List.range 300).map query).length := by simp [capacity]
  clear_value queries
  obtain ⟨hresults, hkept⟩ := evaluateAll_eq_map hlawful queries
  have hlength := (hkept queries.length).1
  rw [List.take_length] at hlength
  exact ⟨hlawful, hmore, hresults, hlength⟩

end Cache
end HolidayRules

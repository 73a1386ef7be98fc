import HolidayRules.Evaluation

set_option autoImplicit false

/-!
# The cache of read templates

Templates that were read lately are kept by their code in a map of limited room. What a map of this
kind offers is a record of operations, over which the evaluation of codes is written; the cache in use
drops the template that was not used for the longest time.
-/
namespace HolidayRules

/-- The operations of a map with room for so many entries. Finding a value may change the state, as it
may count as a use. -/
structure BoundedMap (Key Value State : Type) where
  withRoom : Nat → State
  room : State → Nat
  entries : State → List (Key × Value)
  get : State → Key → Option Value × State
  put : State → Key → Value → State

structure Query where
  registry : Registry
  code : Text
  day : Ymd

namespace BoundedMap

variable {State : Type} (map : BoundedMap Text Template State)

def template (kept : State) (code : Text) : Template × State :=
  match map.get kept code with
  | (some template, after) => (template, after)
  | (none, after) =>
    let template := Template.parse code
    (template, map.put after code template)

def evaluate (kept : State) (query : Query) : Except ExtensionError Outcome × State :=
  let (template, after) := map.template kept query.code
  (template.evaluate query.registry query.day, after)

def evaluateAll : State → List Query → List (Except ExtensionError Outcome)
  | _, [] => []
  | kept, query :: rest =>
    let (result, after) := map.evaluate kept query
    result :: evaluateAll after rest

end BoundedMap

/-- Entries by their last use, the latest first. -/
structure RecentMap (Key Value : Type) where
  room : Nat
  entries : List (Key × Value)

namespace RecentMap

variable {Key Value : Type} [BEq Key]

def inFront (key : Key) (value : Value) (entries : List (Key × Value)) : List (Key × Value) :=
  (key, value) :: entries.filter fun entry => entry.1 != key

def get (m : RecentMap Key Value) (key : Key) : Option Value × RecentMap Key Value :=
  match m.entries.lookup key with
  | some value => (some value, { m with entries := inFront key value m.entries })
  | none => (none, m)

/-- Where the room does not suffice the entry whose last use is longest ago is dropped. -/
def put (m : RecentMap Key Value) (key : Key) (value : Value) : RecentMap Key Value :=
  { m with entries := (inFront key value m.entries).take m.room }

def operations : BoundedMap Key Value (RecentMap Key Value) where
  withRoom n := ⟨n, []⟩
  room := room
  entries := entries
  get := get
  put := put

end RecentMap

abbrev Cache := RecentMap Text Template

namespace Cache

def capacity : Nat := 256

def empty : Cache := RecentMap.operations.withRoom capacity

def evaluateAll (cache : Cache) (queries : List Query) : List (Except ExtensionError Outcome) :=
  RecentMap.operations.evaluateAll cache queries

end Cache
end HolidayRules

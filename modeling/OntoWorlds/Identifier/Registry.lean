import OntoWorlds.Identifier.Base
import OntoWorlds.Search

/-!
# OntoWorlds — the registry of identifiers

A registry hands out identifiers: to every id at most one name and at most one alias, never the
same identifier twice. A second request for the same id and the same purpose gets the first answer.

* `Registry.reserve` finds the identifier: the base itself if it is unused, else the base followed
  by a number. The registry remembers for each base the number to try next, since all smaller ones
  are known to be used.
* `Registry.name`, `Registry.alias` answer from the record or reserve.
-/

namespace OntoWorlds

/-- The identifiers given so far. -/
structure Registry where
  names : List (ElementId × String) := []
  aliases : List (ElementId × String) := []
  /-- Every identifier handed out. -/
  used : List String := []
  /-- For a base that was wanted again, the next number to try. -/
  nextNumber : List (String × Nat) := []
deriving Repr, Inhabited

namespace Registry

/-- The name given to the id. -/
def nameOf? (r : Registry) (id : ElementId) : Option String := r.names.lookup id

/-- The alias given to the id. -/
def aliasOf? (r : Registry) (id : ElementId) : Option String := r.aliases.lookup id

/-- The identifier has been handed out. -/
def isUsed (r : Registry) (identifier : String) : Bool := r.used.contains identifier

/-- The number to start from when the base is used already. -/
def startNumber (r : Registry) (base : String) : Nat := (r.nextNumber.lookup base).getD 1

/-- The first number that makes the base an unused identifier. -/
def freeNumber (r : Registry) (base : String) : Nat :=
  firstFree (fun n => r.isUsed (base ++ toString n)) r.used.length (r.startNumber base)

/-- Reserves the base, or the base and a number if it is used. -/
def reserve (r : Registry) (base : String) : String × Registry :=
  if r.isUsed base then
    -- the next search for the base begins behind the number that is taken now
    let n := r.freeNumber base
    let identifier := base ++ toString n
    (identifier,
      { r with used := identifier :: r.used, nextNumber := (base, n + 1) :: r.nextNumber })
  else (base, { r with used := base :: r.used })

/-- What is reserved is used from then on, and nothing else is. -/
theorem used_reserve (r : Registry) (base : String) :
    (r.reserve base).2.used = (r.reserve base).1 :: r.used := by
  unfold reserve
  split <;> rfl

/-- Reserving an identifier gives it to no id as a name. -/
theorem names_reserve (r : Registry) (base : String) : (r.reserve base).2.names = r.names := by
  unfold reserve
  split <;> rfl

/-- Reserving an identifier gives it to no id as an alias. -/
theorem aliases_reserve (r : Registry) (base : String) :
    (r.reserve base).2.aliases = r.aliases := by
  unfold reserve
  split <;> rfl

/-- The name of an id, reserved from the base if it has none. -/
def name (r : Registry) (id : ElementId) (base : String) : String × Registry :=
  match r.nameOf? id with
  | some given => (given, r)
  | none =>
    let (given, r) := r.reserve base
    (given, { r with names := (id, given) :: r.names })

/-- The alias of an id, reserved from the base if it has none. -/
def «alias» (r : Registry) (id : ElementId) (base : String) : String × Registry :=
  match r.aliasOf? id with
  | some given => (given, r)
  | none =>
    let (given, r) := r.reserve base
    (given, { r with aliases := (id, given) :: r.aliases })

/-- A name that has been asked for is kept. -/
theorem nameOf?_name (r : Registry) (id : ElementId) (base : String) :
    (r.name id base).2.nameOf? id = some (r.name id base).1 := by
  unfold name
  split
  · assumption
  · simp [nameOf?]

/-- A name once given is given again, whatever the base. -/
theorem name_of_nameOf? {r : Registry} {id : ElementId} {given : String}
    (h : r.nameOf? id = some given) (base : String) : r.name id base = (given, r) := by
  rw [name, h]

/-- An alias that has been given is given again, and nothing is reserved. -/
theorem alias_of_aliasOf? {r : Registry} {id : ElementId} {given : String}
    (h : r.aliasOf? id = some given) (base : String) : r.alias id base = (given, r) := by
  rw [Registry.alias, h]

end Registry

end OntoWorlds

/-!
# OntoWorlds — run scopes

The bounds of the run commands at the end of a module.
-/

namespace OntoWorlds

/-- The scopes of the run commands, with their defaults. -/
structure RunScope where
  /-- The default scope of every signature. -/
  scope : Nat := 10
  /-- The width of integers in bits. -/
  intBitwidth : Nat := 7
  /-- The number of worlds in the run with several of them. -/
  worlds : Nat := 3
deriving DecidableEq, Repr, Inhabited

end OntoWorlds

import OntoWorlds.Json.Codec
import OntoWorlds.RunScope

/-!
# OntoWorlds — run scopes as documents

The JSON form of run scopes: a record of three numbers, each with a default, and no other key.
-/

namespace OntoWorlds

open Json

namespace RunScope

/-- The record of the options. It takes no other keys. -/
def record : Record RunScope where
  title := "struct TransformOptions"
  fields :=
    [Codec.word.field "scope" false RunScope.scope fun v o => { o with scope := v },
      Codec.word.field "intBitwidth" false RunScope.intBitwidth
        fun v o => { o with intBitwidth := v },
      Codec.word.field "worlds" false RunScope.worlds fun v o => { o with worlds := v }]
  blank := {}
  isClosed := true

/-- Reads the text of a document of options. -/
def ofJson (text : String) : Except Problem RunScope := readDocument record.read text

end RunScope

end OntoWorlds

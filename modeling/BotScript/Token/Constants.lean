import BotScript.ErrorCode

namespace BotScript

/-!
# Named constants

Identifiers found in this table are read as numbers.  The table only grows:
defining a name a second time keeps its first value.
-/

/-- A table of named integers, in order of definition. -/
structure Constants where
  entries : List (String × Int64)
  deriving Repr, DecidableEq, Inhabited

namespace Constants

/-- The table without entries. -/
def empty : Constants :=
  ⟨[]⟩

/-- The value of a name, if it is defined. -/
def get? (table : Constants) (name : String) : Option Int64 :=
  table.entries.lookup name

/-- Define a name; the flag tells whether the name was new. -/
def define (table : Constants) (name : String) (value : Int64) : Bool × Constants :=
  match table.get? name with
  | some _ => (false, table)
  | none => (true, ⟨table.entries ++ [(name, value)]⟩)

/-- The number of defined names. -/
def size (table : Constants) : Nat :=
  table.entries.length

/-- The table that names every error code. -/
def errorCodes : Constants :=
  ⟨ErrorCode.all.map fun code => (code.name, code.number.toInt64)⟩

end Constants

end BotScript

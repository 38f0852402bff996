import HttpEngine.Text.Ascii
import HttpEngine.Text.Blank
import HttpEngine.Text.Map
import HttpEngine.Text.Split
/-!
# Header fields

The header fields of a message are a text map whose names are looked up and replaced **up to
case**, while each keeps the spelling it was given last. Setting a name removes every other
spelling of it, so a map built by `set` alone never holds two spellings of one name; a map that
was built by inserting entries directly may, and then the first in order of names is found.

A comma-separated value is read as a list of options, each trimmed and compared up to case.
-/

namespace HttpEngine

open Text

/-- The header fields of a message. -/
abbrev Fields := TextMap

namespace Fields

/-- The field of a name, as it is spelt. -/
def field? (fs : Fields) (name : String) : Option (String × String) :=
  let folded := foldCase name
  fs.findKey? fun key => agreesWith key folded

/-- The value of the field of a name. -/
def value? (fs : Fields) (name : String) : Option String := (fs.field? name).map (·.2)

/-- Whether there is a field of a name. -/
def has (fs : Fields) (name : String) : Bool := (fs.value? name).isSome

/-- The fields without any spelling of a name. -/
def drop (fs : Fields) (name : String) : Fields :=
  let folded := foldCase name
  fs.filterKeys fun key => !agreesWith key folded

/-- The fields with a field added, in place of every spelling of its name. -/
def set (fs : Fields) (name value : String) : Fields := (fs.drop name).insert name value

/-- The fields with a field added unless its name is present. -/
def setDefault (fs : Fields) (name value : String) : Fields :=
  if fs.has name then fs else fs.insert name value

/-- Whether the list value of the field of a name holds an option. -/
def hasOption (fs : Fields) (name option : String) : Bool :=
  match fs.value? name with
  | some value =>
    (value.toList.splitOn ',').any fun piece => sameFolded (String.ofList (trim piece)) option
  | none => false

/-- No two names of a field map agree up to case. -/
def Distinct (fs : Fields) : Prop :=
  fs.toList.Pairwise fun a b => sameFolded a.1 b.1 = false

end Fields

end HttpEngine

import Reckoner.Number
import Reckoner.Text.Quoted

/-!
# Misfits

Values that may stand where an expression should. All that matters about them is the name of their type and how they are written, plainly or quoted.
-/

namespace Reckoner

structure Misfit where
  typeName : String
  plain : String
  quoted : String
deriving DecidableEq, Repr

namespace Misfit

def ofText (text : String) : Misfit := ⟨"str", text, Text.quoted text⟩

def ofInt (n : Int) : Misfit := ⟨"int", toString n, toString n⟩

def ofWide (x : Wide) : Misfit := ⟨"float", x.write, x.write⟩

def ofBool (b : Bool) : Misfit := if b then ⟨"bool", "True", "True"⟩ else ⟨"bool", "False", "False"⟩

def absent : Misfit := ⟨"NoneType", "None", "None"⟩

/-- A list shows its items quoted, in either form. -/
def ofList (items : List Misfit) : Misfit :=
  let text := "[" ++ ", ".intercalate (items.map quoted) ++ "]"
  ⟨"list", text, text⟩

def ofRecord (entries : List (String × Misfit)) : Misfit :=
  let text := "\x7b" ++ ", ".intercalate (entries.map fun (key, value) => Text.quoted key ++ ": " ++ value.quoted) ++ "\x7d"
  ⟨"dict", text, text⟩

end Misfit

end Reckoner

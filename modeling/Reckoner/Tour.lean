import Reckoner.Line
import Reckoner.Number.Computed

/-!
# A tour of the calculator

A fixed list of lines, each shown with its tokens, its tree, its result or error, and the variables after it. Of a line that does not parse only the error is shown.
-/

namespace Reckoner.Tour

def lines : List String := [
  "5",
  "1 + 1",
  "4 + 6 * 3",
  "(4 + 6)",
  "(4+6) * 3",
  "1 - 2 - 3",
  "7/6/2000",
  "2^3^2",
  "8√3",
  "foo = (1 + 14 * (54^2))",
  "foo / 2",
  "a = b = 10",
  "3.5",
  "1 2 + 3",
  "-1",
  "(1 + 2",
  "1 % 2",
  "undefined + 1"]

def showVariables (vars : Variables) : String :=
  let entries := vars.toList.map fun (name, value) => Text.quoted name ++ ": np.float32(" ++ Number.Library.display value ++ ")"
  "\x7b" ++ ", ".intercalate entries ++ "\x7d"

def showResult (line : Line) : String :=
  match line.result, line.log with
  | .error e, _ => e.message
  | .ok (some value), _ => "result: " ++ value.write
  | .ok none, [.assigned name value] => "assigned: " ++ name ++ " = " ++ value.write
  | .ok none, _ => ""

/-- One stop of the tour: the lines shown, and the variables after it. -/
def stop (text : String) (vars : Variables) : List String × Variables :=
  let tokens := Token.scan text
  let head := ["==========", "code: " ++ Text.quoted text, "tokens: " ++ Token.renderAll tokens]
  match Parser.parseTokens tokens with
  | .error d => (head ++ [d.message], vars)
  | .ok ⟨tree, _⟩ =>
    let line := Line.ofTree tree vars
    (head ++ ["ast: " ++ tree.render, showResult line, "variables: " ++ showVariables line.vars], line.vars)

def shown : List String → Variables → List String
  | [], _ => []
  | text :: rest, vars =>
    let (lines, after) := stop text vars
    lines ++ shown rest after

def output : String := String.join ((shown lines ∅).map (· ++ "\n"))

end Reckoner.Tour

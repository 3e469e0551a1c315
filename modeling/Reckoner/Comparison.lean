import Reckoner.Line
import Reckoner.Number.Computed
import Reckoner.Reference.Computed
import Reckoner.Reference.Denotation

/-!
# Comparing the calculator with the reference

Both sides of a comparison give a wide number or a message. The calculator takes an expression without variables, an assignment included, which it does not understand.
-/

namespace Reckoner.Comparison

def calculated [Number.Library] (text : String) : Except String Wide :=
  match Parser.parse text with
  | .error d => .error d.message
  | .ok ⟨tree, _⟩ =>
    match tree.evaluate ∅ with
    | .error e => .error e.message
    | .ok x => .ok (x.convert .double)

def expected [Reference.Library] (text : String) : Except String Wide :=
  (Reference.denotation .usual text).mapError Reference.Error.message

end Reckoner.Comparison

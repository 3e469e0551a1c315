import Reckoner.Token

/-!
# A cursor over tokens

A cursor is a gap in a list of elements. An element is a token of its own or the sentinel itself, which is told apart from every token, also from a stop token that looks the same. The cursor steps over tokens, stop tokens included, and never over the sentinel. Where the list ends it shows the sentinel too, so once it shows the sentinel it stays where it is and shows it for ever.
-/

namespace Reckoner.Token

/-- An element of a list under a cursor. -/
inductive Element where
  | own (token : Token)
  | sentinel
deriving DecidableEq, Repr

def Element.token : Element → Token
  | own token => token
  | sentinel => Token.sentinel

instance : Coe Element Token := ⟨Element.token⟩

structure Cursor where
  /-- The elements stepped over, the latest first. -/
  passed : List Element
  /-- The elements still to come. -/
  ahead : List Element
deriving DecidableEq, Repr

namespace Cursor

def ofElements (elements : List Element) : Cursor := ⟨[], elements⟩

def ofTokens (tokens : List Token) : Cursor := ofElements (tokens.map .own)

def tokens (cursor : Cursor) : List Token := (cursor.passed.reverse ++ cursor.ahead).map Element.token

def rest (cursor : Cursor) : List Token := cursor.ahead.map Element.token

def position (cursor : Cursor) : Nat := cursor.passed.length

def remaining (cursor : Cursor) : Nat := cursor.ahead.length

def peek (cursor : Cursor) : Element := cursor.ahead.headD .sentinel

/-- The element ahead, and the cursor behind it unless it is the sentinel. -/
def next (cursor : Cursor) : Element × Cursor :=
  match cursor.ahead with
  | .own token :: ahead => (.own token, ⟨.own token :: cursor.passed, ahead⟩)
  | _ => (.sentinel, cursor)

theorem next_fst (cursor : Cursor) : cursor.next.1 = cursor.peek := by
  obtain ⟨passed, ahead⟩ := cursor
  cases ahead with
  | nil => rfl
  | cons element ahead => cases element <;> rfl

theorem position_add_remaining (cursor : Cursor) : cursor.position + cursor.remaining = cursor.tokens.length := by
  simp [position, remaining, tokens]

theorem length_rest (cursor : Cursor) : cursor.rest.length = cursor.remaining := by simp [rest, remaining]

theorem token_peek {cursor : Cursor} {token : Token} {later : List Token} (h : cursor.rest = token :: later) :
    cursor.peek.token = token := by
  obtain ⟨element, ahead, hahead, htoken, -⟩ := List.map_eq_cons_iff.mp h
  rw [peek, hahead]
  exact htoken

theorem peek_of_rest_nil {cursor : Cursor} (h : cursor.rest = []) : cursor.peek = .sentinel := by
  rw [peek, List.map_eq_nil_iff.mp h]
  rfl

theorem tokens_next (cursor : Cursor) : cursor.next.2.tokens = cursor.tokens := by
  obtain ⟨passed, ahead⟩ := cursor
  cases ahead with
  | nil => rfl
  | cons element ahead =>
    cases element with
    | sentinel => rfl
    | own token => simp [next, tokens]

/-- Only a sentinel could be in the way, and it looks like a stop token. -/
theorem rest_next {cursor : Cursor} {token : Token} {later : List Token} (h : cursor.rest = token :: later)
    (hkind : token.kind ≠ .stop) : cursor.next.2.rest = later := by
  obtain ⟨element, ahead, hahead, htoken, hlater⟩ := List.map_eq_cons_iff.mp h
  cases element with
  | own token =>
    rw [next, hahead]
    exact hlater
  | sentinel => exact absurd (congrArg Token.kind htoken.symm) hkind

/-! ### Runs of steps -/

inductive Step where
  | peek
  | next
  | remaining
deriving DecidableEq, Repr

inductive Answer where
  | token (element : Element)
  | count (count : Nat)
deriving DecidableEq, Repr

def step (cursor : Cursor) : Step → Answer × Cursor
  | .peek => (.token cursor.peek, cursor)
  | .next => (.token cursor.next.1, cursor.next.2)
  | .remaining => (.count cursor.remaining, cursor)

/-- The answers to a run of steps, each with the position after it. -/
def run : Cursor → List Step → List (Answer × Nat)
  | _, [] => []
  | cursor, step :: steps =>
    let (answer, after) := cursor.step step
    (answer, after.position) :: run after steps

end Cursor

end Reckoner.Token

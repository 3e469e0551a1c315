import Reckoner.Reference.Term.Reader

/-!
# Equations of the reference reader

The functions of the reference reader come with proofs that symbols are used up. Here they are without these proofs, each with the equations that the arithmetic of numbers, brackets and operators needs; signs, calls and empty brackets do not occur there. How far each function reads shows in the strength of the symbol that follows: a function leaves alone what is looser than its own operators.
-/

namespace Reckoner.Reference

/-- How tightly a symbol holds on to a finished operand in front of it. -/
def Symbol.strength : Symbol → Nat
  | opening => 4
  | operator .pow => 3
  | operator .mul => 2
  | operator .div => 2
  | operator .floorDiv => 2
  | operator .add => 1
  | operator .sub => 1
  | _ => 0

def Leading : List Symbol → Prop
  | .number _ :: _ => True
  | .opening :: _ => True
  | _ => False

theorem Leading.append {symbols : List Symbol} (h : Leading symbols) (rest : List Symbol) :
    Leading (symbols ++ rest) := by
  cases symbols with
  | nil => exact h.elim
  | cons first more => cases first <;> exact h

theorem Leading.head?_ne_closing {symbols : List Symbol} (h : Leading symbols) : symbols.head? ≠ some .closing := by
  intro hhead
  cases symbols with
  | nil => exact h
  | cons first more =>
    obtain rfl := Option.some.inj hhead
    exact h

namespace Term

/-- The symbols begin with one that is looser than the limit, or there is none. -/
def Loose (limit : Nat) (symbols : List Symbol) : Prop := ∀ symbol ∈ symbols.head?, symbol.strength < limit

theorem loose_nil (limit : Nat) : Loose limit [] := by simp [Loose]

theorem loose_cons {limit : Nat} {symbol : Symbol} {rest : List Symbol} :
    Loose limit (symbol :: rest) ↔ symbol.strength < limit := by simp [Loose]

theorem Loose.mono {limit other : Nat} {symbols : List Symbol} (h : Loose limit symbols) (hle : limit ≤ other) :
    Loose other symbols := fun symbol hsymbol => Nat.lt_of_lt_of_le (h symbol hsymbol) hle

/-! ### The readers without proofs -/

def takeAtom (symbols : List Symbol) : Option (Term × List Symbol) := (readAtom symbols).map Subtype.val

def takePrimary (symbols : List Symbol) : Option (Term × List Symbol) := (readPrimary symbols).map Subtype.val

def takePower (symbols : List Symbol) : Option (Term × List Symbol) := (readPower symbols).map Subtype.val

def takeSigned (symbols : List Symbol) : Option (Term × List Symbol) := (readSigned symbols).map Subtype.val

def takeProduct (symbols : List Symbol) : Option (Term × List Symbol) := (readProduct symbols).map Subtype.val

def takeFactors (left : Term) (symbols : List Symbol) : Option (Term × List Symbol) :=
  (readFactors left symbols).map Subtype.val

def takeSum (symbols : List Symbol) : Option (Term × List Symbol) := (readSum symbols).map Subtype.val

def takeSummands (left : Term) (symbols : List Symbol) : Option (Term × List Symbol) :=
  (readSummands left symbols).map Subtype.val

/-! ### Operands -/

theorem takeAtom_number (n : Nat) (rest : List Symbol) : takeAtom (.number n :: rest) = some (number n, rest) := by
  simp [takeAtom, readAtom]

theorem takeAtom_opening {rest after : List Symbol} {term : Term} (hrest : rest.head? ≠ some .closing)
    (hsum : takeSum rest = some (term, .closing :: after)) : takeAtom (.opening :: rest) = some (term, after) := by
  obtain ⟨⟨result, shorter⟩, hread, rfl⟩ := Option.map_eq_some_iff.mp hsum
  have henclosed : readEnclosed rest = some ⟨(term, after), Nat.lt_of_succ_lt shorter⟩ := by
    rw [readEnclosed, hread]
  unfold takeAtom
  rw [readAtom]
  · rw [henclosed]
    rfl
  · rintro others rfl
    exact hrest rfl

theorem takePrimary_of_atom {symbols after : List Symbol} {term : Term} (hatom : takeAtom symbols = some (term, after))
    (hafter : Loose 4 after) : takePrimary symbols = some (term, after) := by
  obtain ⟨⟨result, shorter⟩, hread, rfl⟩ := Option.map_eq_some_iff.mp hatom
  have hcalls : readCalls term after = some ⟨(term, after), Nat.le_refl _⟩ := by
    cases after with
    | nil => rw [readCalls]; all_goals simp
    | cons symbol others =>
      have hsymbol : symbol ≠ .opening := by
        rintro rfl
        exact absurd (loose_cons.mp hafter) (by decide)
      rw [readCalls]
      all_goals
        intro tail h
        exact hsymbol (List.cons.inj h).1
  unfold takePrimary
  rw [readPrimary, hread]
  dsimp only
  rw [hcalls]
  rfl

/-! ### Powers -/

theorem takePower_pow {symbols after rest : List Symbol} {base exponent : Term}
    (hbase : takePrimary symbols = some (base, .operator .pow :: after))
    (hexponent : takeSigned after = some (exponent, rest)) :
    takePower symbols = some (binary .pow base exponent, rest) := by
  obtain ⟨⟨result, shorter⟩, hread, rfl⟩ := Option.map_eq_some_iff.mp hbase
  obtain ⟨⟨result', shorter'⟩, hread', rfl⟩ := Option.map_eq_some_iff.mp hexponent
  unfold takePower
  rw [readPower, hread]
  dsimp only
  rw [hread']
  rfl

theorem takePower_of_primary {symbols after : List Symbol} {term : Term}
    (hprimary : takePrimary symbols = some (term, after)) (hafter : Loose 3 after) :
    takePower symbols = some (term, after) := by
  obtain ⟨⟨result, shorter⟩, hread, rfl⟩ := Option.map_eq_some_iff.mp hprimary
  unfold takePower
  rw [readPower, hread]
  split
  · contradiction
  · next heq =>
    cases heq
    exact absurd (loose_cons.mp hafter) (by decide)
  · next heq =>
    cases heq
    rfl

theorem takeSigned_of_leading {symbols : List Symbol} (h : Leading symbols) :
    takeSigned symbols = takePower symbols := by
  unfold takeSigned takePower
  match symbols, h with
  | .number n :: rest, _ => rw [readSigned]; all_goals simp
  | .opening :: rest, _ => rw [readSigned]; all_goals simp

/-! ### Products -/

theorem takeProduct_eq (symbols : List Symbol) :
    takeProduct symbols = (takeSigned symbols).bind fun (first, after) => takeFactors first after := by
  unfold takeProduct takeSigned takeFactors
  rw [readProduct]
  cases readSigned symbols with
  | none => rfl
  | some result =>
    obtain ⟨⟨first, after⟩, shorter⟩ := result
    dsimp only [Option.map, Option.bind]
    cases readFactors first after <;> rfl

theorem takeFactors_operator {operator : Operator} (hoperator : (Symbol.operator operator).strength = 2) (left : Term)
    (rest : List Symbol) :
    takeFactors left (.operator operator :: rest) =
      (takeSigned rest).bind fun (right, after) => takeFactors (binary operator left right) after := by
  have hfactor : operator = .mul ∨ operator = .div ∨ operator = .floorDiv := by
    revert hoperator
    cases operator <;> decide
  unfold takeFactors takeSigned
  rw [readFactors, if_pos hfactor]
  cases readSigned rest with
  | none => rfl
  | some result =>
    obtain ⟨⟨right, after⟩, shorter⟩ := result
    dsimp only [Option.map, Option.bind]
    cases readFactors (binary operator left right) after <;> rfl

theorem takeFactors_of_loose {rest : List Symbol} (hrest : Loose 2 rest) (left : Term) :
    takeFactors left rest = some (left, rest) := by
  unfold takeFactors
  cases rest with
  | nil => rw [readFactors]; all_goals simp
  | cons symbol others =>
    have hstrength := loose_cons.mp hrest
    cases symbol with
    | operator operator =>
      have hfactor : ¬ (operator = .mul ∨ operator = .div ∨ operator = .floorDiv) := by
        revert hstrength
        cases operator <;> decide
      rw [readFactors, if_neg hfactor]
      rfl
    | _ => rw [readFactors]; all_goals simp

/-! ### Sums -/

theorem takeSum_eq (symbols : List Symbol) :
    takeSum symbols = (takeProduct symbols).bind fun (first, after) => takeSummands first after := by
  unfold takeSum takeProduct takeSummands
  rw [readSum]
  cases readProduct symbols with
  | none => rfl
  | some result =>
    obtain ⟨⟨first, after⟩, shorter⟩ := result
    dsimp only [Option.map, Option.bind]
    cases readSummands first after <;> rfl

theorem takeSummands_operator {operator : Operator} (hoperator : (Symbol.operator operator).strength = 1) (left : Term)
    (rest : List Symbol) :
    takeSummands left (.operator operator :: rest) =
      (takeProduct rest).bind fun (right, after) => takeSummands (binary operator left right) after := by
  have hsummand : operator = .add ∨ operator = .sub := by
    revert hoperator
    cases operator <;> decide
  unfold takeSummands takeProduct
  rw [readSummands, if_pos hsummand]
  cases readProduct rest with
  | none => rfl
  | some result =>
    obtain ⟨⟨right, after⟩, shorter⟩ := result
    dsimp only [Option.map, Option.bind]
    cases readSummands (binary operator left right) after <;> rfl

theorem takeSummands_of_loose {rest : List Symbol} (hrest : Loose 1 rest) (left : Term) :
    takeSummands left rest = some (left, rest) := by
  unfold takeSummands
  cases rest with
  | nil => rw [readSummands]; all_goals simp
  | cons symbol others =>
    have hstrength := loose_cons.mp hrest
    cases symbol with
    | operator operator =>
      have hsummand : ¬ (operator = .add ∨ operator = .sub) := by
        revert hstrength
        cases operator <;> decide
      rw [readSummands, if_neg hsummand]
      rfl
    | _ => rw [readSummands]; all_goals simp

theorem ofSymbols?_of_sum {symbols : List Symbol} {term : Term} (hsum : takeSum symbols = some (term, [])) :
    ofSymbols? symbols = some term := by
  obtain ⟨⟨result, shorter⟩, hread, rfl⟩ := Option.map_eq_some_iff.mp hsum
  rw [ofSymbols?, hread]

end Term

end Reckoner.Reference

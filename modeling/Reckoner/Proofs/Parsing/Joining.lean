import Reckoner.Proofs.Evaluation.Completion
import Reckoner.Proofs.Parsing.RootSplit
import Reckoner.Proofs.Parsing.Substitution
import Reckoner.Proofs.Parsing.ViablePrefix

/-!
# Joining expressions

Two expressions joined by an operator are an expression again, but not one with the two trees as its operands: operators at their roots may be looser than the one between them. That there is a tree at all is seen by the sweep, which knows nothing of the grouping and goes through an expression from any depth of brackets back to the same depth. What is left of the two trees is their yield, the words and operators from left to right, because the tokens alone determine it.
-/

open Reckoner.Parser Reckoner.Grammar

namespace Reckoner

/-! ### Expressions as the sweep sees them -/

namespace Sweep

variable {front back inner tokens : List Token} {operator : String}

theorem State.walk_append (state : State) (front back : List Token) :
    state.walk (front ++ back) = (state.walk front).bind fun next => next.walk back := by
  induction front generalizing state with
  | nil => rfl
  | cons token rest ih =>
    rw [List.cons_append, walk, walk]
    cases state.step token with
    | go next => exact ih next
    | halt outcome => rfl

theorem State.walk_cons {state next : State} {token : Token} (hstep : state.step token = .go next)
    (rest : List Token) : state.walk (token :: rest) = next.walk rest := by
  rw [walk, hstep]

/-- The sweep goes through the tokens from where an operand is due to where one is complete, and as many brackets are open as before. -/
def Passes (tokens : List Token) : Prop :=
  ∀ depth, ∃ mode, mode ≠ .operand ∧ State.walk ⟨.operand, depth⟩ tokens = some ⟨mode, depth⟩

theorem walk_afterAtom (hatoms : ∀ token ∈ tokens, token.kind = .atom) (depth : Nat) :
    State.walk ⟨.afterAtom, depth⟩ tokens = some ⟨.afterAtom, depth⟩ := by
  induction tokens with
  | nil => rfl
  | cons token rest ih =>
    rw [State.walk_cons (step_atom (by simp) (hatoms token List.mem_cons_self) depth)]
    exact ih fun other hother => hatoms other (List.mem_cons_of_mem token hother)

theorem passes_atoms (hne : tokens ≠ []) (hatoms : ∀ token ∈ tokens, token.kind = .atom) : Passes tokens := by
  intro depth
  obtain ⟨first, more, rfl⟩ := List.exists_cons_of_ne_nil hne
  rw [State.walk_cons (step_atom (by simp) (hatoms first List.mem_cons_self) depth)]
  have hmore : ∀ token ∈ more, token.kind = .atom := fun token htoken =>
    hatoms token (List.mem_cons_of_mem first htoken)
  exact ⟨.afterAtom, by simp, walk_afterAtom hmore depth⟩

theorem Passes.bracket (h : Passes inner) : Passes (Token.opening :: inner ++ [Token.closing]) := by
  intro depth
  obtain ⟨mode, hmode, hwalk⟩ := h (depth + 1)
  have hopening : State.step ⟨.operand, depth⟩ Token.opening = .go ⟨.operand, depth + 1⟩ := rfl
  have hclosing : State.step ⟨mode, depth + 1⟩ Token.closing = .go ⟨.afterClose, depth⟩ := step_closing hmode
  refine ⟨.afterClose, by simp, ?_⟩
  rw [List.cons_append, State.walk_cons hopening, State.walk_append, hwalk]
  exact State.walk_cons hclosing []

theorem Passes.operation (hfront : Passes front) (hknown : (Binding.of? operator).isSome) (hback : Passes back) :
    Passes (front ++ ⟨.operator, operator⟩ :: back) := by
  intro depth
  obtain ⟨mode, hmode, hwalk⟩ := hfront depth
  have hstep : State.step ⟨mode, depth⟩ ⟨.operator, operator⟩ = .go ⟨.operand, depth⟩ := by
    rw [step_operator hmode rfl (ne_bracket_of_known hknown).2, if_pos hknown]
  rw [State.walk_append, hwalk, Option.bind_some, State.walk_cons hstep]
  exact hback depth

theorem passes_of_derives {level : Level} {tree : Expr} (h : Derives level tokens tree) : Passes tokens := by
  refine h.uniform (motive := fun tokens _ => Passes tokens) ?_ ?_ ?_
  · exact fun _ => passes_atoms
  · exact fun _ _ => Passes.bracket
  · exact fun _ _ _ _ _ hknown hfront hback => hfront.operation hknown hback

/-- The token lists that the sweep passes through are the expressions. -/
theorem passes_iff_exists_derives : Passes tokens ↔ ∃ tree, Derives .assignment tokens tree := by
  refine ⟨fun hpasses => ?_, fun ⟨tree, hderives⟩ => passes_of_derives hderives⟩
  obtain ⟨mode, hmode, hwalk⟩ := hpasses 0
  have hsweep : sweep tokens = .ok () := by
    rw [sweep, ← List.append_nil tokens, run_append hwalk]
    cases mode with
    | operand => exact absurd rfl hmode
    | afterAtom => rfl
    | afterClose => rfl
  obtain ⟨⟨tree, rest⟩, hparse⟩ := exists_parseTokens_iff.mpr hsweep
  obtain ⟨front, happend, hstops, hderives⟩ := parsePrefix_zero_eq_ok_iff.mp (parseTokens_eq_ok_iff.mp hparse)
  cases rest with
  | nil => exact ⟨tree, by rwa [happend, List.append_nil]⟩
  | cons token rest =>
    obtain ⟨modeThere, hmodeThere, hfront⟩ := passes_of_derives hderives 0
    rw [happend, State.walk_append, hfront, Option.bind_some, State.walk,
      step_of_ends hmodeThere (hstops token rfl)] at hwalk
    cases hwalk

end Sweep

/-! ### Yields -/

namespace Expr

variable {tree other : Expr}

/-- The words and operators of a tree, from left to right. -/
def yield : Expr → List Token
  | atom text => [⟨.atom, text⟩]
  | operation operator left right => left.yield ++ ⟨.operator, operator⟩ :: right.yield
  | misfit _ => []

theorem atoms_eq (tree : Expr) : tree.atoms = (tree.yield.filter isAtom).map Token.lexeme := by
  induction tree with
  | atom text => rfl
  | operation operator left right ihLeft ihRight => simp [atoms, yield, ihLeft, ihRight, isAtom]
  | misfit value => rfl

theorem operators_perm (tree : Expr) :
    tree.operators.Perm ((tree.yield.filter fun token => !isAtom token).map Token.lexeme) := by
  induction tree with
  | atom text => exact .refl []
  | operation operator left right ihLeft ihRight =>
    have hoperator : isAtom ⟨.operator, operator⟩ = false := rfl
    rw [operators, yield, List.filter_append, List.filter_cons_of_pos (by simp [hoperator]), List.map_append,
      List.map_cons]
    exact ((ihLeft.append ihRight).cons operator).trans List.perm_middle.symm
  | misfit value => exact .refl []

theorem atoms_eq_of_yield_eq (h : tree.yield = other.yield) : tree.atoms = other.atoms := by
  rw [atoms_eq, h, ← atoms_eq]

theorem operators_perm_of_yield_eq (h : tree.yield = other.yield) : tree.operators.Perm other.operators := by
  have hperm := operators_perm tree
  rw [h] at hperm
  exact hperm.trans (operators_perm other).symm

theorem Spellable.length_atoms (h : tree.Spellable) : tree.atoms.length = tree.operators.length + 1 := by
  induction tree with
  | atom text => rfl
  | operation operator left right ihLeft ihRight =>
    obtain ⟨-, hleft, hright⟩ := h
    rw [atoms, operators, List.length_append, List.length_cons, List.length_append, ihLeft hleft, ihRight hright]
    omega
  | misfit value => exact h.elim

end Expr

namespace Token

variable {front back run : List Token} {token : Token}

/-- What stands for a run of atoms, or for a token of another kind: the word, nothing for a bracket, and otherwise the token. -/
def condenseRun : List Token → List Token
  | [] => []
  | token :: rest =>
    if token.kind = .atom then [⟨.atom, spell (token :: rest)⟩]
    else if token = opening ∨ token = closing then []
    else [token]

/-- The words and operators of tokens in order: every longest run of atoms is one word, and brackets are left out. -/
def condense (tokens : List Token) : List Token := (tokens.splitBy fun a b => isAtom a && isAtom b).flatMap condenseRun

example : condense (scan "(a1-2)*(3)") =
    [⟨.atom, "a1"⟩, ⟨.operator, "-"⟩, ⟨.atom, "2"⟩, ⟨.operator, "*"⟩, ⟨.atom, "3"⟩] := by decide

theorem condense_run (hne : run ≠ []) (hatoms : ∀ token ∈ run, token.kind = .atom) :
    condense run = [⟨.atom, spell run⟩] := by
  have hrun : ∀ token ∈ run, isAtom token = true := fun token htoken => by simp [isAtom, hatoms token htoken]
  rw [condense, Text.splitBy_of_forall hne hrun, List.flatMap_singleton]
  obtain ⟨first, more, rfl⟩ := List.exists_cons_of_ne_nil hne
  exact if_pos (hatoms first List.mem_cons_self)

theorem condense_append_cons (hkind : token.kind ≠ .atom) (front back : List Token) :
    condense (front ++ token :: back) = condense front ++ condenseRun [token] ++ condense back := by
  have htoken : isAtom token = false := by simp [isAtom, hkind]
  rw [condense, Text.splitBy_append_cons htoken, List.flatMap_append, List.flatMap_cons, List.append_assoc]
  rfl

theorem condense_bracket (inner : List Token) : condense (opening :: inner ++ [closing]) = condense inner := by
  have hopening : opening.kind ≠ .atom := by decide
  have hclosing : closing.kind ≠ .atom := by decide
  have houter := condense_append_cons hopening [] (inner ++ [closing])
  have hbrackets : condenseRun [opening] = [] ∧ condenseRun [closing] = [] ∧ condense [] = [] := by decide
  rw [List.nil_append, ← List.cons_append] at houter
  rw [houter, condense_append_cons hclosing inner [], hbrackets.1, hbrackets.2.1, hbrackets.2.2]
  simp

theorem condense_operation {operator : String} (hknown : (Binding.of? operator).isSome) (front back : List Token) :
    condense (front ++ ⟨.operator, operator⟩ :: back) = condense front ++ ⟨.operator, operator⟩ :: condense back := by
  have hkind : (⟨.operator, operator⟩ : Token).kind ≠ .atom := by simp
  have hrun : condenseRun [⟨.operator, operator⟩] = [⟨.operator, operator⟩] := by
    rw [condenseRun, if_neg hkind, if_neg (not_or.mpr (ne_bracket_of_known hknown))]
  rw [condense_append_cons hkind, hrun, List.append_assoc, List.singleton_append]

end Token

namespace Grammar

variable {level : Level} {tokens front back : List Token} {tree left right : Expr} {operator : String}

/-- No word or operator is lost, repeated or moved, however they are grouped. -/
theorem Derives.yield_eq (h : Derives level tokens tree) : tree.yield = Token.condense tokens := by
  refine h.uniform (motive := fun tokens tree => tree.yield = Token.condense tokens) ?_ ?_ ?_
  · intro run hne hatoms
    rw [Expr.yield, Token.condense_run hne hatoms]
  · intro inner tree ih
    rw [ih, Token.condense_bracket]
  · intro operator front back left right hknown ihLeft ihRight
    rw [Expr.yield, ihLeft, ihRight, Token.condense_operation hknown]

theorem Derives.exists_join (hleft : Derives .assignment front left) (hknown : (Binding.of? operator).isSome)
    (hright : Derives .assignment back right) :
    ∃ tree, Derives .assignment (front ++ ⟨.operator, operator⟩ :: back) tree ∧
      tree.yield = (Expr.operation operator left right).yield := by
  have hpasses := (Sweep.passes_of_derives hleft).operation hknown (Sweep.passes_of_derives hright)
  obtain ⟨tree, hderives⟩ := Sweep.passes_iff_exists_derives.mp hpasses
  refine ⟨tree, hderives, ?_⟩
  rw [hderives.yield_eq, Token.condense_operation hknown, Expr.yield, hleft.yield_eq, hright.yield_eq]

end Grammar

end Reckoner

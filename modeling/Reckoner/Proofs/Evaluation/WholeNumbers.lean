import Reckoner.Proofs.Evaluation.Literals
import Reckoner.Proofs.Evaluation.Postfix
import Reckoner.Proofs.Number.Integers
import Reckoner.Proofs.Reference.Agreement

/-!
# Trees of whole numbers

A tree of whole numbers, sums, differences and products has an exact value. The calculator computes with rounded numbers, but as long as the exact value of every subtree is small none of them is rounded, and it comes to the exact value as well. The reference arithmetic keeps whole numbers whole and comes to it in any case.
-/

namespace Reckoner

open Binary

namespace Expr

/-- The operators that keep whole numbers whole, with what they compute. -/
def wholeOperation? : String → Option (Int → Int → Int)
  | "+" => some (· + ·)
  | "-" => some (· - ·)
  | "*" => some (· * ·)
  | _ => none

def whole? : Expr → Option Int
  | atom text => (number? text).map Int.ofNat
  | operation operator left right => do
    let compute ← wholeOperation? operator
    let a ← left.whole?
    let b ← right.whole?
    return compute a b
  | misfit _ => none

/-- All whole numbers that come up in a tree are small. -/
def Small (tree : Expr) : Prop :=
  ∀ part ∈ tree.subtrees, ∀ n, part.whole? = some n → n.natAbs ≤ Number.wholeBound

variable {tree left right : Expr} {operator text : String} {n : Int} {compute : Int → Int → Int}

theorem whole?_operation (hn : (operation operator left right).whole? = some n) : ∃ compute a b,
    wholeOperation? operator = some compute ∧ left.whole? = some a ∧ right.whole? = some b ∧ n = compute a b := by
  simp only [whole?, Option.bind_eq_bind, Option.bind_eq_some_iff] at hn
  obtain ⟨compute, hcompute, a, ha, b, hb, hresult⟩ := hn
  exact ⟨compute, a, b, hcompute, ha, hb, (Option.some.inj hresult).symm⟩

theorem Small.root (hsmall : tree.Small) (hn : tree.whole? = some n) : n.natAbs ≤ Number.wholeBound := by
  refine hsmall tree ?_ n hn
  cases tree <;> simp [subtrees]

theorem Small.operands (hsmall : (operation operator left right).Small) : left.Small ∧ right.Small :=
  ⟨fun part hpart => hsmall part (by simp [subtrees, hpart]), fun part hpart => hsmall part (by simp [subtrees, hpart])⟩

/-! ### The calculator -/

/-- An operator computes exactly what it computes of whole numbers, if the result is small. -/
theorem exists_operation?_exact [Number.Library] (hcompute : wholeOperation? operator = some compute) : ∃ rounded,
    operation? operator = some rounded ∧ ∀ x y (a b : Int), x.value? = some ((a : ℚ) : Extended) →
      y.value? = some ((b : ℚ) : Extended) → (compute a b).natAbs ≤ Number.wholeBound →
        (rounded x y).value? = some ((compute a b : ℚ) : Extended) := by
  have hf : 0 < Format.single.fractionBits := by decide
  unfold wholeOperation? at hcompute
  split at hcompute
  · obtain rfl := Option.some.inj hcompute
    refine ⟨_, rfl, fun x y a b hx hy hsmall => ?_⟩
    have hmem := Number.intCast_mem_values hsmall
    push_cast at hmem ⊢
    exact value?_add hx hf hy hmem
  · obtain rfl := Option.some.inj hcompute
    refine ⟨_, rfl, fun x y a b hx hy hsmall => ?_⟩
    have hmem := Number.intCast_mem_values hsmall
    push_cast at hmem ⊢
    exact value?_sub hx hf hy hmem
  · obtain rfl := Option.some.inj hcompute
    refine ⟨_, rfl, fun x y a b hx hy hsmall => ?_⟩
    have hmem := Number.intCast_mem_values hsmall
    push_cast at hmem ⊢
    exact value?_mul hx hf hy hmem
  · cases hcompute

theorem exists_read?_of_number? {m : Nat} (hnumber : number? text = some m) (hsmall : m ≤ Number.wholeBound) :
    ∃ x, Number.read? text = some x ∧ x.value? = some ((m : ℚ) : Extended) := by
  unfold number? at hnumber
  split_ifs at hnumber with hdigits
  obtain rfl := Option.some.inj hnumber
  have hread := Number.readValue?_of_digits (fun hnil => hdigits.1 (String.toList_eq_nil_iff.mp hnil))
    (List.all_eq_true.mp hdigits.2) hsmall
  rwa [String.ofList_toList, Number.readValue?, Option.bind_eq_some_iff] at hread

/-- Nothing is rounded where all whole numbers are small. -/
theorem exists_evaluate_of_whole? [Number.Library] (hsmall : tree.Small) (hn : tree.whole? = some n) (vars : Variables) :
    ∃ x, tree.evaluate vars = .ok x ∧ x.value? = some ((n : ℚ) : Extended) := by
  induction tree generalizing n with
  | atom text =>
    have hroot := hsmall.root hn
    obtain ⟨m, hnumber, rfl⟩ := Option.map_eq_some_iff.mp hn
    obtain ⟨x, hread, hvalue⟩ := exists_read?_of_number? hnumber hroot
    exact ⟨x, evaluate_atom_of_read? hread vars, hvalue⟩
  | operation operator left right ihLeft ihRight =>
    have hroot := hsmall.root hn
    obtain ⟨compute, a, b, hcompute, ha, hb, rfl⟩ := whole?_operation hn
    obtain ⟨x, hx, hxValue⟩ := ihLeft hsmall.operands.1 ha
    obtain ⟨y, hy, hyValue⟩ := ihRight hsmall.operands.2 hb
    obtain ⟨rounded, hoperation, hexact⟩ := exists_operation?_exact hcompute
    refine ⟨rounded x y, ?_, hexact x y a b hxValue hyValue hroot⟩
    simp only [evaluate, hx, hy, hoperation, bind, Except.bind]
  | misfit value => cases hn

/-! ### The reference -/

theorem exists_ofText?_exact [Reference.Library] (hcompute : wholeOperation? operator = some compute) : ∃ sign,
    Reference.Operator.ofText? operator = some sign ∧ ∀ a b,
      Reference.Quantity.apply sign (.whole a) (.whole b) = .ok (.whole (compute a b)) := by
  unfold wholeOperation? at hcompute
  split at hcompute
  · obtain rfl := Option.some.inj hcompute
    exact ⟨.add, rfl, fun a b => rfl⟩
  · obtain rfl := Option.some.inj hcompute
    exact ⟨.sub, rfl, fun a b => rfl⟩
  · obtain rfl := Option.some.inj hcompute
    exact ⟨.mul, rfl, fun a b => rfl⟩
  · cases hcompute

/-- The reference keeps whole numbers whole, whatever their size. -/
theorem reckon_of_whole? [Reference.Library] (hn : tree.whole? = some n) : tree.reckon = some (.ok (.whole n)) := by
  induction tree generalizing n with
  | atom text =>
    obtain ⟨m, hnumber, rfl⟩ := Option.map_eq_some_iff.mp hn
    rw [reckon, hnumber]
    rfl
  | operation operator left right ihLeft ihRight =>
    obtain ⟨compute, a, b, hcompute, ha, hb, rfl⟩ := whole?_operation hn
    obtain ⟨sign, htext, hexact⟩ := exists_ofText?_exact hcompute
    simp only [reckon, htext, ihLeft ha, ihRight hb, bind, Option.bind, Except.bind, hexact]
    rfl
  | misfit value => cases hn

end Expr

/-! ### Texts of whole numbers -/

structure Reference.WholeArithmetic (text : String) : Prop extends Arithmetic text where
  slash_notMem : '/' ∉ text.toList
  caret_notMem : '^' ∉ text.toList

namespace Grammar

def Whole (token : Token) : Prop := token.Arithmetic ∧ token.lexeme ≠ "/" ∧ token.lexeme ≠ "^"

theorem whole_of_mem_scan {text : String} (h : Reference.WholeArithmetic text) : ∀ token ∈ Token.scan text, Whole token := by
  intro token htoken
  refine ⟨h.tokens token htoken, ?_⟩
  obtain ⟨c, hc, rfl⟩ := List.mem_map.mp htoken
  have hmem := (List.mem_filter.mp hc).1
  constructor
  · intro hslash
    obtain rfl : c = '/' := by simpa [Token.ofChar] using congrArg String.toList hslash
    exact h.slash_notMem hmem
  · intro hcaret
    obtain rfl : c = '^' := by simpa [Token.ofChar] using congrArg String.toList hcaret
    exact h.caret_notMem hmem

theorem isSome_wholeOperation? {operator : String} (hknown : (Binding.of? operator).isSome)
    (hwhole : Whole ⟨.operator, operator⟩) : (Expr.wholeOperation? operator).isSome := by
  obtain ⟨harithmetic, hslash, hcaret⟩ := hwhole
  have hsymbol : (Reference.Symbol.ofLexeme? operator).isSome := harithmetic
  unfold Reference.Symbol.ofLexeme? at hsymbol
  split at hsymbol
  · exact absurd hknown (by decide)
  · exact absurd hknown (by decide)
  · rw [Option.isSome_map] at hsymbol
    unfold Reference.Operator.ofText? at hsymbol
    split at hsymbol
    · rfl
    · rfl
    · rfl
    · exact absurd rfl hslash
    · exact absurd rfl hcaret
    · cases hsymbol

theorem Derives.isSome_whole? {level : Level} {tokens : List Token} {tree : Expr} (h : Derives level tokens tree) :
    (∀ token ∈ tokens, Whole token) → tree.whole?.isSome := by
  refine h.uniform (motive := fun tokens tree => (∀ token ∈ tokens, Whole token) → tree.whole?.isSome) ?_ ?_ ?_
  · intro run hne hatoms hwhole
    have hnumbers : ∀ token ∈ run, (Expr.number? token.lexeme).isSome := by
      intro token htoken
      have harithmetic := (hwhole token htoken).1
      rwa [Token.Arithmetic, hatoms token htoken] at harithmetic
    rw [Expr.whole?, Expr.number?_spell hne hnumbers]
    rfl
  · intro inner tree ih hwhole
    exact ih fun token htoken => hwhole token (by simp [htoken])
  · intro operator front back left right hknown ihLeft ihRight hwhole
    obtain ⟨compute, hcompute⟩ := Option.isSome_iff_exists.mp (isSome_wholeOperation? hknown (hwhole _ (by simp)))
    obtain ⟨a, ha⟩ := Option.isSome_iff_exists.mp (ihLeft fun token htoken => hwhole token (by simp [htoken]))
    obtain ⟨b, hb⟩ := Option.isSome_iff_exists.mp (ihRight fun token htoken => hwhole token (by simp [htoken]))
    rw [Expr.whole?, hcompute, ha, hb]
    rfl

end Grammar

theorem exists_whole?_of_parse {text : String} {tree : Expr} (h : Reference.WholeArithmetic text)
    (hparse : Parser.parse text = .ok ⟨tree, []⟩) : ∃ n, tree.whole? = some n := by
  have hderives : Grammar.Derives .assignment (Token.scan text) tree := Parser.derives_of_parseTokens hparse
  exact Option.isSome_iff_exists.mp (hderives.isSome_whole? (Grammar.whole_of_mem_scan h))

end Reckoner

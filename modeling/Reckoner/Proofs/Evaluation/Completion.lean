import Reckoner.Proofs.Evaluation.Lines
import Reckoner.Proofs.Parsing.Spelling

/-!
# Which lines complete

Whether a line completes can be read off its tree and the names of the variables, without computing anything: arithmetic never fails, so only an atom without a value, an operator that binds but computes nothing, or a target that is no name can stop it. The operators with powers are those that compute together with the equals sign and the point, and that is all the rest of the argument knows about either table.
-/

namespace Reckoner

section

variable [Number.Library]

theorem isSome_binding_iff (operator : String) :
    (Binding.of? operator).isSome ↔ (operation? operator).isSome ∨ operator = "=" ∨ operator = "." := by
  unfold Binding.of? operation?
  grind

theorem isSome_operation_iff {operator : String} (hknown : (Binding.of? operator).isSome) :
    (operation? operator).isSome ↔ operator ≠ "=" ∧ operator ≠ "." := by
  constructor
  · intro hcomputes
    constructor
    · rintro rfl
      exact absurd hcomputes (by simp [operation?])
    · rintro rfl
      exact absurd hcomputes (by simp [operation?])
  · rintro ⟨hequals, hpoint⟩
    exact ((isSome_binding_iff operator).mp hknown).resolve_right (not_or.mpr ⟨hequals, hpoint⟩)

end

namespace Expr

variable {vars : Variables} {text : String} {tree left right : Expr} {operator : String}

/-! ### What a tree consists of -/

/-- The operators of all operations of a tree, each before those of its operands. -/
def operators : Expr → List String
  | atom _ => []
  | operation operator left right => operator :: (left.operators ++ right.operators)
  | misfit _ => []

def atoms : Expr → List String
  | atom text => [text]
  | operation _ left right => left.atoms ++ right.atoms
  | misfit _ => []

def operands : Expr → List Expr
  | operation _ left right => [left, right]
  | _ => []

/-- The trees that arise from atoms when operations are made of lists of operands and no list is refused. -/
inductive Assembled : Expr → Prop
  | atom (text : String) : Assembled (atom text)
  | ofOperands {operator : String} {operands : List Expr} {tree : Expr} :
    (∀ operand ∈ operands, Assembled operand) → ofOperands operator operands = .ok tree → Assembled tree

theorem Spellable.assembled (h : tree.Spellable) : tree.Assembled := by
  induction tree with
  | atom text => exact .atom text
  | operation operator left right ihLeft ihRight =>
    obtain ⟨-, hleft, hright⟩ := h
    have hoperands : ∀ operand ∈ [left, right], operand.Assembled := by
      simpa using ⟨ihLeft hleft, ihRight hright⟩
    exact .ofOperands hoperands rfl
  | misfit value => exact h.elim

/-! ### Evaluation -/

def Defined (vars : Variables) (text : String) : Prop := (Number.read? text).isSome ∨ text ∈ vars

theorem exists_atomValue_iff : (∃ x, atomValue text vars = .ok x) ↔ Defined vars text := by
  unfold atomValue Defined
  rw [Std.ExtTreeMap.mem_iff_isSome_getElem?]
  cases Number.read? text with
  | some x => simp
  | none => cases vars[text]? <;> simp

theorem atomValue_eq_error {e : RuntimeError} (h : atomValue text vars = .error e) : e = .undefinedVariable text := by
  unfold atomValue at h
  cases hread : Number.read? text with
  | some x => simp [hread] at h
  | none =>
    cases hvalue : vars[text]? with
    | some x => simp [hread, hvalue] at h
    | none => simpa [hread, hvalue] using h.symm

section

variable [Number.Library]

theorem evaluate_operation_of_ok {a b : Number} (hleft : left.evaluate vars = .ok a)
    (hright : right.evaluate vars = .ok b) :
    (operation operator left right).evaluate vars = match operation? operator with
      | some compute => .ok (compute a b)
      | none => .error (.badOperator operator) := by
  rw [evaluate, hleft, hright]
  rfl

theorem evaluate_operation_of_left {e : RuntimeError} (hleft : left.evaluate vars = .error e) :
    (operation operator left right).evaluate vars = .error e := by
  rw [evaluate, hleft]
  rfl

theorem evaluate_operation_of_right {a : Number} {e : RuntimeError} (hleft : left.evaluate vars = .ok a)
    (hright : right.evaluate vars = .error e) : (operation operator left right).evaluate vars = .error e := by
  rw [evaluate, hleft, hright]
  rfl

theorem exists_evaluate_operation_iff : (∃ x, (operation operator left right).evaluate vars = .ok x) ↔
    (operation? operator).isSome ∧ (∃ a, left.evaluate vars = .ok a) ∧ ∃ b, right.evaluate vars = .ok b := by
  cases hleft : left.evaluate vars with
  | error e => simp [evaluate_operation_of_left hleft]
  | ok a =>
    cases hright : right.evaluate vars with
    | error e => simp [evaluate_operation_of_right hleft hright]
    | ok b =>
      rw [evaluate_operation_of_ok hleft hright]
      cases operation? operator <;> simp

end

def Computable (vars : Variables) (tree : Expr) : Prop :=
  "." ∉ tree.operators ∧ "=" ∉ tree.operators ∧ ∀ text ∈ tree.atoms, Defined vars text

theorem exists_evaluate_iff [Number.Library] (htree : tree.Spellable) : (∃ x, tree.evaluate vars = .ok x) ↔ tree.Computable vars := by
  induction tree with
  | atom text => simpa [Computable, operators, atoms, evaluate] using exists_atomValue_iff
  | operation operator left right ihLeft ihRight =>
    obtain ⟨hknown, hleft, hright⟩ := htree
    rw [exists_evaluate_operation_iff, isSome_operation_iff hknown, ihLeft hleft, ihRight hright]
    simp only [Computable, operators, atoms, List.mem_cons, List.mem_append, not_or, or_imp, forall_and]
    grind
  | misfit value => exact htree.elim

/-- What can be wrong with a tree: an atom without a value, or an operator that computes nothing. -/
def Faulty (vars : Variables) (tree : Expr) (e : RuntimeError) : Prop :=
  (∃ text ∈ tree.atoms, ¬Defined vars text ∧ e = .undefinedVariable text) ∨
    ∃ operator ∈ tree.operators, (operator = "=" ∨ operator = ".") ∧ e = .badOperator operator

theorem Faulty.mono {part : Expr} {e : RuntimeError} (h : Faulty vars part e) (hatoms : part.atoms ⊆ tree.atoms)
    (hoperators : part.operators ⊆ tree.operators) : Faulty vars tree e := by
  rcases h with ⟨text, hmem, hfault⟩ | ⟨operator, hmem, hfault⟩
  · exact .inl ⟨text, hatoms hmem, hfault⟩
  · exact .inr ⟨operator, hoperators hmem, hfault⟩

theorem faulty_of_evaluate [Number.Library] (htree : tree.Spellable) {e : RuntimeError} (h : tree.evaluate vars = .error e) :
    tree.Faulty vars e := by
  induction tree with
  | atom text =>
    refine .inl ⟨text, by simp [atoms], fun hdefined => ?_, atomValue_eq_error h⟩
    obtain ⟨x, hx⟩ := exists_atomValue_iff.mpr hdefined
    exact absurd (hx.symm.trans h) (by simp)
  | operation operator left right ihLeft ihRight =>
    obtain ⟨hknown, hleftTree, hrightTree⟩ := htree
    cases hleft : left.evaluate vars with
    | error fault =>
      obtain rfl : fault = e := Except.error.inj ((evaluate_operation_of_left hleft).symm.trans h)
      exact (ihLeft hleftTree hleft).mono (by simp [atoms]) (by simp [operators])
    | ok a =>
      cases hright : right.evaluate vars with
      | error fault =>
        obtain rfl : fault = e := Except.error.inj ((evaluate_operation_of_right hleft hright).symm.trans h)
        exact (ihRight hrightTree hright).mono (by simp [atoms]) (by simp [operators])
      | ok b =>
        rw [evaluate_operation_of_ok hleft hright] at h
        cases hcompute : operation? operator with
        | some compute => simp [hcompute] at h
        | none =>
          rw [hcompute] at h
          have hidle := ((isSome_binding_iff operator).mp hknown).resolve_left (by simp [hcompute])
          exact .inr ⟨operator, by simp [operators], hidle, (Except.error.inj h).symm⟩
  | misfit value => exact htree.elim

/-! ### Whole lines -/

/-- The conditions under which a line completes, in terms of its tree: no point, no equals sign but at the root, and only with a name on its left, and a value for every atom other than that name. -/
structure Completes (vars : Variables) (tree : Expr) : Prop where
  point_notMem : "." ∉ tree.operators
  equals_notMem : ∀ operand ∈ tree.operands, "=" ∉ operand.operators
  target : ∀ left right, tree = operation "=" left right → ∃ name, left = atom name
  defined : ∀ text ∈ tree.evaluated.atoms, Defined vars text

theorem Plain.equals_notMem_iff (h : tree.Plain) :
    (∀ operand ∈ tree.operands, "=" ∉ operand.operators) ↔ "=" ∉ tree.operators := by
  cases tree with
  | operation operator left right =>
    have hroot : "=" ≠ operator := by
      rintro rfl
      exact h left right rfl
    simp [operands, operators, hroot]
  | atom text => simp [operands, operators]
  | misfit value => simp [operands, operators]

theorem completes_iff : tree.Completes vars ↔
    (∀ left right, tree = operation "=" left right → ∃ name, left = atom name) ∧ tree.evaluated.Computable vars := by
  rcases tree.plain_or_equals with hplain | ⟨target, right, rfl⟩
  · have htarget : ∀ left right, tree = operation "=" left right → ∃ name, left = atom name :=
      fun left right htree => absurd htree (hplain left right)
    constructor
    · rintro ⟨hpoint, hequals, -, hdefined⟩
      rw [hplain.evaluated_eq] at hdefined ⊢
      exact ⟨htarget, hpoint, hplain.equals_notMem_iff.mp hequals, hdefined⟩
    · rintro ⟨-, hcomputable⟩
      rw [hplain.evaluated_eq] at hcomputable
      obtain ⟨hpoint, hequals, hdefined⟩ := hcomputable
      exact ⟨hpoint, hplain.equals_notMem_iff.mpr hequals, htarget, by rwa [hplain.evaluated_eq]⟩
  · rw [evaluated_equals]
    constructor
    · rintro ⟨hpoint, hequals, htarget, hdefined⟩
      refine ⟨htarget, fun hmem => hpoint ?_, hequals right (by simp [operands]), hdefined⟩
      simp [operators, hmem]
    · rintro ⟨htarget, hpoint, hequals, hdefined⟩
      obtain ⟨name, rfl⟩ := htarget target right rfl
      exact ⟨by simpa [operators] using hpoint, by simpa [operands, operators] using hequals, htarget, hdefined⟩

theorem Spellable.evaluated (h : tree.Spellable) : tree.evaluated.Spellable := by
  rcases tree.plain_or_equals with hplain | ⟨left, right, rfl⟩
  · rwa [hplain.evaluated_eq]
  · exact h.2.2

end Expr

namespace Line

variable {text : String} {vars : Variables} {line : Line}

inductive Reports (text : String) (vars : Variables) : LineError → Prop
  | diagnostic {d : Diagnostic} : Parser.parse text = .error d → Reports text vars (.diagnostic d)
  | badTarget {target right : Expr} {rest : List Token} : (∀ name, target ≠ .atom name) →
    Parser.parse text = .ok ⟨.operation "=" target right, rest⟩ →
    Reports text vars (.runtime (.badTarget target))
  | undefinedVariable {tree : Expr} {rest : List Token} {name : String} : Parser.parse text = .ok ⟨tree, rest⟩ →
    name ∈ tree.evaluated.atoms → ¬Expr.Defined vars name → Reports text vars (.runtime (.undefinedVariable name))
  | badOperator {tree : Expr} {rest : List Token} {operator : String} : Parser.parse text = .ok ⟨tree, rest⟩ →
    operator ∈ tree.evaluated.operators → operator = "=" ∨ operator = "." →
    Reports text vars (.runtime (.badOperator operator))

section

variable [Number.Library]

theorem Ends.reports {e : LineError} (h : Ends text vars line) (herror : line.result = .error e) :
    Reports text vars e := by
  cases h with
  | unread hparse =>
    cases herror
    exact .diagnostic hparse
  | untargeted htarget hparse =>
    cases herror
    exact .badTarget htarget hparse
  | failed hparse hvalue =>
    cases herror
    rcases Expr.faulty_of_evaluate (Parser.spellable_of_parse hparse).evaluated hvalue with
      ⟨name, hname, hundefined, rfl⟩ | ⟨operator, hoperator, hidle, rfl⟩
    · exact .undefinedVariable hparse hname hundefined
    · exact .badOperator hparse hoperator hidle
  | assigned _ _ => cases herror
  | evaluated _ _ _ => cases herror

/-- The line completes exactly if its tree meets the conditions, by the five ways in which a line can end. -/
theorem Ends.exists_result_iff {tree : Expr} {rest : List Token} (h : Ends text vars line)
    (hparse : Parser.parse text = .ok ⟨tree, rest⟩) : (∃ value, line.result = .ok value) ↔ tree.Completes vars := by
  have hcomputes : (∃ x, tree.evaluated.evaluate vars = .ok x) ↔ tree.evaluated.Computable vars :=
    Expr.exists_evaluate_iff (Parser.spellable_of_parse hparse).evaluated
  rw [Expr.completes_iff, ← hcomputes]
  cases h with
  | unread hfault => rw [hfault] at hparse; cases hparse
  | untargeted htarget hequals =>
    obtain ⟨rfl, -⟩ := Parser.Parsed.mk.inj (Except.ok.inj (hparse.symm.trans hequals))
    simp [htarget]
  | failed htree hvalue =>
    obtain ⟨rfl, -⟩ := Parser.Parsed.mk.inj (Except.ok.inj (hparse.symm.trans htree))
    simp [hvalue]
  | assigned hequals hvalue =>
    obtain ⟨rfl, -⟩ := Parser.Parsed.mk.inj (Except.ok.inj (hparse.symm.trans hequals))
    simp [hvalue]
  | evaluated htree hplain hvalue =>
    obtain ⟨rfl, -⟩ := Parser.Parsed.mk.inj (Except.ok.inj (hparse.symm.trans htree))
    have htarget : ∀ left right, tree = .operation "=" left right → ∃ name, left = .atom name :=
      fun left right hequals => absurd hequals (hplain left right)
    exact ⟨fun _ => ⟨htarget, _, by rwa [hplain.evaluated_eq]⟩, fun _ => ⟨_, rfl⟩⟩

/-- A line completes exactly if its text parses to a tree that meets the conditions. Otherwise it ends with one of four errors, and the only operators ever reported are the equals sign and the point. Trees of texts never have a wrong number of operands or hold anything but expressions. -/
theorem run_result (text : String) (vars : Variables) :
    ((∃ value, (run text vars).result = .ok value) ↔
        ∃ tree rest, Parser.parse text = .ok ⟨tree, rest⟩ ∧ tree.Completes vars) ∧
      (∀ e, (run text vars).result = .error e → Reports text vars e) ∧
      ∀ tree rest, Parser.parse text = .ok ⟨tree, rest⟩ → tree.Assembled := by
  refine ⟨?_, fun e => (run_ends text vars).reports, fun tree rest hparse =>
    (Parser.spellable_of_parse hparse).assembled⟩
  cases hparse : Parser.parse text with
  | error d => simp [run_of_error hparse]
  | ok parsed =>
    obtain ⟨tree, rest⟩ := parsed
    rw [(run_ends text vars).exists_result_iff hparse]
    constructor
    · exact fun hcompletes => ⟨tree, rest, rfl, hcompletes⟩
    · rintro ⟨_, _, ⟨⟩, hcompletes⟩
      exact hcompletes

end

end Line

end Reckoner

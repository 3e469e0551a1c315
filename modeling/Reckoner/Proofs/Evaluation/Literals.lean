import Reckoner.Number.Computed
import Reckoner.Proofs.Decimal.Words
import Reckoner.Proofs.Evaluation.Dependence

/-!
# Which atoms are numbers

An atom of a text is a word, so it is a number exactly if it is digits with or without an exponent of digits, or a name of infinity or of no number. Such an atom is never looked up among the variables. An assignment to it is complete all the same, but no line can ever read the variable back, whereas every other variable is read back by the line that consists of its name.
-/

namespace Reckoner

open Literal

variable {text word name : String} {tree : Expr} {rest : List Token} {vars : Variables} {value : Number}

theorem Number.isSome_read?_iff (hne : word ≠ "") (hword : ∀ c ∈ word.toList, c.isAlphanum = true) :
    (Number.read? word).isSome ↔ NumberWord word.toList := by
  have hchars : word.toList ≠ [] := fun hnil => hne (String.toList_eq_nil_iff.mp hnil)
  have hread : Literal.read? word = ofPlain? word.toList := by
    have hsolid := read?_of_isSolid hchars fun c hc => isSolid_of_isAlphanum (hword c hc)
    rwa [String.ofList_toList] at hsolid
  rw [Number.read?, Option.isSome_map, hread, isSome_ofPlain?_iff hword]

namespace Expr

theorem Spellable.word_of_mem_atoms (htree : tree.Spellable) (hword : word ∈ tree.atoms) :
    word ≠ "" ∧ ∀ c ∈ word.toList, c.isAlphanum = true := by
  induction tree with
  | atom text =>
    obtain rfl := List.mem_singleton.mp hword
    exact htree
  | operation operator left right ihLeft ihRight =>
    obtain ⟨-, hleft, hright⟩ := htree
    obtain hmem | hmem := List.mem_append.mp hword
    · exact ihLeft hleft hmem
    · exact ihRight hright hmem
  | misfit other => cases hword

theorem mem_atoms_of_target? (htarget : tree.target? = some name) : name ∈ tree.atoms := by
  unfold target? at htarget
  split at htarget
  · split_ifs at htarget
    obtain rfl := Option.some.inj htarget
    exact List.mem_cons_self
  · cases htarget

section

variable [Number.Library]

theorem evaluate_atom_of_read? {x : Number} (hread : Number.read? word = some x) (vars : Variables) :
    (atom word).evaluate vars = .ok x := by
  rw [evaluate, atomValue, hread]

theorem evaluate_atom_of_none (hread : Number.read? word = none) (vars : Variables) :
    (atom word).evaluate vars = match vars[word]? with
      | some x => .ok x
      | none => .error (.undefinedVariable word) := by
  cases hlookup : vars[word]? with
  | some x => simp only [evaluate, atomValue, hread, hlookup]
  | none => simp only [evaluate, atomValue, hread, hlookup]

end

end Expr

namespace Line

section

variable [Number.Library]

theorem run_insert_of_read? (hread : (Number.read? name).isSome) (code : String) (vars : Variables) (value : Number) :
    (run code (vars.insert name value)).result = (run code vars).result ∧
      (run code (vars.insert name value)).log = (run code vars).log := by
  apply Alike.reports_eq
  apply run_alike
  intro key hkey
  have hne : name ≠ key := by
    rintro rfl
    rw [read?_of_mem_reads hkey] at hread
    cases hread
  rw [Variables.getElem?_insert, if_neg hne]

/-- The line that consists of a name answers with the variable, if the name is no number. -/
theorem run_insert_of_none (hne : name ≠ "") (hname : ∀ c ∈ name.toList, c.isAlphanum = true)
    (hread : Number.read? name = none) (vars : Variables) (value : Number) :
    (run name (vars.insert name value)).result = .ok (some value) := by
  have hspelled : name.toList.filter (fun c => !Token.isSpacing c) = name.toList :=
    List.filter_eq_self.mpr fun c hc => by simp [Token.isSpacing_of_isAlphanum (hname c hc)]
  have hplain : (Expr.atom name).Plain := by
    intro left right hequal
    cases hequal
  rw [run_of_plain (Parser.parse_of_word hne hname hspelled) hplain, Expr.evaluate_atom_of_none hread,
    Variables.getElem?_insert, if_pos rfl]
  rfl

/-- An atom of a text is a number, whatever the variables are, exactly if it is one of the words that are numbers; any other is looked up. A variable by the name of a number is never read by any line, and any other variable is read by the line that consists of its name. -/
theorem atoms_of_parse (hparse : Parser.parse text = .ok ⟨tree, rest⟩) :
    (∀ word ∈ tree.atoms,
      (NumberWord word.toList → ∃ x, Number.read? word = some x ∧ ∀ vars, (Expr.atom word).evaluate vars = .ok x) ∧
      (¬NumberWord word.toList → ∀ vars : Variables, (Expr.atom word).evaluate vars = match vars[word]? with
        | some x => .ok x
        | none => .error (.undefinedVariable word))) ∧
    ∀ name, tree.target? = some name →
      (NumberWord name.toList → ∀ (code : String) (vars : Variables) (value : Number),
        (run code (vars.insert name value)).result = (run code vars).result ∧
          (run code (vars.insert name value)).log = (run code vars).log) ∧
      (¬NumberWord name.toList → ∀ (vars : Variables) (value : Number),
        (run name (vars.insert name value)).result = .ok (some value)) := by
  have htree := Parser.spellable_of_parse hparse
  constructor
  · intro word hmem
    obtain ⟨hne, hword⟩ := htree.word_of_mem_atoms hmem
    rw [← Number.isSome_read?_iff hne hword]
    constructor
    · intro hsome
      obtain ⟨x, hx⟩ := Option.isSome_iff_exists.mp hsome
      exact ⟨x, hx, Expr.evaluate_atom_of_read? hx⟩
    · intro hnone
      exact Expr.evaluate_atom_of_none (Option.not_isSome_iff_eq_none.mp hnone)
  · intro name htarget
    obtain ⟨hne, hname⟩ := htree.word_of_mem_atoms (Expr.mem_atoms_of_target? htarget)
    rw [← Number.isSome_read?_iff hne hname]
    constructor
    · exact run_insert_of_read?
    · intro hnone
      exact run_insert_of_none hne hname (Option.not_isSome_iff_eq_none.mp hnone)

end

theorem atoms_of_parse_scaled_target :
    Parser.parse "(1E 5) = x1 + nAN" =
        .ok ⟨.operation "=" (.atom "1E5") (.operation "+" (.atom "x1") (.atom "nAN")), []⟩ ∧
      (∃ x, Number.read? "nAN" = some x ∧ ∀ vars, (Expr.atom "nAN").evaluate vars = .ok x) ∧
      (∀ vars : Variables, (Expr.atom "x1").evaluate vars = match vars["x1"]? with
        | some x => .ok x
        | none => .error (.undefinedVariable "x1")) ∧
      ∀ (code : String) (vars : Variables) (value : Number),
        (run code (vars.insert "1E5" value)).result = (run code vars).result := by
  have hparse : Parser.parse "(1E 5) = x1 + nAN" =
      .ok ⟨.operation "=" (.atom "1E5") (.operation "+" (.atom "x1") (.atom "nAN")), []⟩ := by decide +kernel
  have hnan : NumberWord "nAN".toList := .named (by decide)
  have hscaled : NumberWord ("1".toList ++ 'E' :: "5".toList) :=
    .scaled (by decide) (List.all_eq_true.mp rfl) (.inr rfl) (by decide) (List.all_eq_true.mp rfl)
  have hname : ¬NumberWord "x1".toList := by
    rw [← Number.isSome_read?_iff (by decide) (List.all_eq_true.mp rfl)]
    decide +kernel
  obtain ⟨hatoms, htarget⟩ := atoms_of_parse hparse
  refine ⟨hparse, (hatoms "nAN" (by decide)).1 hnan, (hatoms "x1" (by decide)).2 hname, ?_⟩
  exact fun code vars value => ((htarget "1E5" rfl).1 hscaled code vars value).1

end Line

end Reckoner

import Reckoner.Proofs.Parsing.Spelling
import Mathlib.Data.List.SplitBy

/-!
# Replacing a word by a text in brackets

To replace a word throughout a text by another text in brackets is to replace an atom throughout a tree by another tree. The brackets keep the operators around the word from reaching into what replaces it. At every level of the grammar an atom is an operand, and so is an expression in brackets, which is all that the proof needs to know of the levels.
-/

namespace Reckoner

namespace Expr

/-- The tree with another tree in the place of every atom of the given name. -/
def substitute (tree : Expr) (name : String) (argument : Expr) : Expr :=
  match tree with
  | atom text => if text = name then argument else atom text
  | operation operator left right => operation operator (left.substitute name argument) (right.substitute name argument)
  | misfit value => misfit value

end Expr

namespace Text

/-- Characters with every longest run of letters and digits replaced that is the given word. -/
def replaceRuns (word replacement cs : List Char) : List Char :=
  (cs.splitBy fun a b => a.isAlphanum && b.isAlphanum).flatMap fun run => if run = word then replacement else run

def replaceWord (word replacement text : String) : String :=
  String.ofList (replaceRuns word.toList replacement.toList (text.toList.filter fun c => !Token.isSpacing c))

example : replaceWord "x1" "(2 + y)" "x1 * (x 11 - x\t1) = x1" = "(2 + y)*(x11-(2 + y))=(2 + y)" := by decide

/-! ### Longest runs -/

section
variable {α : Type} {p : α → Bool}

theorem splitBy_of_forall {run : List α} (hne : run ≠ []) (hrun : ∀ a ∈ run, p a = true) :
    (run.splitBy fun a b => p a && p b) = [run] := by
  have hchain : run.IsChain fun a b => (p a && p b) = true :=
    List.Pairwise.isChain (List.pairwise_of_forall_mem_list fun a ha b hb => by simp [hrun a ha, hrun b hb])
  exact List.splitBy_of_isChain hne hchain

/-- What belongs to no run stands alone between the runs on its two sides. -/
theorem splitBy_append_cons {c : α} (hc : p c = false) (front back : List α) :
    ((front ++ c :: back).splitBy fun a b => p a && p b) =
      (front.splitBy fun a b => p a && p b) ++ [c] :: back.splitBy fun a b => p a && p b := by
  have hbefore : ∀ x ∈ front.getLast?, (p x && p c) = false := by simp [hc]
  have hbehind : ∀ x ∈ [c].getLast?, ∀ y ∈ back.head?, (p x && p y) = false := by simp [hc]
  rw [List.splitBy_append_cons back hbefore, ← List.singleton_append, List.splitBy_append hbehind]
  rfl

end

variable {word replacement cs front back : List Char}

theorem replaceRuns_nil : replaceRuns word replacement [] = [] := rfl

theorem replaceRuns_run (hne : cs ≠ []) (hrun : ∀ c ∈ cs, c.isAlphanum = true) :
    replaceRuns word replacement cs = if cs = word then replacement else cs := by
  rw [replaceRuns, splitBy_of_forall hne hrun, List.flatMap_singleton]

theorem replaceRuns_append_cons (hword : ∀ c ∈ word, c.isAlphanum = true) {c : Char} (hc : c.isAlphanum = false) :
    replaceRuns word replacement (front ++ c :: back) =
      replaceRuns word replacement front ++ c :: replaceRuns word replacement back := by
  have hkept : [c] ≠ word := by
    rintro rfl
    exact absurd (hword c (by simp)) (by simp [hc])
  rw [replaceRuns, splitBy_append_cons hc, List.flatMap_append, List.flatMap_cons, if_neg hkept]
  rfl

theorem filter_replaceRuns (keep : Char → Bool) (hkeep : ∀ c ∈ cs, keep c = true) :
    (replaceRuns word replacement cs).filter keep = replaceRuns word (replacement.filter keep) cs := by
  unfold replaceRuns
  rw [List.filter_flatMap]
  apply List.flatMap_congr
  intro run hrun
  split_ifs
  · rfl
  · refine List.filter_eq_self.mpr fun c hc => hkeep c ?_
    rw [← List.flatten_splitBy (fun a b => a.isAlphanum && b.isAlphanum) cs]
    exact List.mem_flatten.mpr ⟨run, hrun, hc⟩

end Text

namespace Grammar

variable {name : String} {argument tree : Expr} {inner : List Char} {level : Level} {tokens : List Token}

theorem map_ofChar_bracket (cs : List Char) :
    ('(' :: cs ++ [')']).map Token.ofChar = Token.opening :: cs.map Token.ofChar ++ [Token.closing] := by
  rw [List.map_append, List.map_cons]
  rfl

theorem exists_of_map_ofChar_eq {cs : List Char} {front back : List Token} {c : Char}
    (h : cs.map Token.ofChar = front ++ Token.ofChar c :: back) :
    ∃ frontCs backCs, cs = frontCs ++ c :: backCs ∧ frontCs.map Token.ofChar = front ∧
      backCs.map Token.ofChar = back := by
  obtain ⟨frontCs, behindCs, rfl, hfront, hbehind⟩ := List.map_eq_append_iff.mp h
  obtain ⟨d, backCs, rfl, hd, hback⟩ := List.map_eq_cons_iff.mp hbehind
  exact ⟨frontCs, backCs, by rw [Token.ofChar_injective hd], hfront, hback⟩

theorem exists_ofChar_eq {operator : String} {powers : Binding} (hpowers : Binding.of? operator = some powers) :
    ∃ c, Token.ofChar c = ⟨.operator, operator⟩ ∧ c.isAlphanum = false := by
  obtain ⟨c, -, hc⟩ := List.map_eq_singleton_iff.mp (map_ofChar_operator hpowers)
  refine ⟨c, hc, Bool.eq_false_iff.mpr fun halphanum => ?_⟩
  have hkind := Token.kind_ofChar_eq_atom_iff.mpr halphanum
  rw [hc] at hkind
  cases hkind

/-- Characters that stand for a tree, with a word replaced by characters in brackets that stand for another one. -/
theorem Derives.substitute (hword : ∀ c ∈ name.toList, c.isAlphanum = true)
    (hinner : Derives .assignment (inner.map Token.ofChar) argument) (h : Derives level tokens tree) :
    ∀ cs : List Char, cs.map Token.ofChar = tokens →
      Derives level ((Text.replaceRuns name.toList ('(' :: inner ++ [')']) cs).map Token.ofChar)
        (tree.substitute name argument) := by
  refine h.levelwise (motive := fun level tokens tree => ∀ cs : List Char, cs.map Token.ofChar = tokens →
    Derives level ((Text.replaceRuns name.toList ('(' :: inner ++ [')']) cs).map Token.ofChar)
      (tree.substitute name argument)) ?_ ?_ ?_ ?_
  · intro level looser tokens tree ih hrank cs hcs
    exact (ih cs hcs).loosen hrank
  · rintro run hne hatoms cs rfl
    have hrun : ∀ c ∈ cs, c.isAlphanum = true := fun c hc =>
      Token.kind_ofChar_eq_atom_iff.mp (hatoms _ (List.mem_map_of_mem hc))
    rw [Text.replaceRuns_run (by simpa using hne) hrun, spell_map_ofChar, Expr.substitute]
    by_cases hname : cs = name.toList
    · rw [if_pos hname, if_pos (by rw [hname, String.ofList_toList]), map_ofChar_bracket]
      exact .bracket hinner
    · rw [if_neg hname, if_neg (fun hequal => hname (by rw [← hequal, String.toList_ofList])), ← spell_map_ofChar]
      exact .atoms hne hatoms
  · intro bracketed tree ih cs hcs
    have hopened : cs.map Token.ofChar = [] ++ Token.ofChar '(' :: (bracketed ++ [Token.closing]) := hcs
    obtain ⟨frontCs, behindCs, rfl, hfront, hbehind⟩ := exists_of_map_ofChar_eq hopened
    obtain rfl : frontCs = [] := List.map_eq_nil_iff.mp hfront
    have hclosed : behindCs.map Token.ofChar = bracketed ++ Token.ofChar ')' :: [] := hbehind
    obtain ⟨insideCs, backCs, rfl, hinside, hback⟩ := exists_of_map_ofChar_eq hclosed
    obtain rfl : backCs = [] := List.map_eq_nil_iff.mp hback
    rw [Text.replaceRuns_append_cons hword (by decide), Text.replaceRuns_append_cons hword (by decide),
      Text.replaceRuns_nil, List.nil_append, ← List.cons_append, map_ofChar_bracket]
    exact .bracket (ih insideCs hinside)
  · intro operator powers level front back left right hpowers ihLeft hreach ihRight cs hcs
    obtain ⟨c, hc, hmark⟩ := exists_ofChar_eq hpowers
    rw [← hc] at hcs
    obtain ⟨frontCs, backCs, rfl, hfront, hback⟩ := exists_of_map_ofChar_eq hcs
    rw [Text.replaceRuns_append_cons hword hmark, List.map_append, List.map_cons, hc]
    exact (ihLeft frontCs hfront).operation hpowers hreach (ihRight backCs hback)

end Grammar

namespace Parser

open Grammar

variable {name inner text : String} {argument tree : Expr} {rest : List Token}

theorem eq_closing_of_ends {c : Char} (hends : ends (Token.ofChar c) = true) : c = ')' := by
  by_contra hother
  have hstop := kind_eq_stop_of_ends hends fun hclosing => hother (Token.ofChar_injective hclosing)
  unfold Token.ofChar at hstop
  split_ifs at hstop

theorem derives_of_parse (h : parse text = .ok ⟨tree, []⟩) :
    Derives .assignment (Token.scan text) tree := derives_of_parseTokens h

theorem scan_replaceWord (word replacement text : String) : Token.scan (Text.replaceWord word replacement text) =
    (Text.replaceRuns word.toList (replacement.toList.filter fun c => !Token.isSpacing c)
      (text.toList.filter fun c => !Token.isSpacing c)).map Token.ofChar := by
  rw [Token.scan, Text.replaceWord, String.toList_ofList, Text.filter_replaceRuns]
  exact fun c hc => (List.mem_filter.mp hc).2

/-- A text with a word replaced by another text in brackets is read as the tree of the one with the atom replaced by the tree of the other. What is left over behind the tree makes no difference. -/
theorem parse_replaceWord (hword : ∀ c ∈ name.toList, c.isAlphanum = true)
    (hinner : parse inner = .ok ⟨argument, []⟩) (htext : parse text = .ok ⟨tree, rest⟩) :
    ∃ rest, parse (Text.replaceWord name ("(" ++ inner ++ ")") text) = .ok ⟨tree.substitute name argument, rest⟩ := by
  obtain ⟨front, happend, hstops, hderives⟩ := parsePrefix_zero_eq_ok_iff.mp (parseTokens_eq_ok_iff.mp htext)
  have hargument : Derives .assignment ((inner.toList.filter fun c => !Token.isSpacing c).map Token.ofChar) argument :=
    derives_of_parse hinner
  have hbrackets : ("(" ++ inner ++ ")").toList.filter (fun c => !Token.isSpacing c) =
      '(' :: (inner.toList.filter fun c => !Token.isSpacing c) ++ [')'] := by
    simp [Token.isSpacing]
  obtain ⟨frontCs, restCs, hcs, hfront, hrest⟩ := List.map_eq_append_iff.mp happend
  have hwhole := Derives.substitute hword hargument hderives frontCs hfront
  rw [parse, scan_replaceWord, hbrackets, hcs]
  cases restCs with
  | nil =>
    rw [List.append_nil]
    exact ⟨[], parseTokens_of_derives hwhole⟩
  | cons c restCs =>
    obtain rfl : c = ')' := eq_closing_of_ends (hstops _ (by rw [← hrest]; rfl))
    rw [Text.replaceRuns_append_cons hword (by decide), List.map_append, List.map_cons]
    have hclosing : ∀ token ∈ (Token.ofChar ')' :: (Text.replaceRuns name.toList
        ('(' :: (inner.toList.filter fun c => !Token.isSpacing c) ++ [')']) restCs).map Token.ofChar).head?,
        ends token = true := by
      simp [ends, Token.ofChar, Token.closing]
    exact ⟨_, parseTokens_eq_ok_iff.mpr (parsePrefix_zero_of_derives hclosing hwhole)⟩

end Parser

end Reckoner

import Mathlib.Data.Set.Function
import Reckoner.Proofs.Parsing.Spelling
import Reckoner.Text.Blank

/-!
# Trees from their text form

The text form of a spellable tree says which tree it is. It can be read back: an opening bracket announces an operation, whose operator is one character, and anything else is a word, which ends where its letters and digits end. A reading carries the proof that the characters read are the text form of the tree; that leaves to be shown that every text form is read, whatever follows it. A word alone must not be followed by more of a word.
-/

namespace Reckoner.Expr

variable {tree left right : Expr} {operator : Char} {cs rest between after : List Char}

/-! ### Reading a text form -/

structure Restored (cs : List Char) where
  tree : Expr
  /-- The characters behind the text form. -/
  rest : List Char
  spellable : tree.Spellable
  append : cs = tree.render.toList ++ rest

theorem spellable_word (hword : cs.takeWhile Char.isAlphanum ≠ []) :
    (atom (String.ofList (cs.takeWhile Char.isAlphanum))).Spellable := by
  refine ⟨by simpa using hword, fun c hc => ?_⟩
  rw [String.toList_ofList] at hc
  exact List.all_eq_true.mp List.all_takeWhile c hc

theorem append_word (cs : List Char) :
    cs = (atom (String.ofList (cs.takeWhile Char.isAlphanum))).render.toList ++ cs.dropWhile Char.isAlphanum := by
  simp [render]

def restoreWord (cs : List Char) : Option (Restored cs) :=
  if hword : cs.takeWhile Char.isAlphanum ≠ [] then
    some {
      tree := atom (String.ofList (cs.takeWhile Char.isAlphanum))
      rest := cs.dropWhile Char.isAlphanum
      spellable := spellable_word hword
      append := append_word cs }
  else none

theorem spellable_operation (hknown : (Binding.of? (String.singleton operator)).isSome) (hleft : left.Spellable)
    (hright : right.Spellable) : (operation (String.singleton operator) left right).Spellable :=
  ⟨hknown, hleft, hright⟩

theorem append_operation (hrest : rest = left.render.toList ++ ' ' :: between)
    (hbetween : between = right.render.toList ++ ')' :: after) :
    '(' :: operator :: ' ' :: rest = (operation (String.singleton operator) left right).render.toList ++ after := by
  rw [hrest, hbetween]
  simp [render]

def expect (mark : Char) (cs : List Char) : Option { rest : List Char // cs = mark :: rest } :=
  match cs with
  | [] => none
  | c :: rest => if h : c = mark then some ⟨rest, by rw [h]⟩ else none

theorem expect_cons (mark : Char) (rest : List Char) : expect mark (mark :: rest) = some ⟨rest, rfl⟩ := dif_pos rfl

/-- The tree whose text form characters begin with. -/
def restore (cs : List Char) : Option (Restored cs) :=
  match cs with
  | '(' :: operator :: ' ' :: rest =>
    if hknown : (Binding.of? (String.singleton operator)).isSome then do
      let left ← restore rest
      let ⟨between, hleft⟩ ← expect ' ' left.rest
      have hrest : rest = left.tree.render.toList ++ ' ' :: between := left.append.trans (by rw [hleft])
      let right ← restore between
      let ⟨after, hright⟩ ← expect ')' right.rest
      return {
        tree := operation (String.singleton operator) left.tree right.tree
        rest := after
        spellable := spellable_operation hknown left.spellable right.spellable
        append := append_operation hrest (right.append.trans (by rw [hright])) }
    else none
  | cs => restoreWord cs
  termination_by cs.length
  decreasing_by
    · simp only [List.length_cons]
      omega
    · rw [hrest]
      simp only [List.length_cons, List.length_append]
      omega

def restore? (cs : List Char) : Option (Expr × List Char) := (restore cs).map fun r => (r.tree, r.rest)

theorem spellable_of_restore? (h : restore? cs = some (tree, rest)) :
    tree.Spellable ∧ cs = tree.render.toList ++ rest := by
  obtain ⟨restored, -, hequal⟩ := Option.map_eq_some_iff.mp h
  obtain ⟨rfl, rfl⟩ := Prod.mk.inj hequal
  exact ⟨restored.spellable, restored.append⟩

/-! ### Every text form is read -/

theorem restore?_operation (hknown : (Binding.of? (String.singleton operator)).isSome)
    (hleft : restore? rest = some (left, ' ' :: between)) (hright : restore? between = some (right, ')' :: after)) :
    restore? ('(' :: operator :: ' ' :: rest) = some (operation (String.singleton operator) left right, after) := by
  obtain ⟨⟨_, _, _, _⟩, hleftRead, hequal⟩ := Option.map_eq_some_iff.mp hleft
  cases hequal
  obtain ⟨⟨_, _, _, _⟩, hrightRead, hequal⟩ := Option.map_eq_some_iff.mp hright
  cases hequal
  rw [restore?, restore, dif_pos hknown, hleftRead, Option.bind_eq_bind, Option.bind_some, expect_cons]
  dsimp only
  rw [Option.bind_eq_bind, Option.bind_some, hrightRead, Option.bind_eq_bind, Option.bind_some, expect_cons]
  rfl

theorem restore?_of_head (hhead : ∀ c ∈ cs.head?, c ≠ '(') :
    restore? cs = (restoreWord cs).map fun r => (r.tree, r.rest) := by
  rw [restore?, restore]
  rintro operator rest rfl
  exact hhead '(' rfl rfl

/-- Nothing behind a tree goes on with it: only a word can go on. -/
def Delimited (tree : Expr) (rest : List Char) : Prop :=
  (∃ text, tree = atom text) → ∀ c ∈ rest.head?, c.isAlphanum = false

theorem delimited_cons (mark : Char) (hmark : mark.isAlphanum = false) (tree : Expr) (rest : List Char) :
    tree.Delimited (mark :: rest) := by
  intro _ c hc
  obtain rfl := Option.some.inj hc
  exact hmark

theorem restore?_word {text : String} (hspellable : (atom text).Spellable)
    (hrest : ∀ c ∈ rest.head?, c.isAlphanum = false) : restore? (text.toList ++ rest) = some (atom text, rest) := by
  obtain ⟨hne, hword⟩ := hspellable
  have hchars : text.toList ≠ [] := fun hnil => hne (String.toList_eq_nil_iff.mp hnil)
  have hhead : ∀ c ∈ (text.toList ++ rest).head?, c ≠ '(' := by
    rintro c hc rfl
    rw [List.head?_append, List.head?_eq_some_head hchars, Option.some_or] at hc
    exact absurd (hword '(' (Option.some.inj hc ▸ List.head_mem hchars)) (by decide)
  obtain ⟨htake, hdrop⟩ := Text.span_append hword hrest
  rw [restore?_of_head hhead, restoreWord, dif_pos (by rwa [htake]), Option.map_some]
  dsimp only
  rw [htake, hdrop, String.ofList_toList]

theorem exists_singleton {operator : String} {powers : Binding} (hpowers : Binding.of? operator = some powers) :
    ∃ mark, operator = String.singleton mark := by
  obtain ⟨mark, hmark, -⟩ := List.map_eq_singleton_iff.mp (Grammar.map_ofChar_operator hpowers)
  exact ⟨mark, String.toList_injective (by rw [hmark, String.toList_singleton])⟩

theorem restore?_render (hspellable : tree.Spellable) (hdelimited : tree.Delimited rest) :
    restore? (tree.render.toList ++ rest) = some (tree, rest) := by
  induction tree generalizing rest with
  | atom text => exact restore?_word hspellable (hdelimited ⟨text, rfl⟩)
  | operation operator left right ihLeft ihRight =>
    obtain ⟨hknown, hleft, hright⟩ := hspellable
    obtain ⟨powers, hpowers⟩ := Option.isSome_iff_exists.mp hknown
    obtain ⟨mark, rfl⟩ := exists_singleton hpowers
    have hleftRead := ihLeft hleft (delimited_cons ' ' rfl left (right.render.toList ++ ')' :: rest))
    have hrightRead := ihRight hright (delimited_cons ')' rfl right rest)
    rw [← append_operation rfl rfl]
    exact restore?_operation hknown hleftRead hrightRead
  | misfit value => exact hspellable.elim

/-- Two texts parse to the same tree exactly if its text form is the same. More generally the text form of a spellable tree determines the tree, which can be read back from it; behind the form of an operation anything may follow. What is read is always the text form of what is read as. -/
theorem render_determines_tree :
    (∀ a b treeA restA treeB restB, Parser.parse a = .ok ⟨treeA, restA⟩ → Parser.parse b = .ok ⟨treeB, restB⟩ →
      (treeA.render = treeB.render ↔ treeA = treeB)) ∧
    Set.InjOn render {tree | tree.Spellable} ∧
    (∀ tree : Expr, tree.Spellable → restore? tree.render.toList = some (tree, []) ∧
      ∀ operator left right, tree = operation operator left right →
        ∀ more, restore? (tree.render.toList ++ more) = some (tree, more)) ∧
    ∀ cs tree rest, restore? cs = some (tree, rest) → tree.Spellable ∧ cs = tree.render.toList ++ rest := by
  have hrestore : ∀ tree : Expr, tree.Spellable → restore? tree.render.toList = some (tree, []) := by
    intro tree hspellable
    have hdelimited : tree.Delimited [] := fun _ _ hc => absurd hc (by simp)
    simpa using restore?_render hspellable hdelimited
  have hinjective : Set.InjOn render {tree | tree.Spellable} := by
    intro tree hspellable other hother hrender
    have hsame := (hrestore tree hspellable).symm.trans (hrender ▸ hrestore other hother)
    exact (Prod.mk.inj (Option.some.inj hsame)).1
  refine ⟨?_, hinjective, fun tree hspellable => ⟨hrestore tree hspellable, ?_⟩, fun _ _ _ => spellable_of_restore?⟩
  · intro a b treeA restA treeB restB ha hb
    exact hinjective.eq_iff (Parser.spellable_of_parse ha) (Parser.spellable_of_parse hb)
  · rintro operator left right rfl more
    exact restore?_render hspellable fun ⟨text, htext⟩ => absurd htext (by simp)

theorem render_determines_tree_differences :
    (Parser.parse "a - (b - c)" = .ok ⟨operation "-" (atom "a") (operation "-" (atom "b") (atom "c")), []⟩ ∧
      Parser.parse "a-b-c)" = .ok ⟨operation "-" (operation "-" (atom "a") (atom "b")) (atom "c"), [Token.closing]⟩ ∧
      (operation "-" (atom "a") (operation "-" (atom "b") (atom "c"))).render ≠
        (operation "-" (operation "-" (atom "a") (atom "b")) (atom "c")).render) ∧
    (operation "^" (atom "2") (atom "x")).Spellable ∧
      restore? ((operation "^" (atom "2") (atom "x")).render.toList ++ "y)".toList) =
        some (operation "^" (atom "2") (atom "x"), "y)".toList) := by
  obtain ⟨hparsed, -, hrestore, -⟩ := render_determines_tree
  have hright : Parser.parse "a - (b - c)" =
      .ok ⟨operation "-" (atom "a") (operation "-" (atom "b") (atom "c")), []⟩ := by decide +kernel
  have hleft : Parser.parse "a-b-c)" =
      .ok ⟨operation "-" (operation "-" (atom "a") (atom "b")) (atom "c"), [Token.closing]⟩ := by decide +kernel
  have hspellable : (operation "^" (atom "2") (atom "x")).Spellable :=
    ⟨by decide, ⟨by decide, List.all_eq_true.mp rfl⟩, by decide, List.all_eq_true.mp rfl⟩
  refine ⟨⟨hright, hleft, fun hsame => ?_⟩, hspellable, (hrestore _ hspellable).2 _ _ _ rfl _⟩
  exact absurd ((hparsed _ _ _ _ _ _ hright hleft).mp hsame) (by decide)

end Reckoner.Expr

/-!
# Blank characters

The characters that a reader takes for white space, and the removal of them from both ends of a text. This is the wide notion, which knows every script's spaces and the ASCII separators `0x1c` to `0x1f`; what separates tokens is decided in `Reckoner.Token`.
-/

namespace Reckoner.Text

/-- White space beyond ASCII: the Unicode spaces, line separators and the next-line control. -/
def isWideBlank (c : Char) : Bool :=
  let n := c.toNat
  n == 0x85 || n == 0xa0 || n == 0x1680 || (0x2000 ≤ n && n ≤ 0x200a) || n == 0x2028 || n == 0x2029 || n == 0x202f || n == 0x205f || n == 0x3000

def isBlank (c : Char) : Bool :=
  let n := c.toNat
  (0x09 ≤ n && n ≤ 0x0d) || (0x1c ≤ n && n ≤ 0x20) || isWideBlank c

/-- The text without the characters of a class at its two ends. -/
def trimBy (drop : Char → Bool) (cs : List Char) : List Char :=
  ((cs.dropWhile drop).reverse.dropWhile drop).reverse

def strip (text : String) : String := String.ofList (trimBy isBlank text.toList)

theorem range_of_isAlphanum {c : Char} (h : c.isAlphanum = true) :
    (65 ≤ c.toNat ∧ c.toNat ≤ 90 ∨ 97 ≤ c.toNat ∧ c.toNat ≤ 122) ∨ 48 ≤ c.toNat ∧ c.toNat ≤ 57 := by
  change ((decide (65 ≤ c.val ∧ c.val ≤ 90) || (decide (97 ≤ c.val) && decide (c.val ≤ 122))) ||
    (decide (48 ≤ c.val) && decide (c.val ≤ 57))) = true at h
  simp only [Bool.or_eq_true, Bool.and_eq_true, decide_eq_true_eq, UInt32.le_iff_toNat_le] at h
  exact h

theorem isBlank_of_isAlphanum {c : Char} (h : c.isAlphanum = true) : isBlank c = false := by
  have hrange := range_of_isAlphanum h
  simp [isBlank, isWideBlank]
  omega

theorem exists_trimBy (drop : Char → Bool) (cs : List Char) : ∃ before after,
    cs = before ++ trimBy drop cs ++ after ∧ (∀ c ∈ before, drop c = true) ∧ ∀ c ∈ after, drop c = true := by
  refine ⟨cs.takeWhile drop, (((cs.dropWhile drop).reverse).takeWhile drop).reverse, ?_, ?_, ?_⟩
  · rw [trimBy, List.append_assoc, ← List.reverse_append, List.takeWhile_append_dropWhile, List.reverse_reverse,
      List.takeWhile_append_dropWhile]
  · exact fun c hc => List.all_eq_true.mp List.all_takeWhile c hc
  · exact fun c hc => List.all_eq_true.mp List.all_takeWhile c (List.mem_reverse.mp hc)

theorem span_append {p : Char → Bool} {front back : List Char} (hfront : ∀ c ∈ front, p c = true)
    (hback : ∀ c ∈ back.head?, p c = false) :
    (front ++ back).takeWhile p = front ∧ (front ++ back).dropWhile p = back := by
  rw [List.takeWhile_append_of_pos hfront, List.dropWhile_append_of_pos hfront]
  cases back with
  | nil => simp
  | cons c more =>
    have hc : ¬p c = true := by simp [hback c rfl]
    rw [List.takeWhile_cons_of_neg hc, List.dropWhile_cons_of_neg hc, List.append_nil]
    exact ⟨rfl, rfl⟩

theorem trimBy_append {drop : Char → Bool} {before inner after : List Char} (hbefore : ∀ c ∈ before, drop c = true)
    (hafter : ∀ c ∈ after, drop c = true) (hinner : inner ≠ []) (hfirst : ∀ c ∈ inner.head?, drop c = false)
    (hlast : ∀ c ∈ inner.getLast?, drop c = false) : trimBy drop (before ++ inner ++ after) = inner := by
  have hhead : (inner ++ after).head? = inner.head? := by
    rw [List.head?_append, List.head?_eq_some_head hinner, Option.some_or]
  have hfront : (before ++ inner ++ after).dropWhile drop = inner ++ after := by
    rw [List.append_assoc]
    exact (span_append hbefore (by rwa [hhead])).2
  have hback : (after.reverse ++ inner.reverse).dropWhile drop = inner.reverse := by
    refine (span_append (fun c hc => hafter c (List.mem_reverse.mp hc)) ?_).2
    rwa [List.head?_reverse]
  rw [trimBy, hfront, List.reverse_append, hback, List.reverse_reverse]

end Reckoner.Text

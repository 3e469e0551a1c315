import Reckoner.Token.Cursor

/-!
# Runs of a cursor

A cursor over a list is known by how often it has been moved: it stands behind that many elements, or in front of the first sentinel, or at the end if the list has none. To ask for the next element is the only move. Looking at the element ahead and counting what remains leave the cursor where it is, so every answer in a run can be read off the list and the number of moves before it.

What stops a cursor is the sentinel itself, never what an element looks like. A stop token is stepped over, even one that looks the same as the sentinel. The sentinel in a list is not: what stands behind it is never reached.
-/

namespace Reckoner.Token.Cursor

variable {elements : List Element} {steps : List Step} {step : Step} {moves i j : Nat}

/-! ### Cursors by the number of moves -/

/-- How far a cursor gets: up to the first sentinel, or to the end of a list without one. -/
def reach (elements : List Element) : Nat := elements.idxOf .sentinel

/-- The element that is shown behind a number of moves. -/
def shown (elements : List Element) (moves : Nat) : Element :=
  if moves < reach elements then elements[moves]?.getD .sentinel else .sentinel

theorem reach_le (elements : List Element) : reach elements ≤ elements.length := List.idxOf_le_length

theorem exists_own_of_lt_reach (h : moves < reach elements) : ∃ token, elements[moves]? = some (.own token) := by
  have hmoves : moves < elements.length := Nat.lt_of_lt_of_le h (reach_le elements)
  have hne : (elements[moves] == Element.sentinel) = false := List.not_of_lt_findIdx h
  rw [List.getElem?_eq_getElem hmoves]
  cases helement : elements[moves] with
  | own token => exact ⟨token, rfl⟩
  | sentinel =>
    rw [helement] at hne
    cases hne

theorem head?_drop_reach (elements : List Element) : (elements.drop (reach elements)).headD .sentinel = .sentinel := by
  rw [List.headD_eq_head?_getD, List.head?_drop]
  obtain hlt | heq := Nat.lt_or_eq_of_le (reach_le elements)
  · rw [List.getElem?_eq_getElem hlt]
    exact List.getElem_idxOf hlt
  · rw [heq, List.getElem?_eq_none (Nat.le_refl _)]
    rfl

theorem shown_eq_sentinel_iff : shown elements moves = .sentinel ↔ reach elements ≤ moves := by
  rw [shown]
  split
  case isTrue h =>
    obtain ⟨token, htoken⟩ := exists_own_of_lt_reach h
    rw [htoken]
    exact iff_of_false nofun (Nat.not_le.mpr h)
  case isFalse h => exact ⟨fun _ => Nat.not_lt.mp h, fun _ => rfl⟩

/-- The cursor over a list that has been moved a number of times. -/
def moved (elements : List Element) (moves : Nat) : Cursor :=
  ⟨(elements.take (min moves (reach elements))).reverse, elements.drop (min moves (reach elements))⟩

theorem moved_zero (elements : List Element) : moved elements 0 = ofElements elements := by
  rw [moved, Nat.zero_min]
  rfl

theorem moved_of_le (h : reach elements ≤ moves) : moved elements moves = moved elements (reach elements) := by
  rw [moved, moved, Nat.min_eq_right h, Nat.min_self]

theorem position_moved (elements : List Element) (moves : Nat) :
    (moved elements moves).position = min moves (reach elements) := by
  have hle := reach_le elements
  simp only [moved, position, List.length_reverse, List.length_take]
  omega

theorem remaining_moved (elements : List Element) (moves : Nat) :
    (moved elements moves).remaining = elements.length - min moves (reach elements) := by
  simp [moved, remaining]

theorem peek_moved (elements : List Element) (moves : Nat) : (moved elements moves).peek = shown elements moves := by
  rw [peek, shown]
  split
  case isTrue h => rw [moved, Nat.min_eq_left (Nat.le_of_lt h), List.headD_eq_head?_getD, List.head?_drop]
  case isFalse h =>
    rw [moved, Nat.min_eq_right (Nat.not_lt.mp h)]
    exact head?_drop_reach elements

theorem next_snd_of_own {cursor : Cursor} {token : Token} {ahead : List Element} (h : cursor.ahead = .own token :: ahead) :
    cursor.next.2 = ⟨.own token :: cursor.passed, ahead⟩ := by
  rw [next, h]

theorem next_snd_of_sentinel {cursor : Cursor} (h : cursor.peek = .sentinel) : cursor.next.2 = cursor := by
  obtain ⟨passed, ahead⟩ := cursor
  cases ahead with
  | nil => rfl
  | cons element ahead =>
    obtain rfl : element = .sentinel := h
    rfl

theorem next_moved (elements : List Element) (moves : Nat) : (moved elements moves).next.2 = moved elements (moves + 1) := by
  obtain hlt | hle := Nat.lt_or_ge moves (reach elements)
  · obtain ⟨token, htoken⟩ := exists_own_of_lt_reach hlt
    obtain ⟨hmoves, hget⟩ := List.getElem?_eq_some_iff.mp htoken
    have hahead : (moved elements moves).ahead = .own token :: elements.drop (moves + 1) := by
      rw [moved, Nat.min_eq_left (Nat.le_of_lt hlt), List.drop_eq_getElem_cons hmoves, hget]
    rw [next_snd_of_own hahead, moved, moved, Nat.min_eq_left (Nat.le_of_lt hlt), Nat.min_eq_left hlt,
      List.take_add_one, htoken, List.reverse_append]
    rfl
  · have hpeek : (moved elements moves).peek = .sentinel := (peek_moved elements moves).trans (shown_eq_sentinel_iff.mpr hle)
    rw [next_snd_of_sentinel hpeek, moved_of_le hle, moved_of_le (Nat.le_succ_of_le hle)]

/-! ### Runs -/

def after (cursor : Cursor) (steps : List Step) : Cursor := steps.foldl (fun cursor step => (cursor.step step).2) cursor

theorem after_moved (elements : List Element) (moves : Nat) (steps : List Step) :
    (moved elements moves).after steps = moved elements (moves + steps.count .next) := by
  induction steps generalizing moves with
  | nil => rfl
  | cons step steps ih =>
    cases step with
    | peek => exact ih moves
    | remaining => exact ih moves
    | next =>
      change ((moved elements moves).next.2).after steps = _
      rw [next_moved, ih, List.count_cons_self, Nat.add_right_comm, Nat.add_assoc]

theorem after_ofElements (elements : List Element) (steps : List Step) :
    (ofElements elements).after steps = moved elements (steps.count .next) := by
  rw [← moved_zero, after_moved, Nat.zero_add]

theorem length_run (cursor : Cursor) (steps : List Step) : (cursor.run steps).length = steps.length := by
  induction steps generalizing cursor with
  | nil => rfl
  | cons step steps ih => exact congrArg Nat.succ (ih (cursor.step step).2)

theorem getElem?_run (cursor : Cursor) (h : steps[i]? = some step) : (cursor.run steps)[i]? =
    some (((cursor.after (steps.take i)).step step).1, ((cursor.after (steps.take i)).step step).2.position) := by
  induction steps generalizing cursor i with
  | nil => cases h
  | cons first steps ih =>
    cases i with
    | zero =>
      obtain rfl : first = step := Option.some.inj h
      rfl
    | succ i => exact ih (cursor.step first).2 h

theorem getElem?_run_next (h : steps[i]? = some .next) : ((ofElements elements).run steps)[i]? =
    some (.token (shown elements ((steps.take i).count .next)), min ((steps.take i).count .next + 1) (reach elements)) := by
  rw [getElem?_run _ h, after_ofElements, ← peek_moved, ← position_moved, ← next_moved, ← next_fst]
  rfl

theorem getElem?_run_peek (h : steps[i]? = some .peek) : ((ofElements elements).run steps)[i]? =
    some (.token (shown elements ((steps.take i).count .next)), min ((steps.take i).count .next) (reach elements)) := by
  rw [getElem?_run _ h, after_ofElements, ← peek_moved, ← position_moved]
  rfl

theorem getElem?_run_remaining (h : steps[i]? = some .remaining) : ((ofElements elements).run steps)[i]? =
    some (.count (elements.length - min ((steps.take i).count .next) (reach elements)),
      min ((steps.take i).count .next) (reach elements)) := by
  rw [getElem?_run _ h, after_ofElements, ← remaining_moved, ← position_moved]
  rfl

theorem eq_shown_of_getElem?_run {element : Element} {place : Nat}
    (h : ((ofElements elements).run steps)[i]? = some (.token element, place)) :
    element = shown elements ((steps.take i).count .next) := by
  obtain ⟨hi, -⟩ := List.getElem?_eq_some_iff.mp h
  rw [length_run] at hi
  cases hstep : steps[i] with
  | peek =>
    rw [getElem?_run_peek (List.getElem?_eq_some_iff.mpr ⟨hi, hstep⟩)] at h
    cases h
    rfl
  | next =>
    rw [getElem?_run_next (List.getElem?_eq_some_iff.mpr ⟨hi, hstep⟩)] at h
    cases h
    rfl
  | remaining =>
    rw [getElem?_run_remaining (List.getElem?_eq_some_iff.mpr ⟨hi, hstep⟩)] at h
    cases h

/-! ### Moves in the course of a run -/

theorem count_take_le (hle : i ≤ j) : (steps.take i).count .next ≤ (steps.take j).count .next :=
  ((List.take_prefix_take_left hle).sublist).count_le _

theorem count_take_eq (hle : i ≤ j) (hnone : .next ∉ (steps.take j).drop i) :
    (steps.take j).count .next = (steps.take i).count .next := by
  rw [← List.take_append_drop i (steps.take j), List.count_append, List.count_eq_zero.mpr hnone, List.take_take,
    Nat.min_eq_left hle, Nat.add_zero]

/-- Behind any run the place of the cursor is the number of moves, up to the first sentinel of the list or else to its end, and what remains is the rest of the list. To look or to count leaves the cursor as it is, and a look shows what a move would. In a run, a move behind `k` others answers with the element of the list at `k` and goes one further, whatever token that is, if it stands in front of the first sentinel; else it answers with the sentinel and stays. A look answers with the element that the next move answers with. Once the sentinel itself has been answered, all looks and moves answer with it from there on. -/
theorem run_reads_in_turn (elements : List Element) (steps : List Step) :
    ((ofElements elements).after steps).position = min (steps.count .next) (reach elements) ∧
      (((ofElements elements).after steps).remaining : Int) =
        (elements.length : Int) - ((ofElements elements).after steps).position ∧
      (∀ step, step ≠ .next → (((ofElements elements).after steps).step step).2 = (ofElements elements).after steps) ∧
      (((ofElements elements).after steps).step .peek).1 = (((ofElements elements).after steps).step .next).1 ∧
      ((ofElements elements).run steps).length = steps.length ∧
      (∀ i k, (steps.take i).count .next = k →
        (steps[i]? = some .next → ((ofElements elements).run steps)[i]? =
          some (.token (if k < reach elements then elements[k]?.getD .sentinel else .sentinel),
            min (k + 1) (reach elements))) ∧
        (steps[i]? = some .peek → ((ofElements elements).run steps)[i]? =
          some (.token (if k < reach elements then elements[k]?.getD .sentinel else .sentinel),
            min k (reach elements))) ∧
        (steps[i]? = some .remaining → ((ofElements elements).run steps)[i]? =
          some (.count (elements.length - min k (reach elements)), min k (reach elements)))) ∧
      (∀ i j, i ≤ j → steps[i]? = some .peek → steps[j]? = some .next → .next ∉ (steps.take j).drop i →
        ∃ element, (((ofElements elements).run steps)[i]?).map Prod.fst = some (.token element) ∧
          (((ofElements elements).run steps)[j]?).map Prod.fst = some (.token element)) ∧
      ∀ i place : Nat, ((ofElements elements).run steps)[i]? = some (.token .sentinel, place) →
        ∀ j step, i ≤ j → steps[j]? = some step → step ≠ .remaining →
          ((ofElements elements).run steps)[j]? = some (.token .sentinel, reach elements) := by
  have hposition : ((ofElements elements).after steps).position = min (steps.count .next) (reach elements) := by
    rw [after_ofElements, position_moved]
  refine ⟨hposition, ?_, ?_, ?_, length_run _ steps, ?_, ?_, ?_⟩
  · have hle := reach_le elements
    rw [hposition, after_ofElements, remaining_moved]
    omega
  · intro step hstep
    cases step with
    | peek => rfl
    | remaining => rfl
    | next => exact absurd rfl hstep
  · exact congrArg Answer.token (next_fst _).symm
  · rintro i k rfl
    exact ⟨getElem?_run_next, getElem?_run_peek, getElem?_run_remaining⟩
  · intro i j hle hpeek hnext hnone
    refine ⟨shown elements ((steps.take i).count .next), ?_, ?_⟩
    · rw [getElem?_run_peek hpeek]
      rfl
    · rw [getElem?_run_next hnext, count_take_eq hle hnone]
      rfl
  · intro i place hanswer j step hle hstep hshows
    have hbefore := shown_eq_sentinel_iff.mp (eq_shown_of_getElem?_run hanswer).symm
    have hend : reach elements ≤ (steps.take j).count .next := Nat.le_trans hbefore (count_take_le hle)
    have hsentinel := shown_eq_sentinel_iff.mpr hend
    cases step with
    | peek => rw [getElem?_run_peek hstep, hsentinel, Nat.min_eq_right hend]
    | next => rw [getElem?_run_next hstep, hsentinel, Nat.min_eq_right (Nat.le_succ_of_le hend)]
    | remaining => exact absurd rfl hshows

theorem run_reads_in_turn_up_to_sentinel :
    (((ofElements [.own sentinel, .own ⟨.atom, "a"⟩, .sentinel, .own ⟨.stop, "?"⟩]).after [.next]).step .remaining).2 =
        (ofElements [.own sentinel, .own ⟨.atom, "a"⟩, .sentinel, .own ⟨.stop, "?"⟩]).after [.next] ∧
      ((ofElements [.own sentinel, .own ⟨.atom, "a"⟩, .sentinel, .own ⟨.stop, "?"⟩]).run
        [.peek, .next, .next, .peek, .remaining, .next, .next, .peek])[1]? = some (.token (.own sentinel), 1) ∧
      ((ofElements [.own sentinel, .own ⟨.atom, "a"⟩, .sentinel, .own ⟨.stop, "?"⟩]).run
        [.peek, .next, .next, .peek, .remaining, .next, .next, .peek])[4]? = some (.count 2, 2) ∧
      (∃ element, (((ofElements [.own sentinel, .own ⟨.atom, "a"⟩, .sentinel, .own ⟨.stop, "?"⟩]).run
          [.peek, .next, .next, .peek, .remaining, .next, .next, .peek])[3]?).map Prod.fst = some (.token element) ∧
        (((ofElements [.own sentinel, .own ⟨.atom, "a"⟩, .sentinel, .own ⟨.stop, "?"⟩]).run
          [.peek, .next, .next, .peek, .remaining, .next, .next, .peek])[5]?).map Prod.fst = some (.token element)) ∧
      ((ofElements [.own sentinel, .own ⟨.atom, "a"⟩, .sentinel, .own ⟨.stop, "?"⟩]).run
        [.peek, .next, .next, .peek, .remaining, .next, .next, .peek])[7]? = some (.token .sentinel, 2) := by
  obtain ⟨-, -, hstays, -⟩ := run_reads_in_turn [.own sentinel, .own ⟨.atom, "a"⟩, .sentinel, .own ⟨.stop, "?"⟩] [.next]
  obtain ⟨-, -, -, -, -, hanswers, hlook, hforever⟩ := run_reads_in_turn
    [.own sentinel, .own ⟨.atom, "a"⟩, .sentinel, .own ⟨.stop, "?"⟩]
    [.peek, .next, .next, .peek, .remaining, .next, .next, .peek]
  have hfifth := (hanswers 5 2 rfl).1 rfl
  exact ⟨hstays .remaining (by decide), (hanswers 1 0 rfl).1 rfl, (hanswers 4 2 rfl).2.2 rfl,
    hlook 3 5 (by decide) rfl rfl (by decide), hforever 5 2 hfifth 7 .peek (by decide) rfl (by decide)⟩

/-- The sentinel in a list is not stepped over, and a stop token that looks like it is. -/
theorem sentinel_is_not_passed :
    ((ofElements [.sentinel, .own ⟨.atom, "a"⟩]).after [.next]).position ≠
        min ([Step.next].count .next) [Element.sentinel, .own ⟨.atom, "a"⟩].length ∧
      ((ofElements [.sentinel, .own ⟨.atom, "a"⟩]).run [.next, .next, .remaining]) =
        [(.token .sentinel, 0), (.token .sentinel, 0), (.count 2, 0)] ∧
      ((ofTokens [sentinel, ⟨.atom, "a"⟩]).run [.next, .next, .remaining]) =
        [(.token (.own sentinel), 1), (.token (.own ⟨.atom, "a"⟩), 2), (.count 0, 2)] := by
  decide

end Reckoner.Token.Cursor

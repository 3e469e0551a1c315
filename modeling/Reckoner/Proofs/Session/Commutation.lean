import Reckoner.Proofs.Session.Noninterference

/-!
# Lines that can change places

Two neighbouring lines of a session can change places if neither reads or writes what the other writes. Each of them then finds the names it reads as it would find them in the other order, so it shows the same and has the same effect. Behind both of them the variables are the same in either order, name by name: at a name that the first line writes, what it leaves there stands, and at any other name what the second one leaves.
-/

namespace Reckoner.Session

open Transcript

variable {debug : Bool} {text first second : String} {lines : List String} {vars : Variables} {name : String} {i : Nat}

/-- A list with the items at a position and the next one exchanged, if it has both. -/
def exchange {α : Type} : Nat → List α → List α
  | 0, x :: y :: rest => y :: x :: rest
  | i + 1, x :: rest => x :: exchange i rest
  | _, xs => xs

example : exchange 1 ["a", "b", "c", "d"] = ["a", "c", "b", "d"] := by decide

/-- No line writes what the other one reads or writes. -/
structure Independent (first second : String) : Prop where
  notMem_second : ∀ name ∈ Line.writes? first, name ∉ Line.reads second
  notMem_first : ∀ name ∈ Line.writes? second, name ∉ Line.reads first
  writes?_ne : ∀ name ∈ Line.writes? first, name ∉ Line.writes? second

theorem Independent.symm (h : Independent first second) : Independent second first :=
  ⟨h.notMem_first, h.notMem_second, fun name hsecond hfirst => h.writes?_ne name hfirst hsecond⟩

section

variable [Number.Library]

theorem getElem?_entry_of_writes?_ne (debug : Bool) (vars : Variables) (h : Line.writes? text ≠ some name) :
    (entry debug text vars).vars[name]? = vars[name]? := by
  rcases entry_vars_cases debug text vars with hsame | ⟨assigned, hassigns⟩
  · rw [hsame]
  · apply hassigns.getElem?_eq
    rintro rfl
    exact h hassigns.writes?_eq

/-- A line behind an independent one does what it does in front of it. -/
theorem Independent.entry_alike (h : Independent first second) (debug : Bool) (vars : Variables) :
    (entry debug second vars).shown = (entry debug second (entry debug first vars).vars).shown ∧
      SameEffect second vars (entry debug first vars).vars (entry debug second vars).vars
        (entry debug second (entry debug first vars).vars).vars := by
  apply Session.entry_alike
  intro name hname
  rw [getElem?_entry_of_writes?_ne debug vars fun hwrites => h.notMem_second name hwrites hname]

theorem Independent.vars_eq (h : Independent first second) (debug : Bool) (vars : Variables) :
    (entry debug second (entry debug first vars).vars).vars =
      (entry debug first (entry debug second vars).vars).vars := by
  apply Std.ExtTreeMap.ext_getElem?
  intro name
  by_cases hwrites : Line.writes? first = some name
  · have hkept := getElem?_entry_of_writes?_ne debug vars (h.writes?_ne name hwrites)
    rw [getElem?_entry_of_writes?_ne debug _ (h.writes?_ne name hwrites)]
    exact (h.symm.entry_alike debug vars).2.getElem?_eq hkept.symm
  · have hkept := getElem?_entry_of_writes?_ne debug vars hwrites
    rw [getElem?_entry_of_writes?_ne debug (entry debug second vars).vars hwrites]
    exact ((h.entry_alike debug vars).2.getElem?_eq hkept.symm).symm

theorem run_exchange_zero {rest : List String} (h : Independent first second) (hfirst : kindOf first ≠ .exit)
    (hsecond : kindOf second ≠ .exit) :
    (run none debug (second :: first :: rest) vars).vars = (run none debug (first :: second :: rest) vars).vars ∧
      (entries debug (second :: first :: rest) vars).map shown =
        exchange 0 ((entries debug (first :: second :: rest) vars).map shown) := by
  rw [vars_run_cons hsecond, vars_run_cons hfirst, vars_run_cons hfirst, vars_run_cons hsecond,
    entries_cons hsecond, entries_cons hfirst, entries_cons hfirst, entries_cons hsecond, h.vars_eq]
  refine ⟨rfl, ?_⟩
  rw [List.map_cons, List.map_cons, List.map_cons, List.map_cons, exchange, (h.entry_alike debug vars).1,
    (h.symm.entry_alike debug vars).1]

/-- Two neighbouring lines that are independent can change places. The variables at the end of the session are the same, and only what the two lines show changes places too. -/
theorem run_exchange (hi : i + 1 < lines.length) (hfirst : kindOf lines[i] ≠ .exit)
    (hsecond : kindOf lines[i + 1] ≠ .exit) (hindependent : Independent lines[i] lines[i + 1]) (debug : Bool)
    (vars : Variables) :
    (run none debug (exchange i lines) vars).vars = (run none debug lines vars).vars ∧
      (entries debug (exchange i lines) vars).map shown = exchange i ((entries debug lines vars).map shown) := by
  induction i generalizing lines vars with
  | zero =>
    obtain ⟨first, behind, rfl⟩ := List.exists_cons_of_length_pos (Nat.zero_lt_of_lt hi)
    obtain ⟨second, rest, rfl⟩ := List.exists_cons_of_length_pos (Nat.lt_of_succ_lt_succ hi)
    exact run_exchange_zero hindependent hfirst hsecond
  | succ i ih =>
    obtain ⟨text, rest, rfl⟩ := List.exists_cons_of_length_pos (Nat.zero_lt_of_lt hi)
    by_cases hexit : kindOf text = .exit
    · rw [exchange, run_exit hexit, run_exit hexit, entries_exit hexit, entries_exit hexit]
      exact ⟨rfl, rfl⟩
    · obtain ⟨hvars, hshown⟩ := ih (Nat.lt_of_succ_lt_succ hi) hfirst hsecond hindependent (entry debug text vars).vars
      rw [exchange, vars_run_cons hexit, vars_run_cons hexit, entries_cons hexit, entries_cons hexit, List.map_cons,
        List.map_cons, exchange, hvars, hshown]
      exact ⟨rfl, rfl⟩

end

theorem run_exchange_of_failing : Independent "a b = x + 2" "c ^ x" ∧
    (run none true (exchange 1 ["x = 4", "a b = x + 2", "c ^ x", "ab"]) ∅).vars =
        (run none true ["x = 4", "a b = x + 2", "c ^ x", "ab"] ∅).vars ∧
      (entries true (exchange 1 ["x = 4", "a b = x + 2", "c ^ x", "ab"]) ∅).map shown =
        exchange 1 ((entries true ["x = 4", "a b = x + 2", "c ^ x", "ab"] ∅).map shown) := by
  have hlength : 1 + 1 < ["x = 4", "a b = x + 2", "c ^ x", "ab"].length := by decide
  have hfirst : kindOf "a b = x + 2" ≠ .exit := by decide +kernel
  have hsecond : kindOf "c ^ x" ≠ .exit := by decide +kernel
  have hindependent : Independent "a b = x + 2" "c ^ x" :=
    ⟨by decide +kernel, by decide +kernel, by decide +kernel⟩
  exact ⟨hindependent, run_exchange hlength hfirst hsecond hindependent true ∅⟩

end Reckoner.Session

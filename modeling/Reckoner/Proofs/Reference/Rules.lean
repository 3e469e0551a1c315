import Reckoner.Proofs.Binary.Operations
import Reckoner.Proofs.Reference.Agreement
import Reckoner.Reference.Computed

/-!
# The rules of the reference arithmetic

What an operator makes of two numbers, said without the algorithms that work it out. Whole numbers are exact. A quotient, and whatever is made of wide numbers, is the wide number nearest to the exact result. Powers other than exact ones, and quotients of complex numbers, are those of the mathematical library. What fails has a text. By these rules a tree is worth something, from its leaves up and the left operand first, and that is what the text denotes that it is parsed from.
-/

namespace Reckoner

open Binary

namespace Reference

/-- A result or the text of a failure. -/
abbrev Outcome (α : Type) := Except String α

section

variable {α β : Type}

/-- One step and then another. If the first one fails then there is no other. -/
def Then (first : Outcome α → Prop) (next : α → Outcome β → Prop) (outcome : Outcome β) : Prop :=
  (∃ text, first (.error text) ∧ outcome = .error text) ∨ ∃ a, first (.ok a) ∧ next a outcome

/-- Whatever a relation gives, as a quantity. -/
def Gives (relation : α → α → α → Prop) (quantity : α → Quantity) (a b : α) (outcome : Outcome Quantity) : Prop :=
  ∃ c, relation a b c ∧ outcome = .ok (quantity c)

end

/-- The wide number nearest to a quantity, if it is real and not too large. -/
def WideOf : Quantity → Outcome Wide → Prop
  | .whole n, outcome => ∃ x : Wide, Rounds (n : ℚ) false x ∧
      outcome = if x.meaning.IsInfinite then .error "int too large to convert to float" else .ok x
  | .wide x, outcome => outcome = .ok x
  | .complex _, outcome => outcome = .error "float() argument must be a string or a real number, not 'complex'"

def ComplexOf : Quantity → Outcome Complex → Prop
  | .complex z, outcome => outcome = .ok z
  | q, outcome => Then (WideOf q) (fun x outcome => outcome = .ok ⟨x, zero false⟩) outcome

/-- A rule for each kind of operands. Unlike operands become wide, or complex if one of them is. -/
def OfKind (onWhole : Int → Int → Outcome Quantity → Prop) (onWide : Wide → Wide → Outcome Quantity → Prop)
    (onComplex : Complex → Complex → Outcome Quantity → Prop) : Quantity → Quantity → Outcome Quantity → Prop
  | .whole m, .whole n => onWhole m n
  | .complex z, b => Then (ComplexOf b) (onComplex z)
  | a, .complex w => Then (ComplexOf a) fun z => onComplex z w
  | a, b => Then (WideOf a) fun x => Then (WideOf b) (onWide x)

def Complex.IsSum (a b c : Complex) : Prop := Binary.IsSum a.re b.re c.re ∧ Binary.IsSum a.im b.im c.im

def Complex.IsDifference (a b c : Complex) : Prop :=
  Binary.IsDifference a.re b.re c.re ∧ Binary.IsDifference a.im b.im c.im

def Complex.IsProduct (a b c : Complex) : Prop :=
  ∃ re im cross cross' : Wide, Binary.IsProduct a.re b.re re ∧ Binary.IsProduct a.im b.im im ∧
    Binary.IsProduct a.re b.im cross ∧ Binary.IsProduct a.im b.re cross' ∧
    Binary.IsDifference re im c.re ∧ Binary.IsSum cross cross' c.im

def WholeQuotient (m n : Int) (outcome : Outcome Quantity) : Prop :=
  if n = 0 then outcome = .error "division by zero"
  else ∃ x : Wide, Rounds (m / n : ℚ) (decide (m < 0) ^^ decide (n < 0)) x ∧
    outcome = if x.meaning.IsInfinite then .error "integer division result too large for a float" else .ok (.wide x)

def WideQuotient (x y : Wide) (outcome : Outcome Quantity) : Prop :=
  if y.meaning.IsZero then outcome = .error "float division by zero" else Gives IsQuotient .wide x y outcome

section

variable [Library]

def ComplexQuotient (a b : Complex) (outcome : Outcome Quantity) : Prop :=
  outcome = if b.re.meaning.IsZero ∧ b.im.meaning.IsZero then .error "complex division by zero"
    else .ok (.complex (Library.complexQuotient a b))

def ComplexPower (a b : Complex) (outcome : Outcome Quantity) : Prop :=
  match Library.complexPower? a b with
  | none => outcome = .error "0.0 to a negative or complex power"
  | some c => outcome = if c.re.meaning.IsInfinite ∨ c.im.meaning.IsInfinite then .error "complex exponentiation"
      else .ok (.complex c)

/-- Zero has no negative powers, and negative numbers have fractional ones that are complex. -/
def WidePower (x y : Wide) (outcome : Outcome Quantity) : Prop :=
  match x.meaning, y.meaning with
  | .finite _ a, .finite _ b =>
    if a = 0 ∧ b < 0 then outcome = .error "0.0 cannot be raised to a negative power"
    else if a < 0 ∧ ¬b.isInt then ComplexPower ⟨x, zero false⟩ ⟨y, zero false⟩ outcome
    else outcome = if (Library.power x y).meaning.IsInfinite then .error "(34, 'Numerical result out of range')"
      else .ok (.wide (Library.power x y))
  | _, _ => outcome = .ok (.wide (Library.power x y))

def WholePower (m n : Int) (outcome : Outcome Quantity) : Prop :=
  if 0 ≤ n then outcome = .ok (.whole (m ^ n.toNat))
  else Then (WideOf (.whole m)) (fun x => Then (WideOf (.whole n)) (WidePower x)) outcome

/-- What an operator makes of two operands. -/
def Rule : String → Quantity → Quantity → Outcome Quantity → Prop
  | "+" => OfKind (fun m n outcome => outcome = .ok (.whole (m + n))) (Gives IsSum .wide) (Gives Complex.IsSum .complex)
  | "-" => OfKind (fun m n outcome => outcome = .ok (.whole (m - n))) (Gives IsDifference .wide)
      (Gives Complex.IsDifference .complex)
  | "*" => OfKind (fun m n outcome => outcome = .ok (.whole (m * n))) (Gives IsProduct .wide)
      (Gives Complex.IsProduct .complex)
  | "/" => OfKind WholeQuotient WideQuotient ComplexQuotient
  | "^" => OfKind WholePower WidePower ComplexPower
  | _ => fun _ _ _ => False

end

end Reference

open Reference

/-- What a tree is worth by the rules. -/
def Expr.Worth [Library] : Expr → Outcome Quantity → Prop
  | atom text => fun outcome => ∃ n, number? text = some n ∧ outcome = .ok (.whole n)
  | operation operator left right => Then left.Worth fun a => Then right.Worth (Rule operator a)
  | misfit _ => fun _ => False

def Expr.Denotes [Library] (tree : Expr) : Outcome Wide → Prop := Then tree.Worth WideOf

namespace Reference

/-! ### Computations that meet their rules -/

section

variable {α β : Type}

/-- Exactly the outcome of a computation is as described. -/
def Describes (description : Outcome α → Prop) (computed : Except Failure α) : Prop :=
  ∀ outcome, description outcome ↔ computed.mapError Failure.message = outcome

variable {first : Outcome α → Prop} {next : α → Outcome β → Prop} {computed : Except Failure α}
  {continued : α → Except Failure β}

theorem describes_ok (a : α) : Describes (fun outcome => outcome = .ok a) (.ok a) := fun _ => eq_comm

theorem describes_error (failure : Failure) :
    Describes (fun outcome : Outcome α => outcome = .error failure.message) (.error failure) := fun _ => eq_comm

theorem Describes.andThen (hfirst : Describes first computed) (hnext : ∀ a, Describes (next a) (continued a)) :
    Describes (Then first next) (computed >>= continued) := by
  intro outcome
  simp only [Then, hfirst _, hnext _ _]
  cases computed with
  | error e => simp [Except.mapError, bind, Except.bind, @eq_comm _ outcome]
  | ok a => simp [Except.mapError, bind, Except.bind]

theorem Describes.map (hfirst : Describes first computed) (convert : α → β) :
    Describes (Then first fun a outcome => outcome = .ok (convert a)) (computed.map convert) :=
  hfirst.andThen fun a => describes_ok (convert a)

theorem Describes.ofOk {a : α} {computed : Except Failure β} (hnext : Describes (next a) computed) :
    Describes (Then (fun outcome => outcome = .ok a) next) computed := by
  intro outcome
  simpa [Then] using hnext outcome

theorem describes_gives {relation : α → α → α → Prop} {quantity : α → Quantity} {a b c : α}
    (hrelation : ∀ d, relation a b d ↔ c = d) : Describes (Gives relation quantity a b) (.ok (quantity c)) := by
  intro outcome
  simp [Gives, hrelation, Except.mapError, @eq_comm _ outcome]

end

/-! ### Conversions -/

theorem describes_wideOfInt (n : Int) : Describes (WideOf (.whole n)) (wideOfInt n) := by
  intro outcome
  simp only [WideOf, rounds_ofInt (f := .double) (by decide), exists_eq_left', isInfinite_meaning, wideOfInt]
  split
  · exact describes_error .conversionOverflow outcome
  · exact describes_ok _ outcome

theorem describes_wideOf (q : Quantity) : Describes (WideOf q) q.result := by
  cases q with
  | whole n => exact describes_wideOfInt n
  | wide x => exact describes_ok x
  | complex z => exact describes_error (.notReal .complex)

theorem describes_complexOf (q : Quantity) : Describes (ComplexOf q) q.toComplex := by
  cases q with
  | whole n => exact (describes_wideOfInt n).map Complex.ofReal
  | wide x => exact .ofOk (describes_ok (Complex.ofReal x))
  | complex z => exact describes_ok z

/-! ### Operations -/

theorem describes_byKind {onWhole : Int → Int → Outcome Quantity → Prop} {onWide : Wide → Wide → Outcome Quantity → Prop}
    {onComplex : Complex → Complex → Outcome Quantity → Prop} {onWhole' : Int → Int → Except Failure Quantity}
    {onWide' : Wide → Wide → Except Failure Quantity} {onComplex' : Complex → Complex → Except Failure Quantity}
    (hwhole : ∀ m n, Describes (onWhole m n) (onWhole' m n)) (hwide : ∀ x y, Describes (onWide x y) (onWide' x y))
    (hcomplex : ∀ z w, Describes (onComplex z w) (onComplex' z w)) (a b : Quantity) :
    Describes (OfKind onWhole onWide onComplex a b) (Quantity.byKind onWhole' onWide' onComplex' a b) := by
  cases a with
  | whole m =>
    cases b with
    | whole n => exact hwhole m n
    | wide y => exact (describes_wideOfInt m).andThen fun x => .ofOk (hwide x y)
    | complex w => exact (describes_complexOf (.whole m)).andThen fun z => hcomplex z w
  | wide x =>
    cases b with
    | whole n => exact .ofOk ((describes_wideOfInt n).andThen (hwide x))
    | wide y => exact .ofOk (.ofOk (hwide x y))
    | complex w => exact (describes_complexOf (.wide x)).andThen fun z => hcomplex z w
  | complex z => exact (describes_complexOf b).andThen (hcomplex z)

theorem Complex.isSum_iff {a b c : Complex} : a.IsSum b c ↔ a.add b = c := by
  rw [Complex.IsSum, Binary.isSum_iff (by decide), Binary.isSum_iff (by decide), Complex.ext_iff]
  rfl

theorem Complex.isDifference_iff {a b c : Complex} : a.IsDifference b c ↔ a.sub b = c := by
  rw [Complex.IsDifference, Binary.isDifference_iff (by decide), Binary.isDifference_iff (by decide), Complex.ext_iff]
  rfl

theorem Complex.isProduct_iff {a b c : Complex} : a.IsProduct b c ↔ a.mul b = c := by
  have hproduct {x y z : Wide} : Binary.IsProduct x y z ↔ x * y = z := Binary.isProduct_iff (by decide) (by decide)
  simp only [Complex.IsProduct, hproduct, Binary.isSum_iff (f := .double) (by decide),
    Binary.isDifference_iff (f := .double) (by decide), Complex.ext_iff, exists_and_left, exists_eq_left']
  rfl

theorem isFractional_of_meaning {x : Wide} {negative : Bool} {a : ℚ} (hx : x.meaning = .finite negative a) :
    isFractional x = !a.isInt := by
  cases x with
  | nan => cases hx
  | signed m rank hrank =>
    rw [meaning] at hx
    split_ifs at hx
    obtain ⟨rfl, rfl⟩ := Meaning.finite.inj hx
    have hden : (withSign m (Format.double.units rank / Format.double.one)).den =
        (Format.double.units rank / Format.double.one : ℚ).den := by
      cases m with
      | false => rfl
      | true => exact Rat.neg_den _
    rw [isFractional, Rat.isInt, hden, bne, Bool.not_inj_iff, beq_eq_beq, Rat.den_div_natCast_eq_one_iff _ _ Format.double.one_pos.ne',
      Nat.dvd_iff_mod_eq_zero]

theorem units_infinity_mod : Format.double.units Format.double.infinity % Format.double.one = 0 := by decide +kernel

theorem isFinite_of_isFractional {x : Wide} (hx : isFractional x = true) : x.isFinite = true := by
  cases x with
  | nan => cases hx
  | signed m rank hrank =>
    refine bne_iff_ne.mpr fun hinfinite => ?_
    subst hinfinite
    rw [isFractional, units_infinity_mod] at hx
    cases hx

theorem describes_wholeQuotient (m n : Int) : Describes (WholeQuotient m n) (divideWhole m n) := by
  intro outcome
  unfold WholeQuotient divideWhole
  split
  · exact describes_error .wholeDivision outcome
  · simp only [rounds_ratio (f := .double) (by decide) m (by assumption), exists_eq_left', isInfinite_meaning,
      Bool.bne_eq_xor]
    split
    · exact describes_error .quotientOverflow outcome
    · exact describes_ok _ outcome

theorem describes_wideQuotient (x y : Wide) : Describes (WideQuotient x y) (divideWide x y) := by
  intro outcome
  simp only [WideQuotient, divideWide, isZero_meaning (f := .double) (by decide)]
  split
  · exact describes_error .wideDivision outcome
  · exact describes_gives (fun _ => isQuotient_iff (by decide) (by decide)) outcome

section

variable [Library]

theorem describes_complexQuotient (a b : Complex) :
    Describes (ComplexQuotient a b) ((a.div b).map .complex) := by
  intro outcome
  simp only [ComplexQuotient, Complex.div, isZero_meaning (f := .double) (by decide), Complex.isZero, Bool.and_eq_true]
  split
  · exact describes_error .complexDivision outcome
  · exact describes_ok _ outcome

theorem describes_complexPower (a b : Complex) : Describes (ComplexPower a b) ((a.pow b).map .complex) := by
  intro outcome
  simp only [ComplexPower, Complex.pow, isInfinite_meaning, Complex.isInfinite]
  cases Library.complexPower? a b with
  | none => exact describes_error .zeroComplexPower outcome
  | some c =>
    simp only [Bool.or_eq_true]
    split
    · exact describes_error .complexPowerOverflow outcome
    · exact describes_ok _ outcome

theorem describes_widePower (x y : Wide) : Describes (WidePower x y) (powerWide x y) := by
  intro outcome
  by_cases hfinite : x.isFinite = true ∧ y.isFinite = true
  · obtain ⟨m, a, hx⟩ := isFinite_iff.mp hfinite.1
    obtain ⟨n, b, hy⟩ := isFinite_iff.mp hfinite.2
    have hbase : x.isZero = true ↔ a = 0 := by rw [← isZero_meaning (by decide), hx, Meaning.IsZero]
    have hexponent : y.isZero = true ↔ b = 0 := by rw [← isZero_meaning (by decide), hy, Meaning.IsZero]
    have hzeroPower : (x.isZero && y.isNegative && !y.isZero && y.isFinite) = true ↔ a = 0 ∧ b < 0 := by
      rw [neg_iff_of_meaning hy, ← isNegative_of_meaning hy]
      simp [hbase, ← hexponent, hfinite.2, and_assoc]
    have hfractional : (x.isNegative && !x.isZero && x.isFinite && isFractional y) = true ↔ a < 0 ∧ ¬b.isInt = true := by
      rw [neg_iff_of_meaning hx, ← isNegative_of_meaning hx, isFractional_of_meaning hy]
      simp [← hbase, hfinite.1]
    unfold WidePower powerWide
    simp only [hx, hy, hzeroPower, hfractional]
    simp only [hfinite, Bool.and_true, isInfinite_meaning]
    split_ifs
    · exact describes_error .zeroPower outcome
    · exact describes_complexPower _ _ outcome
    · exact describes_error .powerOverflow outcome
    · exact describes_ok _ outcome
  · have hmeaning : WidePower x y outcome ↔ outcome = .ok (.wide (Library.power x y)) := by
      unfold WidePower
      split
      · next hx hy => exact absurd ⟨isFinite_iff.mpr ⟨_, _, hx⟩, isFinite_iff.mpr ⟨_, _, hy⟩⟩ hfinite
      · rfl
    have hzeroPower : ¬(x.isZero && y.isNegative && !y.isZero && y.isFinite) = true := by
      intro hall
      simp only [Bool.and_eq_true] at hall
      exact hfinite ⟨isFinite_of_isZero (by decide) hall.1.1.1, hall.2⟩
    have hfractional : ¬(x.isNegative && !x.isZero && x.isFinite && isFractional y) = true := by
      intro hall
      simp only [Bool.and_eq_true] at hall
      exact hfinite ⟨hall.1.2, isFinite_of_isFractional hall.2⟩
    have hoverflow : ¬((Library.power x y).isInfinite && x.isFinite && y.isFinite) = true := by
      intro hall
      simp only [Bool.and_eq_true] at hall
      exact hfinite ⟨hall.1.2, hall.2⟩
    rw [hmeaning, powerWide, if_neg hzeroPower, if_neg hfractional]
    dsimp only
    rw [if_neg hoverflow]
    exact describes_ok _ outcome

theorem describes_wholePower (m n : Int) : Describes (WholePower m n) (Quantity.powWhole m n) := by
  intro outcome
  unfold WholePower Quantity.powWhole
  split
  · rw [powerWhole_eq]
    exact describes_ok _ outcome
  · exact (describes_wideOfInt m).andThen (fun x => (describes_wideOfInt n).andThen (describes_widePower x)) outcome

theorem describes_apply {text : String} {operator : Operator} (htext : Operator.ofText? text = some operator)
    (a b : Quantity) : Describes (Rule text a b) (Quantity.apply operator a b) := by
  unfold Operator.ofText? at htext
  split at htext
  · obtain rfl := Option.some.inj htext
    exact describes_byKind (fun m n => describes_ok (Quantity.whole (m + n)))
      (fun x y => describes_gives fun _ => isSum_iff (by decide))
      (fun z w => describes_gives fun _ => Complex.isSum_iff) a b
  · obtain rfl := Option.some.inj htext
    exact describes_byKind (fun m n => describes_ok (Quantity.whole (m - n)))
      (fun x y => describes_gives fun _ => isDifference_iff (by decide))
      (fun z w => describes_gives fun _ => Complex.isDifference_iff) a b
  · obtain rfl := Option.some.inj htext
    exact describes_byKind (fun m n => describes_ok (Quantity.whole (m * n)))
      (fun x y => describes_gives fun _ => isProduct_iff (by decide) (by decide))
      (fun z w => describes_gives fun _ => Complex.isProduct_iff) a b
  · obtain rfl := Option.some.inj htext
    exact describes_byKind describes_wholeQuotient describes_wideQuotient describes_complexQuotient a b
  · obtain rfl := Option.some.inj htext
    exact describes_byKind describes_wholePower describes_widePower describes_complexPower a b
  · cases htext

end

end Reference

namespace Expr

open Reference

variable [Library] {tree : Expr}

theorem describes_worth {computed : Except Failure Quantity} (h : tree.reckon = some computed) :
    Describes tree.Worth computed := by
  induction tree generalizing computed with
  | atom text =>
    obtain ⟨n, hn, rfl⟩ := Option.map_eq_some_iff.mp h
    intro outcome
    simp [Worth, hn, Except.mapError, @eq_comm _ outcome]
  | operation operator left right ihLeft ihRight =>
    simp only [reckon, Option.bind_eq_bind, Option.bind_eq_some_iff] at h
    obtain ⟨op, hop, first, hfirst, second, hsecond, hcomputed⟩ := h
    obtain rfl := Option.some.inj hcomputed
    exact (ihLeft hfirst).andThen fun a => (ihRight hsecond).andThen fun b => describes_apply hop a b
  | misfit value => cases h

end Expr

namespace Reference

/-- What an arithmetic text denotes to the reference is, value or failure, what its tree comes to by the rules. -/
theorem denotation_of_parse [Library] {text : String} {tree : Expr} (h : Arithmetic text)
    (hparse : Parser.parse text = .ok ⟨tree, []⟩) (outcome : Outcome Wide) :
    (Reference.denotation .unlimited text).mapError Error.message = outcome ↔ tree.Denotes outcome := by
  obtain ⟨computed, hreckon⟩ := exists_reckon_of_parse h hparse
  have hmessage : (Reference.denotation .unlimited text).mapError Error.message =
      (computed.bind Quantity.result).mapError Failure.message := by
    rw [denotation_of_reckon h hparse hreckon]
    cases computed.bind Quantity.result <;> rfl
  rw [hmessage]
  exact ((Expr.describes_worth hreckon).andThen describes_wideOf outcome).symm

theorem denotation_of_parse_mixed :
    Arithmetic "2^3^2 - (7 /2)*10" ∧ ∃ tree, Parser.parse "2^3^2 - (7 /2)*10" = .ok ⟨tree, []⟩ ∧
      tree.Denotes (.ok (Binary.ofInt 477)) := by
  have harithmetic : Arithmetic "2^3^2 - (7 /2)*10" := ⟨List.all_iff_forall_prop.mp (by decide), by decide, by decide⟩
  let power : Expr := .operation "^" (.atom "2") (.operation "^" (.atom "3") (.atom "2"))
  let product : Expr := .operation "*" (.operation "/" (.atom "7") (.atom "2")) (.atom "10")
  have hparse : Parser.parse "2^3^2 - (7 /2)*10" = .ok ⟨.operation "-" power product, []⟩ := by decide +kernel
  exact ⟨harithmetic, _, hparse, (denotation_of_parse harithmetic hparse _).mp (by decide +kernel)⟩

end Reference

end Reckoner

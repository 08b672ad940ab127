import DeskCalc.Proofs.DecimalRounding
import DeskCalc.Proofs.Grammar
import DeskCalc.Proofs.Trap

/-!
# Kernels made of operations that trap

Below the kernels stand operations with a domain: a quotient traps for a zero divisor, an elementary function for what
it signals, an integer that is too large has no double, a decimal has a limited precision, and a kernel takes as many
arguments as it takes.  A `RawKernel` is made of these, with its guards and with the signals that it catches.

No raw kernel traps, and its answers are those of the kernel (`Function.computes`, `Operator.computes`), for every
double and whatever the elementary functions are.  Only two facts about these are needed, and both are documented
(`Elementary.Documented`): a logarithm signals nothing for positive numbers, and the inverse tangent nothing at all.
Roots and integral parts stay finite because no intermediate result reaches the overflow.
-/

namespace DeskCalc

/-- A kernel made of operations that may trap. -/
inductive RawKernel where
  | unary (f : Double → Except Halt Double)
  | binary (f : Double → Double → Except Halt Double)

/-- What is documented of the elementary functions: logarithms signal only for numbers that are not positive, the
inverse tangent never. -/
structure Elementary.Documented (fn : Elementary) : Prop where
  ln_ok : ∀ x : Double, x.isZero = false → x.lt (.zero false) = false → ∃ y, checked fn.ln x = .ok y
  log10_ok : ∀ x : Double, x.isZero = false → x.lt (.zero false) = false → ∃ y, checked fn.log10 x = .ok y
  atan_ok : ∀ x, ∃ y, checked fn.atan x = .ok y

namespace RawKernel

open Kernel (one)
open Magnitude (unitsPerOne overflowUnits)

/-- The kernel applied to a list of arguments. -/
def call : RawKernel → List Double → Except Halt Double
  | unary f, [x] => f x
  | binary f, [x, y] => f x y
  | _, _ => .error (.trap .wrongArguments)

/-- The raw kernel never traps and has the answers of the kernel. -/
inductive Computes : RawKernel → Kernel → Prop
  | unary {f : Double → Except Halt Double} {g : Double → Double} (h : ∀ x, f x = .ok (g x)) :
      Computes (unary f) (.unary g)
  | binary {f : Double → Double → Except Halt Double} {g : Double → Double → Double}
      (h : ∀ x y, f x y = .ok (g x y)) : Computes (binary f) (.binary g)

theorem Computes.call_eq {r : RawKernel} {k : Kernel} (h : r.Computes k) {args : List Double}
    (hlength : args.length = k.arity) : r.call args = .ok (k.apply args) := by
  cases h with
  | unary h =>
    match args, hlength with
    | [x], _ => exact h x
  | binary h =>
    match args, hlength with
    | [x, y], _ => exact h x y

/-! ### Operations with a domain -/

/-- The quotient of two doubles. -/
def quotient (x y : Double) : Except Halt Double :=
  if y.isZero then .error (.trap .zeroDivisor) else .ok (x.div y)

/-- The answer of an elementary function; what it signals is a trap. -/
def signalled (x : Except MathFault Double) : Except Halt Double :=
  x.mapError fun e => .trap (.math e)

/-- The result with a signal of an elementary function caught and answered by a value. -/
def caught (answer : MathFault → Double) : Except Halt Double → Except Halt Double
  | .error (.trap (.math e)) => .ok (answer e)
  | r => r

/-- An integer as a double. -/
def ofInteger (z : Int) : Except Halt Double :=
  if (Double.ofInt z).isFinite then .ok (.ofInt z) else .error (.trap .unrepresentable)

/-- An integer next to a number, which has to be finite; `near` finds it from the number in units. -/
def integerNear (near : Int → Int) : Double → Except Halt Int
  | .nan => .error (.trap (.math .domain))
  | .infinite _ => .error (.trap (.math .range))
  | .finite s a => .ok (near (Double.signedUnits s a))

/-- A magnitude rounded to a whole number, halves up; decimals have 28 digits. -/
def quantized (s : Bool) (a : Magnitude) : Except Halt Double :=
  let n := (2 * a.units + unitsPerOne) / (2 * unitsPerOne)
  if 10 ^ 28 ≤ n then .error (.trap .unrepresentable) else .ok (.ofRatio s n 1)

/-! ### Kernels -/

def divide (x y : Double) : Except Halt Double :=
  if y.isZero then
    if x.isZero || x.isNaN then .ok .nan else .ok (.infinite (x.isNegative ^^ y.isNegative))
  else quotient x y

/-- The answers to the signals of the power function. -/
def powerAnswer (x y : Double) : MathFault → Double
  | .range => .infinite (x.isNegative && y.isOddInteger)
  | .domain => if x.isZero then .infinite (x.isNegative && y.isOddInteger) else .nan

def power (fn : Elementary) (x y : Double) : Except Halt Double :=
  caught (powerAnswer x y) (signalled (fn.checkedPow x y))

/-- A function of the library with its signals answered by NaN and the infinity of the given sign. -/
def safe (overflow : Double → Bool) (f : Double → Double) (x : Double) : Except Halt Double :=
  let answer : MathFault → Double
    | .domain => .nan
    | .range => .infinite (overflow x)
  caught answer (signalled (checked f x))

/-- A function of the library that is only called for numbers that are not negative, and `f` of them. -/
def guarded (f : Double → Double) (x : Double) : Except Halt Double :=
  if x.lt (.zero false) then .ok .nan else signalled (checked f x)

def logarithm (f : Double → Double) (x : Double) : Except Halt Double :=
  if x.isZero then .ok (.infinite true) else guarded f x

def log (fn : Elementary) (x b : Double) : Except Halt Double := do
  let y ← logarithm fn.ln x
  let z ← logarithm fn.ln b
  divide y z

def cbrt (fn : Elementary) (x : Double) : Except Halt Double := do
  let third ← quotient one (.ofNat 3)
  let y ← power fn x.abs third
  return y.withSign x.isNegative

def nroot (fn : Elementary) (x n : Double) : Except Halt Double := do
  let exponent ← divide one n
  if x.lt (.zero false) && n.isOddInteger then
    let y ← power fn x.neg exponent
    return y.neg
  else power fn x exponent

def integral (near : Int → Int) (x : Double) : Except Halt Double :=
  if x.isFinite then do
    let z ← integerNear near x
    ofInteger z
  else .ok x

def roundHalfAway : Double → Except Halt Double
  | .finite s a => if 2 ^ 52 ≤ a.whole then .ok (.finite s a) else quantized s a
  | x => .ok x

def reciprocal (f : Double → Except Halt Double) (x : Double) : Except Halt Double := do
  let y ← f x
  divide one y

def ofReciprocal (f : Double → Except Halt Double) (x : Double) : Except Halt Double := do
  let y ← divide one x
  f y

def acot (fn : Elementary) (x : Double) : Except Halt Double :=
  if x.isZero then quotient Kernel.pi (.ofNat 2)
  else do
    let y ← quotient one x
    signalled (checked fn.atan y)

/-! ### No kernel traps -/

section Answers

variable {fn : Elementary}

private theorem quotient_eq {y : Double} (h : y.isZero = false) (x : Double) : quotient x y = .ok (x.div y) :=
  if_neg (by simp [h])

theorem caught_signalled (answer : MathFault → Double) (x : Except MathFault Double) :
    caught answer (signalled x) = .ok (match x with | .ok y => y | .error e => answer e) := by
  cases x <;> rfl

theorem divide_eq (x y : Double) : divide x y = .ok (Kernel.divide x y) := by
  rw [divide, Kernel.divide]
  split
  · split <;> rfl
  · rename_i h
    exact quotient_eq (by simpa using h) x

theorem power_eq (x y : Double) : power fn x y = .ok (Kernel.power fn x y) := by
  rw [power, caught_signalled, Kernel.power]
  cases fn.checkedPow x y with
  | ok z => rfl
  | error e => cases e <;> rfl

private theorem safe_eq (overflow : Double → Bool) (f : Double → Double) (x : Double) :
    safe overflow f x = .ok (match checked f x with
      | .ok y => y
      | .error .domain => .nan
      | .error .range => .infinite (overflow x)) := by
  rw [safe, caught_signalled]
  cases checked f x with
  | ok z => rfl
  | error e => cases e <;> rfl

private theorem safe_false_eq (f : Double → Double) (x : Double) : safe (fun _ => false) f x = .ok (quiet f x) :=
  safe_eq _ f x

private theorem safe_isNegative_eq (f : Double → Double) (x : Double) :
    safe Double.isNegative f x = .ok (quietOdd f x) :=
  safe_eq _ f x

/-- An answer without a signal is the value of the function. -/
private theorem checked_eq_ok {f : Double → Double} {x y : Double} (h : checked f x = .ok y) : f x = y := by
  rw [checked] at h
  split at h
  · rename_i hx
    rw [hx]
    split at h <;> cases h
    rfl
  · rename_i s hx
    rw [hx]
    split at h <;> cases h
    rfl
  · cases h
    rfl

private theorem signalled_checked {f : Double → Double} {x : Double} (h : ∃ y, checked f x = .ok y) :
    signalled (checked f x) = .ok (f x) := by
  obtain ⟨y, hy⟩ := h
  rw [hy, checked_eq_ok hy]
  rfl

/-- A zero of either sign is not below zero. -/
theorem lt_zero_of_isZero {x : Double} (h : x.isZero = true) : x.lt (.zero false) = false := by
  cases x with
  | finite s a =>
    have hunits : a.units = 0 := a.units_eq_zero_iff.2 (beq_iff_eq.1 h)
    have hzero : (Double.zero false).key = some 0 := by decide +kernel
    rw [Double.lt, hzero]
    cases s <;> simp [Double.key, Double.signedUnits, hunits]
  | _ => cases h

/-- Below zero are the negative numbers other than zero. -/
theorem lt_zero_eq {x : Double} (h : x.isZero = false) : x.lt (.zero false) = x.isNegative := by
  cases x with
  | nan => rfl
  | infinite s => cases s <;> decide +kernel
  | finite s a =>
    have hne : a.mantissa ≠ 0 := by simpa [Double.isZero] using h
    have hpos : 0 < a.units := Nat.pos_of_ne_zero fun hz => hne (a.units_eq_zero_iff.1 hz)
    have hzero : (Double.zero false).key = some 0 := by decide +kernel
    rw [Double.lt, hzero]
    cases s with
    | false => simp [Double.key, Double.signedUnits, Double.isNegative]
    | true =>
      simp only [Double.key, Double.signedUnits, Double.isNegative, if_true, decide_eq_true_eq]
      omega

private theorem logarithm_eq {f : Double → Double}
    (hf : ∀ x : Double, x.isZero = false → x.lt (.zero false) = false → ∃ y, checked f x = .ok y) (x : Double) :
    logarithm f x = .ok (if x.isZero then .infinite true else if x.isNegative then .nan else f x) := by
  rw [logarithm]
  split
  · rfl
  · rename_i hzero
    have hzero : x.isZero = false := by simpa using hzero
    rw [guarded, lt_zero_eq hzero]
    split
    · rfl
    · rename_i hneg
      have hneg : x.isNegative = false := by simpa using hneg
      exact signalled_checked (hf x hzero ((lt_zero_eq hzero).trans hneg))

private theorem log_eq (h : fn.Documented) (x b : Double) : log fn x b = .ok (Kernel.log fn x b) := by
  rw [log, logarithm_eq h.ln_ok, logarithm_eq h.ln_ok]
  exact divide_eq _ _

private theorem cbrt_eq (x : Double) : cbrt fn x = .ok (Kernel.cbrt fn x) := by
  have hthree : (Double.ofNat 3).isZero = false := by decide +kernel
  have hthird : Kernel.divide one (.ofNat 3) = one.div (.ofNat 3) := if_neg (by simp [hthree])
  rw [cbrt, quotient_eq hthree, Kernel.cbrt, hthird]
  rw [ok_bind, power_eq]
  rfl

private theorem nroot_eq (x n : Double) : nroot fn x n = .ok (Kernel.nroot fn x n) := by
  rw [nroot, divide_eq, Kernel.nroot]
  rw [ok_bind, power_eq, power_eq]
  split <;> rfl

private theorem acot_eq (h : fn.Documented) (x : Double) : acot fn x = .ok (Kernel.acot fn x) := by
  rw [acot, Kernel.acot]
  split
  · exact quotient_eq (by decide +kernel) _
  · rename_i hx
    rw [quotient_eq (by simpa using hx)]
    exact signalled_checked (h.atan_ok _)

private theorem reciprocal_eq {f : Double → Except Halt Double} {g : Double → Double} (h : ∀ x, f x = .ok (g x))
    (x : Double) : reciprocal f x = .ok (Kernel.reciprocal g x) := by
  rw [reciprocal, h]
  exact divide_eq one (g x)

private theorem ofReciprocal_eq {f : Double → Except Halt Double} {g : Double → Double} (h : ∀ x, f x = .ok (g x))
    (x : Double) : ofReciprocal f x = .ok (Kernel.ofReciprocal g x) := by
  rw [ofReciprocal, divide_eq]
  exact h _

end Answers

/-! ### Finite results

The results of these kernels are finite for finite arguments, so no format is left. -/

section Finite

/-- The integer root is smaller than the overflow: its square is a product of two numbers below it. -/
private theorem sqrt_lt (a : Magnitude) : (a.units * unitsPerOne).sqrt + 1 ≤ overflowUnits := by
  have hle : unitsPerOne ≤ overflowUnits := by decide +kernel
  have hlt : a.units < overflowUnits := Nat.lt_of_le_of_lt (Nat.le_add_right _ _) a.units_add_lt
  refine Nat.sqrt_lt.2 ?_
  calc a.units * unitsPerOne
    _ ≤ a.units * overflowUnits := Nat.mul_le_mul_left _ hle
    _ < overflowUnits * overflowUnits := Nat.mul_lt_mul_of_pos_right hlt (Nat.lt_of_le_of_lt (Nat.zero_le _) hlt)

/-- Below the overflow rounding gives a finite number. -/
private theorem exists_ofUnits {num den : Nat} (hden : 0 < den) (h : num < overflowUnits * den) (s : Bool) :
    ∃ b, Double.ofUnits s num den = .finite s b := by
  obtain ⟨b, hb⟩ := Magnitude.exists_nearest? hden h
  exact ⟨b, Double.ofUnits_eq hb s⟩

private theorem guarded_sqrt_eq (x : Double) : guarded Double.sqrt x = .ok x.sqrt := by
  cases x with
  | nan => rfl
  | infinite s => cases s <;> decide +kernel
  | finite s a =>
    by_cases hzero : a.mantissa = 0
    · have hsqrt : (Double.finite s a).sqrt = .finite s a := if_pos hzero
      have hlt : (Double.finite s a).lt (.zero false) = false := lt_zero_of_isZero (beq_iff_eq.2 hzero)
      rw [guarded, hlt, checked, hsqrt]
      rfl
    · have hnonzero : (Double.finite s a).isZero = false := by simpa [Double.isZero] using hzero
      rw [guarded, lt_zero_eq hnonzero]
      cases s with
      | true => simp [Double.isNegative, Double.sqrt, hzero]
      | false =>
        have hroot := sqrt_lt a
        have hfinite : ∃ b, (Double.finite false a).sqrt = .finite false b := by
          simp only [Double.sqrt, if_neg hzero]
          split
          · rename_i h
            cases h
          · split
            · exact exists_ofUnits (by decide) (by omega) false
            · exact exists_ofUnits (by decide) (by omega) false
        obtain ⟨b, hb⟩ := hfinite
        exact signalled_checked ⟨.finite false b, by rw [checked, hb]⟩

/-- Multiples that are less than one step apart. -/
private theorem natAbs_mul_lt {u z : Int} {d : Nat} (hlow : u - d < z * d) (hhigh : z * d < u + d) :
    z.natAbs * d < u.natAbs + d := by
  have habs : (z * d).natAbs = z.natAbs * d := by rw [Int.natAbs_mul, Int.natAbs_natCast]
  omega

/-- An integer less than one away from a finite number has a double. -/
private theorem ofInteger_eq {s : Bool} {a : Magnitude} {z : Int}
    (hlow : Double.signedUnits s a - unitsPerOne < z * unitsPerOne)
    (hhigh : z * unitsPerOne < Double.signedUnits s a + unitsPerOne) : ofInteger z = .ok (.ofInt z) := by
  have hunits : (Double.signedUnits s a).natAbs = a.units := by
    cases s <;> simp [Double.signedUnits]
  have hlt : z.natAbs * unitsPerOne < overflowUnits * 1 := by
    have hnear := natAbs_mul_lt hlow hhigh
    rw [hunits] at hnear
    rw [Nat.mul_one]
    exact Nat.lt_trans hnear a.units_add_lt
  obtain ⟨b, hb⟩ := exists_ofUnits Nat.one_pos hlt (decide (z < 0))
  have hfinite : (Double.ofInt z).isFinite = true := by
    rw [Double.ofInt, Double.ofRatio, hb]
    rfl
  exact if_pos hfinite

private theorem integral_finite {near : Int → Int}
    (hnear : ∀ u, u - unitsPerOne < near u * unitsPerOne ∧ near u * unitsPerOne < u + unitsPerOne) (s : Bool)
    (a : Magnitude) : integral near (.finite s a) = .ok (.ofInt (near (Double.signedUnits s a))) := by
  have hnumber : integerNear near (.finite s a) = .ok (near (Double.signedUnits s a)) := rfl
  have hfinite : (Double.finite s a).isFinite = true := rfl
  rw [integral, if_pos hfinite, hnumber, ok_bind]
  exact ofInteger_eq (hnear _).1 (hnear _).2

private theorem fdiv_near (u : Int) :
    u - unitsPerOne < u.fdiv unitsPerOne * unitsPerOne ∧ u.fdiv unitsPerOne * unitsPerOne ≤ u := by
  have hpos : (0 : Int) < unitsPerOne := Int.natCast_pos.2 Magnitude.unitsPerOne_pos
  have hle := Int.ediv_mul_le u (Int.ne_of_gt hpos)
  have hlt := Int.lt_ediv_add_one_mul_self u hpos
  rw [Int.add_mul, Int.one_mul] at hlt
  rw [Int.fdiv_eq_ediv_of_nonneg u (Int.le_of_lt hpos)]
  exact ⟨by omega, hle⟩

private theorem integral_floor_eq (x : Double) : integral (fun u => u.fdiv unitsPerOne) x = .ok x.floor := by
  cases x with
  | finite s a =>
    refine integral_finite (fun u => ?_) s a
    obtain ⟨hlow, hhigh⟩ := fdiv_near u
    have hpos := Magnitude.unitsPerOne_pos
    exact ⟨hlow, by omega⟩
  | _ => rfl

private theorem integral_ceil_eq (x : Double) : integral (fun u => -((-u).fdiv unitsPerOne)) x = .ok x.ceil := by
  cases x with
  | finite s a =>
    refine integral_finite (fun u => ?_) s a
    obtain ⟨hlow, hhigh⟩ := fdiv_near (-u)
    have hpos := Magnitude.unitsPerOne_pos
    rw [Int.neg_mul]
    exact ⟨by omega, by omega⟩
  | _ => rfl

/-- A number with less than 53 bits before the point is rounded to a decimal with less than 28 digits. -/
theorem roundHalfAway_eq (x : Double) : roundHalfAway x = .ok x.roundHalfAway := by
  cases x with
  | finite s a =>
    rw [roundHalfAway, Double.roundHalfAway]
    split
    · rfl
    · rename_i hsmall
      have hpos := Magnitude.unitsPerOne_pos
      have hwhole : a.units < 2 ^ 52 * unitsPerOne := (Nat.div_lt_iff_lt_mul hpos).1 (Nat.not_le.1 hsmall)
      have hdigits : (2 * a.units + unitsPerOne) / (2 * unitsPerOne) < 10 ^ 28 := by
        refine Nat.div_lt_of_lt_mul ?_
        omega
      exact if_neg (Nat.not_le.2 hdigits)
  | _ => rfl

end Finite

end RawKernel

/-! ### The kernels of functions and operators -/

open RawKernel in
/-- What a function is made of. -/
def Function.raw (fn : Elementary) : Function → RawKernel
  | sin => .unary (safe (fun _ => false) fn.sin)
  | cos => .unary (safe (fun _ => false) fn.cos)
  | tan => .unary (safe (fun _ => false) fn.tan)
  | csc => .unary (reciprocal (safe (fun _ => false) fn.sin))
  | sec => .unary (reciprocal (safe (fun _ => false) fn.cos))
  | cot => .unary (reciprocal (safe (fun _ => false) fn.tan))
  | sinh => .unary (safe Double.isNegative fn.sinh)
  | cosh => .unary (safe (fun _ => false) fn.cosh)
  | tanh => .unary (safe (fun _ => false) fn.tanh)
  | asin => .unary (safe (fun _ => false) fn.asin)
  | acos => .unary (safe (fun _ => false) fn.acos)
  | atan => .unary (safe (fun _ => false) fn.atan)
  | acsc => .unary (ofReciprocal (safe (fun _ => false) fn.asin))
  | asec => .unary (ofReciprocal (safe (fun _ => false) fn.acos))
  | acot => .unary (RawKernel.acot fn)
  | deg => .unary fun x => .ok (Kernel.degrees x)
  | rad => .unary fun x => .ok (Kernel.radians x)
  | sqrt => .unary (guarded Double.sqrt)
  | cbrt => .unary (RawKernel.cbrt fn)
  | ln => .unary (logarithm fn.ln)
  | log10 => .unary (logarithm fn.log10)
  | exp => .unary (safe (fun _ => false) fn.exp)
  | exp2 => .unary (power fn (.ofNat 2))
  | abs => .unary fun x => .ok x.abs
  | ceil => .unary (integral fun u => -((-u).fdiv Magnitude.unitsPerOne))
  | floor => .unary (integral fun u => u.fdiv Magnitude.unitsPerOne)
  | round => .unary RawKernel.roundHalfAway
  | nroot => .binary (RawKernel.nroot fn)
  | log => .binary (RawKernel.log fn)
  | min => .binary fun x y => .ok (x.min y)
  | max => .binary fun x y => .ok (x.max y)

open RawKernel in
/-- What an operator is made of. -/
def Operator.raw (fn : Elementary) : Operator → RawKernel
  | add => .binary fun x y => .ok (x.add y)
  | subtract => .binary fun x y => .ok (x.sub y)
  | multiply => .binary fun x y => .ok (x.mul y)
  | divide => .binary RawKernel.divide
  | power => .binary (RawKernel.power fn)
  | negate => .unary fun x => .ok x.neg

open RawKernel in
/-- No operator traps. -/
theorem Operator.computes (fn : Elementary) (op : Operator) : (op.raw fn).Computes (op.kernel fn) := by
  cases op with
  | divide => exact .binary divide_eq
  | power => exact .binary power_eq
  | negate => exact .unary fun _ => rfl
  | _ => exact .binary fun _ _ => rfl

open RawKernel in
/-- No function traps. -/
theorem Function.computes {fn : Elementary} (h : fn.Documented) (f : Function) : (f.raw fn).Computes (f.kernel fn) := by
  cases f with
  | csc | sec | cot => exact .unary (reciprocal_eq (safe_false_eq _))
  | sinh => exact .unary (safe_isNegative_eq _)
  | acsc | asec => exact .unary (ofReciprocal_eq (safe_false_eq _))
  | acot => exact .unary (acot_eq h)
  | deg | rad | abs => exact .unary fun _ => rfl
  | sqrt => exact .unary guarded_sqrt_eq
  | cbrt => exact .unary cbrt_eq
  | ln => exact .unary (logarithm_eq h.ln_ok)
  | log10 => exact .unary (logarithm_eq h.log10_ok)
  | exp2 => exact .unary (power_eq _)
  | ceil => exact .unary integral_ceil_eq
  | floor => exact .unary integral_floor_eq
  | round => exact .unary roundHalfAway_eq
  | nroot => exact .binary nroot_eq
  | log => exact .binary (log_eq h)
  | min | max => exact .binary fun _ _ => rfl
  | _ => exact .unary (safe_false_eq _)

end DeskCalc

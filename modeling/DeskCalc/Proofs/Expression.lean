import DeskCalc.Proofs.Grammar
import DeskCalc.Proofs.OperatorStack

/-!
# Expressions are converted and evaluated as their trees say

The tokens of a derivation tree are brought into the postorder of the tree, and the stack machine computes its
value from it (`evaluates_derivation`).

The conversion keeps operators waiting whose last operand has been read.  `Conversion.Completes` says that it has
read a whole operand: what waits above the old stack are operators that bind at least as tight as the category of
the operand, and sending them out completes its postorder.  A tree may be read where the operator on top of the
stack does not precede any operator of its category (`Category.FitsOn`).
-/

namespace DeskCalc

namespace Category

/-- The least precedence of an operator at the root of a tree of the category; atoms have none. -/
def level : Category → Nat
  | sum | arguments _ => 2
  | product => 3
  | power => 4
  | signed => 5
  | atom => 6

/-- Whether an operand of the category is read as a whole on top of the stack. -/
def FitsOn (c : Category) : List Pending → Prop
  | .operator top :: _ => ∀ op : Operator, c.level ≤ op.precedence → top.precedes op = false
  | .function _ :: _ => False
  | _ => True

private theorem FitsOn.mono {c d : Category} {stack : List Pending} (h : c.FitsOn stack) (hle : c.level ≤ d.level) :
    d.FitsOn stack := by
  cases stack with
  | nil => trivial
  | cons p stack =>
    cases p with
    | operator top => exact fun op hop => h op (Nat.le_trans hle hop)
    | function f => exact h
    | group n => trivial

/-- After an operator its right operand fits. -/
private theorem fitsOn_rightCategory (op : Operator) (stack : List Pending) :
    op.rightCategory.FitsOn (.operator op :: stack) := by
  intro next hnext
  cases op <;> cases next <;> first | rfl | exact absurd hnext (by decide)

end Category

namespace Operator

private theorem level_leftCategory (op : Operator) : op.category.level ≤ op.leftCategory.level := by
  cases op <;> decide

private theorem level_rightCategory (op : Operator) : op.category.level ≤ op.rightCategory.level := by
  cases op <;> decide

private theorem level_category (op : Operator) : op.category.level = op.precedence := by
  cases op <;> rfl

/-- The operators of a left operand precede the operator after it. -/
private theorem precedes_of_leftCategory {op top : Operator} (hop : op ≠ .negate)
    (h : op.leftCategory.level ≤ top.precedence) : top.precedes op = true := by
  cases op <;> cases top <;> first | rfl | exact absurd rfl hop | exact absurd h (by decide)

end Operator

namespace Conversion

/-- The state after an operand has been read: above `stack` there wait operators of at least the precedence
`level`, and after them the output is `output`. -/
def Completes (level : Nat) (stack : List Pending) (output : List Token) (s : Conversion) : Prop :=
  ∃ above : List Pending, s.stack = above ++ stack ∧
    (∀ p ∈ above, ∃ op : Operator, p = .operator op ∧ level ≤ op.precedence) ∧
    release above s.output = output ∧ ∃ t : Token, s.last = some t ∧ t.endsOperand = true

section Completes

variable {level : Nat} {stack : List Pending} {output : List Token} {s : Conversion}

private theorem Completes.mono {level' : Nat} (h : Completes level stack output s) (hle : level' ≤ level) :
    Completes level' stack output s := by
  obtain ⟨above, hstack, hall, hrest⟩ := h
  refine ⟨above, hstack, fun p hp => ?_, hrest⟩
  obtain ⟨op, rfl, hop⟩ := hall p hp
  exact ⟨op, rfl, Nat.le_trans hle hop⟩

/-- The operator under a complete operand belongs to the operand of that operator. -/
theorem Completes.pop {op : Operator} (h : Completes level (.operator op :: stack) output s)
    (hle : op.precedence ≤ level) : Completes op.precedence stack (.operator op :: output) s := by
  obtain ⟨above, hstack, hall, hout, hlast⟩ := h
  refine ⟨above ++ [.operator op], by simpa using hstack, ?_, ?_, hlast⟩
  · intro p hp
    rw [List.mem_append, List.mem_singleton] at hp
    rcases hp with hp | rfl
    · obtain ⟨top, rfl, htop⟩ := hall p hp
      exact ⟨top, rfl, Nat.le_trans hle htop⟩
    · exact ⟨op, rfl, Nat.le_refl _⟩
  · rw [release_append, hout]
    rfl

private theorem not_expectsOperand_of_endsOperand {t : Token} (h : t.endsOperand = true) :
    expectsOperand (some t) = false := by
  cases t <;> first | rfl | exact absurd h Bool.false_ne_true

theorem Completes.unwind {n : Nat} {below : List Pending} (h : Completes level (.group n :: below) output s) :
    unwind s.output s.stack = some (n, below, output) := by
  obtain ⟨above, hstack, hall, hout, -⟩ := h
  rw [hstack, unwind_append, hout]
  intro p hp
  obtain ⟨op, rfl, -⟩ := hall p hp
  rfl

private theorem Completes.last_ne {t : Token} (h : Completes level stack output s) (ht : t.endsOperand = false) :
    s.last ≠ some t := by
  obtain ⟨-, -, -, -, u, hlast, hu⟩ := h
  rw [hlast]
  rintro ⟨rfl⟩
  rw [ht] at hu
  exact Bool.noConfusion hu

/-- An infix operator after its left operand: the operand is sent out and the operator waits. -/
theorem Completes.readOperator {op : Operator} (hop : op ≠ .negate)
    (h : Completes op.leftCategory.level stack output s) (hfit : op.category.FitsOn stack) :
    s.readOperator op = .ok ⟨.operator op :: stack, output, some (.operator op)⟩ := by
  obtain ⟨above, hstack, hall, hout, t, hlast, ht⟩ := h
  have habove : ∀ p ∈ above, yieldsTo op p = true := by
    intro p hp
    obtain ⟨top, rfl, htop⟩ := hall p hp
    exact Operator.precedes_of_leftCategory hop htop
  have hstop : stack.takeWhile (yieldsTo op) = [] ∧ stack.dropWhile (yieldsTo op) = stack := by
    cases stack with
    | nil => exact ⟨rfl, rfl⟩
    | cons p rest =>
      have hp : ¬ yieldsTo op p = true := by
        cases p with
        | operator top => exact Bool.eq_false_iff.1 (hfit op (Nat.le_of_eq op.level_category))
        | function f => exact hfit.elim
        | group n => exact Bool.false_ne_true
      exact ⟨List.takeWhile_cons_of_neg hp, List.dropWhile_cons_of_neg hp⟩
  have hpush : pushOperator op s.output s.stack = (.operator op :: stack, output) := by
    rw [pushOperator_eq, hstack, List.dropWhile_append_of_pos habove, List.takeWhile_append_of_pos habove,
      hstop.1, hstop.2, List.append_nil, hout]
  rw [Conversion.readOperator, hlast, not_expectsOperand_of_endsOperand ht, hpush]
  rfl

end Completes

/-! ### Reading trees -/

/-- Where an operand is expected and fits, the conversion reads the tokens `ts` as one with the postorder `post`. -/
def ReadsOperand (c : Category) (ts post : List Token) : Prop :=
  ∀ s, expectsOperand s.last = true → c.FitsOn s.stack →
    ∃ s', ts.foldlM read s = .ok s' ∧ Completes c.level s.stack (post.reverse ++ s.output) s'

/-- The conversion reads the tokens `ts` of a tree with the postorder `post`.  Arguments are read after the open
parenthesis of their call. -/
def Reads : Category → List Token → List Token → Prop
  | .arguments count, ts, post => ∀ (f : Function) (below : List Pending) (output : List Token),
      ∃ s, ts.foldlM read ⟨.group 1 :: .function f :: below, output, some .opening⟩ = .ok s ∧
        Completes Category.sum.level (.group count :: .function f :: below) (post.reverse ++ output) s
  | c, ts, post => ReadsOperand c ts post

theorem foldlM_read_append {s s' : Conversion} {ts : List Token} (h : ts.foldlM read s = .ok s')
    (us : List Token) : (ts ++ us).foldlM read s = us.foldlM read s' := by
  rw [List.foldlM_append, h]
  rfl

theorem foldlM_read_cons {s s' : Conversion} {t : Token} (h : s.read t = .ok s') (ts : List Token) :
    (t :: ts).foldlM read s = ts.foldlM read s' := by
  rw [List.foldlM_cons, h]
  rfl

/-- An operand may stand where one of a looser category is expected. -/
private theorem ReadsOperand.widen {c d : Category} {ts post : List Token} (h : ReadsOperand d ts post)
    (hle : c.level ≤ d.level) : ReadsOperand c ts post := by
  intro s hs hfit
  obtain ⟨s', hrun, hdone⟩ := h s hs (hfit.mono hle)
  exact ⟨s', hrun, hdone.mono hle⟩

private theorem reads_operand {t : Token} (hread : ∀ s, read s t = .ok ⟨s.stack, t :: s.output, some t⟩)
    (ht : t.endsOperand = true) : ReadsOperand .atom [t] [t] := by
  intro s _ _
  refine ⟨⟨s.stack, t :: s.output, some t⟩, ?_, [], rfl, by simp, rfl, t, rfl, ht⟩
  rw [foldlM_read_cons (hread s)]
  rfl

/-- The parenthesis around an operand is closed. -/
private theorem reads_group {ts post : List Token} (h : ReadsOperand .sum ts post) :
    ReadsOperand .atom (.opening :: (ts ++ [.closing])) post := by
  intro s _ hfit
  obtain ⟨s', hrun, hdone⟩ := h ⟨.group 1 :: s.stack, s.output, some .opening⟩ rfl trivial
  refine ⟨⟨s.stack, post.reverse ++ s.output, some .closing⟩, ?_, [], rfl, by simp, rfl, .closing, rfl, rfl⟩
  have hclose : s'.read .closing = .ok ⟨s.stack, post.reverse ++ s.output, some .closing⟩ := by
    have hlast : s'.last ≠ some .comma := hdone.last_ne rfl
    rw [read, readClosing, if_neg hlast, hdone.unwind]
    -- what lies below a bare group is not a function
    cases hs : s.stack with
    | nil => rfl
    | cons p below =>
      rw [hs] at hfit
      cases p with
      | operator op => rfl
      | function f => exact hfit.elim
      | group n => rfl
  rw [foldlM_read_cons rfl, foldlM_read_append hrun, foldlM_read_cons hclose]
  rfl

private theorem reads_call {f : Function} {ts post : List Token} (h : Reads (.arguments f.arity) ts post) :
    ReadsOperand .atom (.function f :: .opening :: (ts ++ [.closing])) (post ++ [.function f]) := by
  intro s _ _
  obtain ⟨s', hrun, hdone⟩ := h f s.stack s.output
  refine ⟨⟨s.stack, .function f :: (post.reverse ++ s.output), some .closing⟩, ?_, [], rfl, by simp, by simp,
    .closing, rfl, rfl⟩
  have hclose : s'.read .closing = .ok ⟨s.stack, .function f :: (post.reverse ++ s.output), some .closing⟩ := by
    have hlast : s'.last ≠ some .comma := hdone.last_ne rfl
    rw [read, readClosing, if_neg hlast, hdone.unwind]
    exact if_neg (Nat.lt_irrefl _)
  rw [foldlM_read_cons rfl, foldlM_read_cons rfl, foldlM_read_append hrun, foldlM_read_cons hclose]
  rfl

private theorem reads_minus {ts post : List Token} (h : ReadsOperand .signed ts post) :
    ReadsOperand .signed (.operator .subtract :: ts) (post ++ [.operator .negate]) := by
  intro s hs _
  have hread : s.read (.operator .subtract) =
      .ok ⟨.operator .negate :: s.stack, s.output, some (.operator .subtract)⟩ := by
    rw [read, readOperator, if_pos hs, pushOperator_negate]
    rfl
  obtain ⟨s', hrun, hdone⟩ := h ⟨.operator .negate :: s.stack, s.output, some (.operator .subtract)⟩ rfl
    (Category.fitsOn_rightCategory .negate s.stack)
  refine ⟨s', by rw [foldlM_read_cons hread, hrun], ?_⟩
  rw [List.reverse_append]
  exact hdone.pop (Nat.le_refl _)

private theorem reads_plus {ts post : List Token} (h : ReadsOperand .signed ts post) :
    ReadsOperand .signed (.operator .add :: ts) post := by
  intro s hs hfit
  have hread : s.read (.operator .add) = .ok ⟨s.stack, s.output, some (.operator .add)⟩ := by
    rw [read, readOperator, if_pos hs]
    rfl
  obtain ⟨s', hrun, hdone⟩ := h ⟨s.stack, s.output, some (.operator .add)⟩ rfl hfit
  exact ⟨s', by rw [foldlM_read_cons hread, hrun], hdone⟩

/-- An infix operator between its operands. -/
private theorem reads_infix (op : Operator) (hop : op ≠ .negate) {ts us post post' : List Token}
    (hleft : ReadsOperand op.leftCategory ts post) (hright : ReadsOperand op.rightCategory us post') :
    ReadsOperand op.category (ts ++ .operator op :: us) (post ++ post' ++ [.operator op]) := by
  intro s hs hfit
  obtain ⟨s₁, hrun₁, hdone₁⟩ := hleft s hs (hfit.mono op.level_leftCategory)
  have hread : s₁.read (.operator op) =
      .ok ⟨.operator op :: s.stack, post.reverse ++ s.output, some (.operator op)⟩ :=
    hdone₁.readOperator hop hfit
  obtain ⟨s₂, hrun₂, hdone₂⟩ := hright ⟨.operator op :: s.stack, post.reverse ++ s.output, some (.operator op)⟩ rfl
    (Category.fitsOn_rightCategory op s.stack)
  -- the operator still waits; it is the first that the right operand is completed with
  refine ⟨s₂, by rw [foldlM_read_append hrun₁, foldlM_read_cons hread, hrun₂], ?_⟩
  have hpop := hdone₂.pop (by rw [← op.level_category]; exact op.level_rightCategory)
  rw [op.level_category]
  simpa using hpop

/-- The first argument of a call. -/
private theorem reads_first {ts post : List Token} (h : ReadsOperand .sum ts post) : Reads (.arguments 1) ts post :=
  fun f below output => h ⟨.group 1 :: .function f :: below, output, some .opening⟩ rfl trivial

/-- A comma and one more argument of a call. -/
private theorem reads_next {count : Nat} {ts us post post' : List Token} (hargs : Reads (.arguments count) ts post)
    (hlast : ReadsOperand .sum us post') :
    Reads (.arguments (count + 1)) (ts ++ .comma :: us) (post ++ post') := by
  intro f below output
  obtain ⟨s₁, hrun₁, hdone₁⟩ := hargs f below output
  have hread : s₁.read .comma =
      .ok ⟨.group (count + 1) :: .function f :: below, post.reverse ++ output, some .comma⟩ := by
    have hfull : argumentIsEmpty s₁.last = false := by
      obtain ⟨-, -, -, -, t, hlast, ht⟩ := hdone₁
      rw [hlast]
      cases t <;> first | rfl | exact absurd ht Bool.false_ne_true
    rw [read, readComma, hfull, hdone₁.unwind]
    rfl
  obtain ⟨s₂, hrun₂, hdone₂⟩ := hlast ⟨.group (count + 1) :: .function f :: below, post.reverse ++ output, some .comma⟩
    rfl trivial
  refine ⟨s₂, by rw [foldlM_read_append hrun₁, foldlM_read_cons hread, hrun₂], ?_⟩
  simpa using hdone₂

theorem reads_derivation {c : Category} (d : Derivation c) : Reads c d.yield d.postorder := by
  induction d with
  | number x => exact reads_operand (fun _ => rfl) rfl
  | previous x => exact reads_operand (fun _ => rfl) rfl
  | constant n x => exact reads_operand (fun _ => rfl) rfl
  | group e ih => exact reads_group ih
  | call f args ih => exact reads_call ih
  | ofAtom a ih => exact ReadsOperand.widen ih (by decide)
  | minus u ih => exact reads_minus ih
  | plus u ih => exact reads_plus ih
  | ofSigned u ih => exact ReadsOperand.widen ih (by decide)
  | raise u p ihu ihp => exact reads_infix .power (by decide) ihu ihp
  | ofPower p ih => exact ReadsOperand.widen ih (by decide)
  | multiply q p ihq ihp => exact reads_infix .multiply (by decide) ihq ihp
  | divide q p ihq ihp => exact reads_infix .divide (by decide) ihq ihp
  | ofProduct q ih => exact ReadsOperand.widen ih (by decide)
  | add e q ihe ihq => exact reads_infix .add (by decide) ihe ihq
  | subtract e q ihe ihq => exact reads_infix .subtract (by decide) ihe ihq
  | first e ih => exact reads_first ih
  | next args e ihargs ihe => exact reads_next ihargs ihe

end Conversion

/-- The conversion brings the tokens of a tree into its postorder. -/
theorem toPostfix_yield (e : Derivation .sum) : toPostfix e.yield = .ok e.postorder := by
  obtain ⟨s, hrun, above, hstack, hall, hout, -⟩ := Conversion.reads_derivation e Conversion.start rfl trivial
  have hfinish : s.finish = .ok e.postorder := by
    rw [Conversion.finish_eq_ok_iff, hstack]
    refine ⟨fun p hp => ?_, ?_⟩
    · obtain ⟨op, rfl, -⟩ := hall p (by simpa [Conversion.start] using hp)
      rfl
    · have hrelease : Conversion.release (above ++ Conversion.start.stack) s.output = e.postorder.reverse := by
        simpa [Conversion.start] using hout
      rw [hrelease, List.reverse_reverse]
  rw [toPostfix, hrun]
  exact hfinish

/-! ### The stack machine on a postorder -/

namespace Category

/-- The stack after a value of the category has been pushed; the last argument is topmost. -/
def push : (c : Category) → c.Meaning → List Double → List Double
  | .arguments _, xs, stack => List.reverse xs ++ stack
  | .sum, x, stack => x :: stack
  | .product, x, stack => x :: stack
  | .power, x, stack => x :: stack
  | .signed, x, stack => x :: stack
  | .atom, x, stack => x :: stack

private theorem push_append (xs : List Double) (x : Double) (stack : List Double) :
    x :: (List.reverse xs ++ stack) = List.reverse (xs ++ [x]) ++ stack := by
  rw [List.reverse_append]
  rfl

end Category

private theorem Kernel.onStack_apply {k : Kernel} {xs : List Double} (h : xs.length = k.arity) (stack : List Double) :
    k.onStack (xs.reverse ++ stack) = some (k.apply xs :: stack) := by
  cases k with
  | unary f =>
    match xs, h with
    | [x], _ => rfl
  | binary f =>
    match xs, h with
    | [x, y], _ => rfl

variable {fn : Elementary} {mode : AngleMode}

private theorem Derivation.length_value {count : Nat} :
    (args : Derivation (.arguments count)) → List.length (args.value fn mode) = count
  | .first _ => rfl
  | .next args e => by
    have ih := length_value args
    have hlen := @List.length_append Double (args.value fn mode) [e.value fn mode]
    rw [ih] at hlen
    exact hlen

theorem evalStep_operator {op : Operator} {xs : List Double} (h : xs.length = op.arity) (stack : List Double) :
    evalStep fn mode (xs.reverse ++ stack) (.operator op) = .ok ((op.kernel fn).apply xs :: stack) := by
  rw [evalStep, Kernel.onStack_apply (by rw [h, Operator.arity_kernel])]
  rfl

theorem evalStep_function {f : Function} {xs : List Double} (h : xs.length = f.arity) (stack : List Double) :
    evalStep fn mode (xs.reverse ++ stack) (.function f) = .ok ((f.kernelIn fn mode).apply xs :: stack) := by
  rw [evalStep, Kernel.onStack_apply (by rw [h, Function.arity_kernelIn])]
  rfl

private theorem foldlM_evalStep_append {stack stack' : List Double} {ts : List Token}
    (h : ts.foldlM (evalStep fn mode) stack = .ok stack') (us : List Token) :
    (ts ++ us).foldlM (evalStep fn mode) stack = us.foldlM (evalStep fn mode) stack' := by
  rw [List.foldlM_append, h]
  rfl

/-- An operator after the postorders of its two operands. -/
private theorem foldlM_evalStep_infix (op : Operator) (hop : op.arity = 2) {ts us : List Token} {x y : Double}
    (hx : ∀ stack, ts.foldlM (evalStep fn mode) stack = .ok (x :: stack))
    (hy : ∀ stack, us.foldlM (evalStep fn mode) stack = .ok (y :: stack)) (stack : List Double) :
    (ts ++ us ++ [Token.operator op]).foldlM (evalStep fn mode) stack = .ok ((op.kernel fn).apply [x, y] :: stack) := by
  have hstep : evalStep fn mode (y :: x :: stack) (.operator op) = .ok ((op.kernel fn).apply [x, y] :: stack) :=
    @evalStep_operator fn mode op [x, y] hop.symm stack
  rw [List.append_assoc, foldlM_evalStep_append (hx stack), foldlM_evalStep_append (hy _), List.foldlM_cons, hstep]
  rfl

/-- The stack machine pushes the value of a tree. -/
theorem foldlM_evalStep_postorder {c : Category} (d : Derivation c) (stack : List Double) :
    d.postorder.foldlM (evalStep fn mode) stack = .ok (c.push (d.value fn mode) stack) := by
  induction d generalizing stack with
  | number x => rfl
  | previous x => rfl
  | constant n x => rfl
  | group e ih => exact ih stack
  | call f args ih =>
    have hstep : evalStep fn mode ((Category.arguments f.arity).push (args.value fn mode) stack) (.function f) =
        .ok ((f.kernelIn fn mode).apply (args.value fn mode) :: stack) :=
      evalStep_function args.length_value stack
    rw [Derivation.postorder, foldlM_evalStep_append (ih stack), List.foldlM_cons, hstep]
    rfl
  | ofAtom a ih => exact ih stack
  | minus u ih =>
    rw [Derivation.postorder, foldlM_evalStep_append (ih stack)]
    rfl
  | plus u ih => exact ih stack
  | ofSigned u ih => exact ih stack
  | raise u p ihu ihp => exact foldlM_evalStep_infix .power rfl ihu ihp stack
  | ofPower p ih => exact ih stack
  | multiply q p ihq ihp => exact foldlM_evalStep_infix .multiply rfl ihq ihp stack
  | divide q p ihq ihp => exact foldlM_evalStep_infix .divide rfl ihq ihp stack
  | ofProduct q ih => exact ih stack
  | add e q ihe ihq => exact foldlM_evalStep_infix .add rfl ihe ihq stack
  | subtract e q ihe ihq => exact foldlM_evalStep_infix .subtract rfl ihe ihq stack
  | first e ih => exact ih stack
  | next args e ihargs ihe =>
    rw [Derivation.postorder, foldlM_evalStep_append (ihargs stack), ihe]
    exact congrArg Except.ok (Category.push_append (args.value fn mode) (e.value fn mode) stack)

theorem evalPostfix_postorder (e : Derivation .sum) :
    evalPostfix fn mode e.postorder = .ok (e.value fn mode) := by
  rw [evalPostfix, foldlM_evalStep_postorder e []]
  rfl

/-- The tokens of every derivation tree are brought into its postorder, from which the stack machine computes its
value, in either angle mode. -/
theorem evaluates_derivation (fn : Elementary) (mode : AngleMode) (e : Derivation .sum) :
    toPostfix e.yield = .ok e.postorder ∧ evalPostfix fn mode e.postorder = .ok (e.value fn mode) :=
  ⟨toPostfix_yield e, evalPostfix_postorder e⟩

end DeskCalc

import DeskCalc.Proofs.Grammar
import DeskCalc.Proofs.Nesting

/-!
# Which tokens are derivable

A list of tokens is derivable if every token stands in its place, every parenthesis is closed and every call has its
arguments (`derivable_of_wellFormed`).

The tree is built from left to right.  What stands before an operand is described by what it becomes when the operand
arrives (`Expects`), so that no precedences occur here: an operator and an operand may be appended to every sum
(`Derivable.appendOperator`), wherever the operator goes in the tree.
-/

namespace DeskCalc

/-- Whether the tokens are those of a tree of the category. -/
def Derivable (c : Category) (ts : List Token) : Prop :=
  ∃ d : Derivation c, d.yield = ts

namespace Derivable

variable {ts us : List Token}

private theorem sum_of_signed (h : Derivable .signed ts) : Derivable .sum ts := by
  obtain ⟨u, rfl⟩ := h
  exact ⟨.ofProduct (.ofPower (.ofSigned u)), rfl⟩

theorem sign {op : Operator} (hop : op = .add ∨ op = .subtract) (h : Derivable .signed ts) :
    Derivable .signed (.operator op :: ts) := by
  obtain ⟨u, rfl⟩ := h
  rcases hop with rfl | rfl
  · exact ⟨.plus u, rfl⟩
  · exact ⟨.minus u, rfl⟩

/-- The last operand of the power becomes a base. -/
private theorem appendPower : (p : Derivation .power) → (u : Derivation .signed) →
    Derivable .power (p.yield ++ .operator .power :: u.yield)
  | .ofSigned v, u => ⟨.raise v (.ofSigned u), rfl⟩
  | .raise v p, u => by
    obtain ⟨d, hd⟩ := appendPower p u
    exact ⟨.raise v d, by simp [Derivation.yield, hd]⟩

private theorem appendProduct {op : Operator} (hop : op = .multiply ∨ op = .divide ∨ op = .power)
    (q : Derivation .product) (u : Derivation .signed) : Derivable .product (q.yield ++ .operator op :: u.yield) := by
  rcases hop with rfl | rfl | rfl
  · exact ⟨.multiply q (.ofSigned u), rfl⟩
  · exact ⟨.divide q (.ofSigned u), rfl⟩
  · -- the operator goes to the last factor
    match q with
    | .ofPower p =>
      obtain ⟨d, hd⟩ := appendPower p u
      exact ⟨.ofPower d, hd⟩
    | .multiply q p =>
      obtain ⟨d, hd⟩ := appendPower p u
      exact ⟨.multiply q d, by simp [Derivation.yield, hd]⟩
    | .divide q p =>
      obtain ⟨d, hd⟩ := appendPower p u
      exact ⟨.divide q d, by simp [Derivation.yield, hd]⟩

private theorem appendFactor {op : Operator} (hop : op = .multiply ∨ op = .divide ∨ op = .power) (e : Derivation .sum)
    (u : Derivation .signed) : Derivable .sum (e.yield ++ .operator op :: u.yield) := by
  -- the operator goes to the last summand
  match e with
  | .ofProduct q =>
    obtain ⟨d, hd⟩ := appendProduct hop q u
    exact ⟨.ofProduct d, hd⟩
  | .add e q =>
    obtain ⟨d, hd⟩ := appendProduct hop q u
    exact ⟨.add e d, by simp [Derivation.yield, hd]⟩
  | .subtract e q =>
    obtain ⟨d, hd⟩ := appendProduct hop q u
    exact ⟨.subtract e d, by simp [Derivation.yield, hd]⟩

/-- A sum may be continued by any infix operator and an operand. -/
theorem appendOperator {op : Operator} (hop : op ≠ .negate) (h : Derivable .sum ts) (hu : Derivable .signed us) :
    Derivable .sum (ts ++ .operator op :: us) := by
  obtain ⟨e, rfl⟩ := h
  obtain ⟨u, rfl⟩ := hu
  cases op with
  | add => exact ⟨.add e (.ofPower (.ofSigned u)), rfl⟩
  | subtract => exact ⟨.subtract e (.ofPower (.ofSigned u)), rfl⟩
  | multiply => exact appendFactor (.inl rfl) e u
  | divide => exact appendFactor (.inr (.inl rfl)) e u
  | power => exact appendFactor (.inr (.inr rfl)) e u
  | negate => exact absurd rfl hop

end Derivable

/-! ### What stands before an operand -/

/-- The tokens before an operand: with any operand they become a sum. -/
def Expects (ts : List Token) : Prop :=
  ∀ us, Derivable .signed us → Derivable .sum (ts ++ us)

private theorem expects_nil : Expects [] :=
  fun _ h => h.sum_of_signed

theorem Expects.sign {ts : List Token} {op : Operator} (hop : op = .add ∨ op = .subtract) (h : Expects ts) :
    Expects (ts ++ [.operator op]) := by
  intro us hus
  rw [List.append_assoc]
  exact h _ (hus.sign hop)

private theorem Derivable.expects {ts : List Token} {op : Operator} (hop : op ≠ .negate) (h : Derivable .sum ts) :
    Expects (ts ++ [.operator op]) := by
  intro us hus
  rw [List.append_assoc]
  exact h.appendOperator hop hus

theorem Expects.atom {ts us : List Token} (h : Expects ts) (hus : Derivable .atom us) : Derivable .sum (ts ++ us) := by
  obtain ⟨a, rfl⟩ := hus
  exact h _ ⟨.ofAtom a, rfl⟩

/-- The tokens before the last of `n` arguments: with any sum they become the arguments. -/
def LeadsTo (n : Nat) (ts : List Token) : Prop :=
  ∀ us, Derivable .sum us → Derivable (.arguments n) (ts ++ us)

private theorem leadsTo_first : LeadsTo 1 [] := by
  rintro us ⟨e, rfl⟩
  exact ⟨.first e, rfl⟩

theorem LeadsTo.next {n : Nat} {ts us : List Token} (h : LeadsTo n ts) (hus : Derivable .sum us) :
    LeadsTo (n + 1) (ts ++ us ++ [.comma]) := by
  rintro vs ⟨e, rfl⟩
  obtain ⟨args, hargs⟩ := h us hus
  exact ⟨.next args e, by simp [Derivation.yield, hargs]⟩

/-- The tokens up to the beginning of the current argument, with the parentheses that they open. -/
inductive Context : List OpenGroup → List Token → Prop where
  | outermost : Context [] []
  | group {groups : List OpenGroup} {ctx ts : List Token} (outer : Context groups ctx) (before : Expects ts) :
      Context (⟨none, 1⟩ :: groups) (ctx ++ ts ++ [.opening])
  | call {groups : List OpenGroup} {ctx ts lead : List Token} {f : Function} {n : Nat} (outer : Context groups ctx)
      (before : Expects ts) (leads : LeadsTo n lead) :
      Context (⟨some f, n⟩ :: groups) (ctx ++ ts ++ .function f :: .opening :: lead)

/-- What has been read of the current argument after the token `last`: a sum; what stands before an operand; or the
name of a function whose parenthesis is still to come. -/
inductive Reaches : Option Token → List Token → Prop where
  | sum {last : Option Token} {ts : List Token} (ends : ended last = true) (derivable : Derivable .sum ts) :
      Reaches last ts
  | start {last : Option Token} {ts : List Token} (unended : ended last = false) (bare : calleeAfter last = none)
      (expects : Expects ts) : Reaches last ts
  | callee {f : Function} {ts : List Token} (expects : Expects ts) :
      Reaches (some (.function f)) (ts ++ [.function f])

/-- The tokens can be read as the beginning of a sum in which the parentheses `groups` are open. -/
def Parsed (last : Option Token) (groups : List OpenGroup) (ts : List Token) : Prop :=
  ∃ ctx cur, Context groups ctx ∧ Reaches last cur ∧ ts = ctx ++ cur

/-! ### One more token -/

/-- Whether the token may stand here: infix operators, commas and closing parentheses come after an operand, a comma
while there is room for an argument, and a closing parenthesis when there is none left. -/
def Token.InPlace (last : Option Token) (groups : List OpenGroup) : Token → Prop
  | .operator op => op ≠ .negate ∧ (ended last = true ∨ op = .add ∨ op = .subtract)
  | .comma => ended last = true ∧ ∃ g, groups.head? = some g ∧ g.arguments < g.capacity
  | .closing => ended last = true ∧ ∃ g, groups.head? = some g ∧ g.arguments = g.capacity
  | _ => True

section Parsed

variable {last : Option Token} {groups : List OpenGroup} {ts cur : List Token}

private theorem Reaches.derivable_sum (h : Reaches last cur) (hlast : ended last = true) : Derivable .sum cur := by
  cases h with
  | sum _ h => exact h
  | start hopen => rw [hopen] at hlast; exact Bool.noConfusion hlast
  | callee => exact Bool.noConfusion hlast

/-- An operand may begin after `last`, unless it is a function. -/
private theorem Reaches.expects_of_follows {t : Token} (h : Reaches last cur) (hfollows : t.Follows last)
    (hbegins : t.beginsOperand = true) (hne : t ≠ .opening) : Expects cur := by
  have hlast := hfollows.ended_eq hbegins
  have hbare := hfollows.calleeAfter_eq hne
  cases h with
  | sum hends =>
    rw [hends] at hlast
    exact Bool.noConfusion hlast
  | start _ _ h => exact h
  | callee => cases hbare

theorem Parsed.operand {t : Token} (h : Parsed last groups ts) (hatom : Derivable .atom [t])
    (hends : t.endsOperand = true) (hfollows : t.Follows last) (hbegins : t.beginsOperand = true)
    (hne : t ≠ .opening) : Parsed (some t) groups (ts ++ [t]) := by
  obtain ⟨ctx, cur, hctx, hcur, rfl⟩ := h
  have hexpects := hcur.expects_of_follows hfollows hbegins hne
  exact ⟨ctx, cur ++ [t], hctx, .sum hends (hexpects.atom hatom), by simp⟩

theorem Parsed.function {f : Function} (h : Parsed last groups ts) (hfollows : (Token.function f).Follows last) :
    Parsed (some (.function f)) groups (ts ++ [.function f]) := by
  obtain ⟨ctx, cur, hctx, hcur, rfl⟩ := h
  have hexpects := hcur.expects_of_follows hfollows rfl (by simp)
  exact ⟨ctx, cur ++ [.function f], hctx, .callee hexpects, by simp⟩

theorem Parsed.opening (h : Parsed last groups ts) (hfollows : Token.opening.Follows last) :
    Parsed (some .opening) (⟨calleeAfter last, 1⟩ :: groups) (ts ++ [.opening]) := by
  obtain ⟨ctx, cur, hctx, hcur, rfl⟩ := h
  have hstart : Reaches (some .opening) [] := .start rfl rfl expects_nil
  cases hcur with
  | sum hends hsum =>
    rw [hfollows.ended_eq rfl] at hends
    exact Bool.noConfusion hends
  | start hopen hbare hexpects =>
    rw [hbare]
    exact ⟨ctx ++ cur ++ [.opening], [], .group hctx hexpects, hstart, by simp⟩
  | @callee f before hexpects =>
    show Parsed _ (⟨some f, 1⟩ :: groups) _
    exact ⟨ctx ++ before ++ .function f :: .opening :: [], [], .call hctx hexpects leadsTo_first, hstart, by simp⟩

theorem Parsed.comma (h : Parsed last groups ts) (hplace : Token.comma.InPlace last groups) :
    Parsed (some .comma) (nest last groups .comma) (ts ++ [.comma]) := by
  obtain ⟨ctx, cur, hctx, hcur, rfl⟩ := h
  obtain ⟨hends, g, hg, hroom⟩ := hplace
  have hsum := hcur.derivable_sum hends
  cases hctx with
  | outermost => cases hg
  | group outer before =>
    cases hg
    exact absurd hroom (Nat.lt_irrefl 1)
  | @call groups ctx ts lead f n outer before leads =>
    show Parsed _ (⟨some f, n + 1⟩ :: groups) _
    exact ⟨ctx ++ ts ++ .function f :: .opening :: (lead ++ cur ++ [.comma]), [], .call outer before (leads.next hsum),
      .start rfl rfl expects_nil, by simp⟩

theorem Parsed.closing (h : Parsed last groups ts) (hplace : Token.closing.InPlace last groups) :
    Parsed (some .closing) groups.tail (ts ++ [.closing]) := by
  obtain ⟨ctx, cur, hctx, hcur, rfl⟩ := h
  obtain ⟨hends, g, hg, hfull⟩ := hplace
  have hsum := hcur.derivable_sum hends
  cases hctx with
  | outermost => cases hg
  | @group groups ctx ts outer before =>
    obtain ⟨e, rfl⟩ := hsum
    have hatom : Derivable .atom (.opening :: (e.yield ++ [.closing])) := ⟨.group e, rfl⟩
    exact ⟨ctx, ts ++ .opening :: (e.yield ++ [.closing]), outer, .sum rfl (before.atom hatom), by simp⟩
  | @call groups ctx ts lead f n outer before leads =>
    cases hg
    obtain rfl : n = f.arity := hfull
    obtain ⟨args, hargs⟩ := leads cur hsum
    have hatom : Derivable .atom (.function f :: .opening :: (lead ++ cur ++ [.closing])) :=
      ⟨.call f args, by simp [Derivation.yield, hargs]⟩
    exact ⟨ctx, ts ++ .function f :: .opening :: (lead ++ cur ++ [.closing]), outer, .sum rfl (before.atom hatom),
      by simp⟩

theorem Parsed.operator {op : Operator} (h : Parsed last groups ts) (hfollows : (Token.operator op).Follows last)
    (hplace : (Token.operator op).InPlace last groups) :
    Parsed (some (.operator op)) groups (ts ++ [.operator op]) := by
  obtain ⟨ctx, cur, hctx, hcur, rfl⟩ := h
  obtain ⟨hnegate, hplace⟩ := hplace
  have hexpects : Expects (cur ++ [.operator op]) := by
    cases hcur with
    | sum hends hsum => exact hsum.expects hnegate
    | start hopen hbare hexpects =>
      rcases hplace with hends | hsign
      · rw [hopen] at hends
        exact Bool.noConfusion hends
      · exact hexpects.sign hsign
    | callee => cases hfollows
  exact ⟨ctx, cur ++ [.operator op], hctx, .start rfl rfl hexpects, by simp⟩

theorem Parsed.step {t : Token} (h : Parsed last groups ts) (hfollows : t.Follows last)
    (hplace : t.InPlace last groups) : Parsed (some t) (nest last groups t) (ts ++ [t]) := by
  cases t with
  | number x => exact h.operand ⟨.number x, rfl⟩ rfl hfollows rfl (by simp)
  | previous x => exact h.operand ⟨.previous x, rfl⟩ rfl hfollows rfl (by simp)
  | constant n x => exact h.operand ⟨.constant n x, rfl⟩ rfl hfollows rfl (by simp)
  | operator op => exact h.operator hfollows hplace
  | function f => exact h.function hfollows
  | opening => exact h.opening hfollows
  | closing => exact h.closing hplace
  | comma => exact h.comma hplace

end Parsed

/-- Every token stands in its place, and after the last one no parenthesis is open and no operand is expected. -/
def WellFormed (last : Option Token) (groups : List OpenGroup) : List Token → Prop
  | [] => ended last = true ∧ groups = []
  | t :: ts => t.Follows last ∧ t.InPlace last groups ∧ WellFormed (some t) (nest last groups t) ts

theorem Parsed.derivable {last : Option Token} {groups : List OpenGroup} {ts us : List Token}
    (h : Parsed last groups ts) (hus : WellFormed last groups us) : Derivable .sum (ts ++ us) := by
  induction us generalizing last groups ts with
  | nil =>
    obtain ⟨ctx, cur, hctx, hcur, rfl⟩ := h
    obtain ⟨hends, rfl⟩ := hus
    cases hctx
    simpa using hcur.derivable_sum hends
  | cons t us ih =>
    have hstep := ih (h.step hus.1 hus.2.1) hus.2.2
    rwa [List.append_assoc] at hstep

/-- A list of tokens in which every token stands in its place is derivable. -/
theorem derivable_of_wellFormed {ts : List Token} (h : WellFormed none [] ts) : Derivable .sum ts := by
  have hstart : Parsed none [] [] := ⟨[], [], .outermost, .start rfl rfl expects_nil, rfl⟩
  exact hstart.derivable h

end DeskCalc

import DeskCalc.Elementary.Platform
import DeskCalc.Parentheses
import DeskCalc.Proofs.Derivability
import DeskCalc.Proofs.Expression
import DeskCalc.Proofs.OperandCount

/-!
# Which expressions have a value

An expression is derivable exactly if it has a value and none of its commas is surplus
(`derivable_iff_value_and_commasFit`).  A surplus comma leaves a value too many on the stack, which hides that an
operand is missing elsewhere; if there is none, the count in the end catches everything else.

The proof follows the conversion.  Its stack holds the open parentheses of the tokens that were read
(`Conversion.Holds`), so commas and closing parentheses are read as they are nested, and as no step makes up for a
missing operand, none is missing if the count is right in the end (`Conversion.Tracks.wellFormed`).
-/

namespace DeskCalc

namespace Conversion

/-- The stack holds the open parentheses, each call above its function, and operators between them. -/
inductive Holds : List Pending → List OpenGroup → Prop where
  | nil : Holds [] []
  | operator {op : Operator} {stack : List Pending} {groups : List OpenGroup} (rest : Holds stack groups) :
      Holds (.operator op :: stack) groups
  | group {g : OpenGroup} {stack : List Pending} {groups : List OpenGroup} (rest : Holds stack groups) :
      Holds (.group g.arguments :: (g.callee.toList.map Pending.function ++ stack)) (g :: groups)

section Holds

variable {stack below above : List Pending} {groups : List OpenGroup} {n : Nat}

theorem Holds.ne_function (h : Holds stack groups) (f : Function) (rest : List Pending) :
    stack ≠ .function f :: rest := by
  rintro rfl
  cases h

theorem Holds.dropWhile (op : Operator) (h : Holds stack groups) : Holds (stack.dropWhile (yieldsTo op)) groups := by
  induction h with
  | nil => exact .nil
  | @operator top stack groups rest ih =>
    rw [List.dropWhile_cons]
    split
    · exact ih
    · exact .operator rest
  | group rest => exact .group rest

/-- What waits above a parenthesis are operators. -/
theorem Holds.drop (h : Holds (above ++ .group n :: below) groups) (habove : ∀ p ∈ above, p.token?.isSome) :
    Holds (.group n :: below) groups := by
  induction above with
  | nil => exact h
  | cons p above ih =>
    have hrest : ∀ q ∈ above, q.token?.isSome := fun q hq => habove q (List.mem_cons_of_mem p hq)
    cases p with
    | operator op =>
      cases h with
      | operator rest => exact ih rest hrest
    | function f => exact absurd rfl (h.ne_function f _)
    | group m => exact absurd (habove (.group m) List.mem_cons_self) Bool.false_ne_true

/-- The innermost group of a stack with a parenthesis on top. -/
theorem Holds.group_eq (h : Holds (.group n :: below) groups) :
    ∃ callee stack rest, groups = ⟨callee, n⟩ :: rest ∧ Holds stack rest ∧
      below = callee.toList.map Pending.function ++ stack := by
  cases h with
  | @group g stack rest hrest => exact ⟨g.callee, stack, rest, rfl, hrest, rfl⟩

theorem Holds.call_eq {f : Function} (h : Holds (.group n :: .function f :: below) groups) :
    ∃ rest, groups = ⟨some f, n⟩ :: rest ∧ Holds below rest := by
  obtain ⟨callee, stack, rest, rfl, hrest, hbelow⟩ := h.group_eq
  cases callee with
  | none => exact absurd hbelow.symm (hrest.ne_function f below)
  | some g =>
    cases hbelow
    exact ⟨rest, rfl, hrest⟩

theorem Holds.bare_eq (h : Holds (.group n :: below) groups) (hbare : ∀ f stack, below ≠ .function f :: stack) :
    ∃ rest, groups = ⟨none, n⟩ :: rest ∧ Holds below rest := by
  obtain ⟨callee, stack, rest, rfl, hrest, hbelow⟩ := h.group_eq
  cases callee with
  | none =>
    cases hbelow
    exact ⟨rest, rfl, hrest⟩
  | some f => exact absurd hbelow (hbare f stack)

end Holds

/-- The conversion has read tokens that left the parentheses `groups` open; after the name of a function its
parenthesis is still to come. -/
structure Tracks (s : Conversion) (groups : List OpenGroup) : Prop where
  holds : ∃ stack, s.stack = (calleeAfter s.last).toList.map Pending.function ++ stack ∧ Holds stack groups
  room : ∀ g ∈ groups, 1 ≤ g.arguments ∧ g.arguments ≤ g.capacity

section Tracks

variable {s s' : Conversion} {groups : List OpenGroup} {t : Token}

theorem Tracks.start : Tracks start [] :=
  ⟨⟨[], rfl, .nil⟩, by simp⟩

private theorem Tracks.holds_stack (h : Tracks s groups) (hlast : calleeAfter s.last = none) :
    Holds s.stack groups := by
  obtain ⟨stack, hstack, hholds⟩ := h.holds
  rw [hlast] at hstack
  rwa [hstack]

theorem Tracks.of_holds (h : Holds s'.stack groups) (hlast : calleeAfter s'.last = none)
    (hroom : ∀ g ∈ groups, 1 ≤ g.arguments ∧ g.arguments ≤ g.capacity) : Tracks s' groups :=
  ⟨⟨s'.stack, by rw [hlast]; rfl, h⟩, hroom⟩

/-- A parenthesis is closed when its group is full. -/
theorem Tracks.full (h : Tracks s groups) (hlast : calleeAfter s.last = none) (hstep : Step s .closing s') :
    ∃ g rest, groups = g :: rest ∧ g.arguments = g.capacity ∧ Holds s'.stack rest := by
  have hholds := h.holds_stack hlast
  cases hstep with
  | operand hvalue => cases hvalue
  | closeCall _ hstack habove henough =>
    rw [hstack] at hholds
    obtain ⟨rest, rfl, hrest⟩ := (hholds.drop habove).call_eq
    have hroom := h.room _ List.mem_cons_self
    exact ⟨_, rest, rfl, Nat.le_antisymm hroom.2 henough, hrest⟩
  | closeGroup _ hstack habove hbare =>
    rw [hstack] at hholds
    obtain ⟨rest, rfl, hrest⟩ := (hholds.drop habove).bare_eq hbare
    have hroom := h.room _ List.mem_cons_self
    exact ⟨_, rest, rfl, Nat.le_antisymm hroom.2 hroom.1, hrest⟩

private theorem one_le_capacity (g : OpenGroup) : 1 ≤ g.capacity := by
  obtain ⟨callee, n⟩ := g
  cases callee with
  | none => exact Nat.le_refl 1
  | some f =>
    have harity : 1 ≤ f.arity := by cases f <;> decide
    exact harity

theorem Tracks.comma (h : Tracks s groups) (hlast : calleeAfter s.last = none) (hstep : Step s .comma s')
    (hroom : ∃ g, groups.head? = some g ∧ g.arguments < g.capacity) : Tracks s' (nest s.last groups .comma) := by
  have hholds := h.holds_stack hlast
  cases hstep with
  | operand hvalue => cases hvalue
  | @comma above below n _ hstack habove _ =>
    rw [hstack] at hholds
    obtain ⟨callee, stack, rest, rfl, hrest, rfl⟩ := (hholds.drop habove).group_eq
    obtain ⟨g, hg, hlt⟩ := hroom
    cases hg
    refine .of_holds (.group (g := ⟨callee, n + 1⟩) hrest) rfl fun g' hg' => ?_
    rcases List.mem_cons.1 hg' with rfl | hg'
    · exact ⟨Nat.le_add_left 1 n, hlt⟩
    · exact h.room g' (List.mem_cons_of_mem _ hg')

/-- One more token: the open parentheses are those of the tokens. -/
theorem Tracks.step (h : Tracks s groups) (hstep : Step s t s') (hfollows : t.Follows s.last)
    (hcomma : t = .comma → ∃ g, groups.head? = some g ∧ g.arguments < g.capacity) :
    Tracks s' (nest s.last groups t) := by
  by_cases hopening : t = .opening
  · subst hopening
    obtain ⟨stack, hstack, hholds⟩ := h.holds
    cases hstep with
    | operand hvalue => cases hvalue
    | opening =>
      refine .of_holds ?_ rfl fun g hg => ?_
      · rw [hstack]
        exact .group (g := ⟨calleeAfter s.last, 1⟩) hholds
      · rcases List.mem_cons.1 hg with rfl | hg
        · exact ⟨Nat.le_refl 1, one_le_capacity _⟩
        · exact h.room g hg
  · have hlast := hfollows.calleeAfter_eq hopening
    have hholds := h.holds_stack hlast
    cases hstep with
    | operand hvalue =>
      have hnest : nest s.last groups t = groups ∧ calleeAfter (some t) = none := by
        cases t <;> first | exact ⟨rfl, rfl⟩ | cases hvalue
      rw [hnest.1]
      exact .of_holds hholds hnest.2 h.room
    | function f => exact ⟨⟨s.stack, rfl, hholds⟩, h.room⟩
    | opening => exact absurd rfl hopening
    | comma hfilled hstack habove hbelow =>
      exact h.comma hlast (.comma hfilled hstack habove hbelow) (hcomma rfl)
    | closeCall hfilled hstack habove henough =>
      obtain ⟨g, rest, rfl, -, hrest⟩ := h.full hlast (.closeCall hfilled hstack habove henough)
      exact .of_holds hrest rfl fun g' hg' => h.room g' (List.mem_cons_of_mem g hg')
    | closeGroup hfilled hstack habove hbare =>
      obtain ⟨g, rest, rfl, -, hrest⟩ := h.full hlast (.closeGroup hfilled hstack habove hbare)
      exact .of_holds hrest rfl fun g' hg' => h.room g' (List.mem_cons_of_mem g hg')
    | minus => exact .of_holds (.operator hholds) rfl h.room
    | plus => exact .of_holds hholds rfl h.room
    | @binary op => exact .of_holds (.operator (hholds.dropWhile op)) rfl h.room

/-- A token that is read stands in its place, if no operand is missing before it. -/
private theorem Tracks.inPlace (h : Tracks s groups) (hstep : Step s t s') (hfollows : t.Follows s.last)
    (hnegate : t ≠ .operator .negate)
    (hcomma : t = .comma → ∃ g, groups.head? = some g ∧ g.arguments < g.capacity)
    (hends : t = .comma ∨ t = .closing → ended s.last = true) : t.InPlace s.last groups := by
  cases t with
  | operator op =>
    refine ⟨fun hop => hnegate (congrArg Token.operator hop), ?_⟩
    cases hstep with
    | operand hvalue => cases hvalue
    | minus hprefixed hsymbol =>
      refine .inr (.inr ?_)
      cases op <;> first | rfl | exact absurd rfl hnegate | exact absurd hsymbol (by decide)
    | plus hprefixed hsymbol =>
      refine .inr (.inl ?_)
      cases op <;> first | rfl | exact absurd hsymbol (by decide)
    | binary hinfixed =>
      rw [expectsOperand_eq (hfollows.calleeAfter_eq (by simp))] at hinfixed
      exact .inl (by simpa using hinfixed)
  | closing =>
    obtain ⟨g, rest, rfl, hfull, -⟩ := h.full (hfollows.calleeAfter_eq (by simp)) hstep
    exact ⟨hends (.inr rfl), g, rfl, hfull⟩
  | comma => exact ⟨hends (.inl rfl), hcomma rfl⟩
  | _ => trivial

/-- A stack without parentheses holds no group. -/
theorem Holds.eq_nil {stack : List Pending} (h : Holds stack groups) (hall : ∀ p ∈ stack, p.token?.isSome) :
    groups = [] := by
  induction h with
  | nil => rfl
  | operator rest ih => exact ih fun p hp => hall p (List.mem_cons_of_mem _ hp)
  | @group g stack groups rest =>
    exact absurd (hall (.group g.arguments) List.mem_cons_self) Bool.false_ne_true

/-- At the end no parenthesis is open. -/
theorem Tracks.finish (h : Tracks s groups) (hlast : calleeAfter s.last = none) {ts : List Token}
    (hfinish : s.finish = .ok ts) : groups = [] := by
  exact (h.holds_stack hlast).eq_nil (finish_eq_ok_iff.1 hfinish).1

/-- If the tokens that are still to come leave one value in the end and none of their commas is surplus, then no
operand is missing: the number of values never comes closer to the expected one. -/
theorem Tracks.wellFormed {ts post : List Token} (h : Tracks s groups) (hrun : ts.foldlM read s = .ok s')
    (hfinish : s'.finish = .ok post) (htotal : total post = 1) (hspaced : WellSpaced s.last ts)
    (hcommas : CommasFit s.last groups ts) (hle : s.pendingTotal ≤ expected s.last groups) :
    WellFormed s.last groups ts ∧ expected s.last groups = s.pendingTotal := by
  induction ts generalizing s groups with
  | nil =>
    obtain rfl : s = s' := Except.ok.inj hrun
    have hlast := hspaced.calleeAfter_eq
    obtain rfl := h.finish hlast hfinish
    rw [total_of_finish hfinish] at htotal
    have hopen : openWeight [] = 0 := rfl
    cases hends : ended s.last with
    | false =>
      rw [expected_of_not_ended hends hlast] at hle
      omega
    | true =>
      rw [expected_of_ended hends, htotal]
      exact ⟨⟨hends, rfl⟩, rfl⟩
  | cons t ts ih =>
    obtain ⟨next, hread, hrest⟩ := exists_of_foldlM_cons hrun
    have hstep := step_of_read hread
    obtain ⟨hfollows, hnegate, hspaced⟩ := hspaced
    obtain ⟨hcomma, hcommas⟩ := hcommas
    have hnext := h.step hstep hfollows hcomma
    have hlast := hstep.last_eq
    -- the total changes like the expected number, which in addition counts the missing operands
    have hpending := hstep.total_eq hnegate
    have hexpected : expected (some t) (nest s.last groups t) =
        expected s.last groups + weightAfter s.last t + missingBefore s.last t := by
      refine expected_nest hfollows hnegate ?_ ?_
      · rintro rfl rfl
        obtain ⟨g, hg, -⟩ := hcomma rfl
        cases hg
      · rintro rfl
        obtain ⟨g, rest, rfl, hfull, -⟩ := h.full (hfollows.calleeAfter_eq (by simp)) hstep
        exact ⟨g, rfl, hfull⟩
    have hmissing := missingBefore_nonneg s.last t
    rw [← hlast] at hspaced hcommas hexpected
    obtain ⟨hwell, heq⟩ := ih hnext hrest hspaced hcommas (by omega)
    rw [hlast] at hwell
    have hzero : missingBefore s.last t = 0 := by omega
    have hends := ended_of_missingBefore_eq_zero hzero
    exact ⟨⟨hfollows, h.inPlace hstep hfollows hnegate hcomma hends, hwell⟩, by omega⟩

end Tracks

end Conversion

/-! ### The commas of a tree -/

section CommasFit

variable {last : Option Token} {groups : List OpenGroup} {ts : List Token}

/-- Of the last token it only matters which function it is. -/
private theorem CommasFit.of_calleeAfter_eq {last' : Option Token} (h : CommasFit last groups ts)
    (hlast : calleeAfter last = calleeAfter last') : CommasFit last' groups ts := by
  cases ts with
  | nil => trivial
  | cons t ts =>
    have hnest : nest last' groups t = nest last groups t := by
      cases t with
      | opening => rw [nest, nest, hlast]
      | _ => rfl
    rw [CommasFit, hnest]
    exact h

/-- A token that opens and closes nothing. -/
private theorem commasFit_cons {t : Token} (h : CommasFit none groups ts) (ht : t ≠ .comma)
    (hnest : nest last groups t = groups) (hcallee : calleeAfter (some t) = none) : CommasFit last groups (t :: ts) := by
  refine ⟨fun hcomma => absurd hcomma ht, ?_⟩
  rw [hnest]
  exact h.of_calleeAfter_eq hcallee.symm

/-- The tokens may stand before any others without a surplus comma.  Arguments are counted. -/
def CommasFitIn : Category → List Token → Prop
  | .arguments n, ts => ∀ (f : Function) (last : Option Token) (groups : List OpenGroup) (rest : List Token),
      calleeAfter last = none → n ≤ f.arity → CommasFit none (⟨some f, n⟩ :: groups) rest →
        CommasFit last (⟨some f, 1⟩ :: groups) (ts ++ rest)
  | _, ts => ∀ (last : Option Token) (groups : List OpenGroup) (rest : List Token),
      calleeAfter last = none → CommasFit none groups rest → CommasFit last groups (ts ++ rest)

private theorem commasFitIn_infix (op : Operator) {us : List Token}
    (hleft : CommasFitIn .sum ts) (hright : CommasFitIn .sum us) : CommasFitIn .sum (ts ++ .operator op :: us) := by
  intro last groups rest hlast hrest
  rw [List.append_assoc]
  exact hleft last groups _ hlast (commasFit_cons (hright none groups rest rfl hrest) (by simp) rfl rfl)

private theorem commasFitIn_yield {c : Category} (d : Derivation c) : CommasFitIn c d.yield := by
  induction d with
  | number x => exact fun _ _ _ _ hrest => commasFit_cons hrest (by simp) rfl rfl
  | previous x => exact fun _ _ _ _ hrest => commasFit_cons hrest (by simp) rfl rfl
  | constant n x => exact fun _ _ _ _ hrest => commasFit_cons hrest (by simp) rfl rfl
  | group e ih =>
    intro last groups rest hlast hrest
    have hinner : CommasFit (some .opening) (⟨none, 1⟩ :: groups) (e.yield ++ .closing :: rest) :=
      ih _ _ _ rfl ⟨fun h => absurd h (by simp), hrest.of_calleeAfter_eq rfl⟩
    rw [List.append_cons] at hinner
    refine ⟨fun h => absurd h (by simp), ?_⟩
    rw [nest, hlast]
    exact hinner
  | call f args ih =>
    intro last groups rest hlast hrest
    have hinner : CommasFit (some .opening) (⟨some f, 1⟩ :: groups) (args.yield ++ .closing :: rest) :=
      ih f _ _ _ rfl (Nat.le_refl _) ⟨fun h => absurd h (by simp), hrest.of_calleeAfter_eq rfl⟩
    rw [List.append_cons] at hinner
    exact ⟨fun h => absurd h (by simp), fun h => absurd h (by simp), hinner⟩
  | ofAtom a ih => exact ih
  | minus u ih => exact fun _ groups rest _ hrest => commasFit_cons (ih none groups rest rfl hrest) (by simp) rfl rfl
  | plus u ih => exact fun _ groups rest _ hrest => commasFit_cons (ih none groups rest rfl hrest) (by simp) rfl rfl
  | ofSigned u ih => exact ih
  | raise u p ihu ihp => exact commasFitIn_infix .power ihu ihp
  | ofPower p ih => exact ih
  | multiply q p ihq ihp => exact commasFitIn_infix .multiply ihq ihp
  | divide q p ihq ihp => exact commasFitIn_infix .divide ihq ihp
  | ofProduct q ih => exact ih
  | add e q ihe ihq => exact commasFitIn_infix .add ihe ihq
  | subtract e q ihe ihq => exact commasFitIn_infix .subtract ihe ihq
  | first e ih => exact fun f last groups rest hlast _ hrest => ih last (⟨some f, 1⟩ :: groups) rest hlast hrest
  | @next count args e ihargs ihe =>
    intro f last groups rest hlast hle hrest
    rw [Derivation.yield, List.append_assoc]
    refine ihargs f last groups _ hlast (Nat.le_of_succ_le hle) ⟨fun _ => ⟨⟨some f, count⟩, rfl, hle⟩, ?_⟩
    exact ihe (some .comma) (⟨some f, count + 1⟩ :: groups) rest rfl hrest

private theorem Derivable.commasFit (h : Derivable .sum ts) : CommasFit none [] ts := by
  obtain ⟨e, rfl⟩ := h
  have hfit := commasFitIn_yield e none [] [] rfl trivial
  rwa [List.append_nil] at hfit

end CommasFit

/-! ### Values and trees -/

/-- The tokens of a text are derivable exactly if they have a value and none of their commas is surplus. -/
theorem derivable_iff_value_and_commasFit (fn : Elementary) (mode : AngleMode) (previous : PreviousAnswer)
    (s : List Char) {tokens : List Token} (h : (closeParentheses s).bind (lex previous) = .ok tokens) :
    Derivable .sum tokens ↔
      (∃ postfixed x, toPostfix tokens = .ok postfixed ∧ evalPostfix fn mode postfixed = .ok x) ∧
        CommasFit none [] tokens := by
  constructor
  · intro hderivable
    refine ⟨?_, hderivable.commasFit⟩
    obtain ⟨e, rfl⟩ := hderivable
    exact ⟨e.postorder, e.value fn mode, toPostfix_yield e, evalPostfix_postorder e⟩
  · rintro ⟨⟨postfixed, x, hpostfix, hvalue⟩, hcommas⟩
    have hspaced : WellSpaced none tokens := by
      cases hbalanced : closeParentheses s with
      | error e =>
        rw [hbalanced] at h
        cases h
      | ok balanced =>
        rw [hbalanced] at h
        exact wellSpaced_of_lex h
    cases hrun : tokens.foldlM Conversion.read Conversion.start with
    | error e =>
      rw [toPostfix, hrun] at hpostfix
      cases hpostfix
    | ok last =>
      rw [toPostfix, hrun] at hpostfix
      have hwell := Conversion.Tracks.start.wellFormed hrun hpostfix (total_of_evalPostfix hvalue) hspaced hcommas
        (Int.le_refl 0)
      exact derivable_of_wellFormed hwell.1

open Token in
/-- A call whose parenthesis is closed at the end of the text. -/
theorem derivable_max : Derivable .sum [function .max, opening, number Kernel.one, comma, number (.ofNat 2), closing] :=
  (derivable_iff_value_and_commasFit .platform .degrees .absent "max(1,2".toList (by decide +kernel)).2
    ⟨⟨[number Kernel.one, number (.ofNat 2), function .max], .ofNat 2, by decide +kernel, by decide +kernel⟩,
      nofun, nofun, nofun, fun _ => ⟨⟨some .max, 1⟩, rfl, by decide⟩, nofun, nofun, trivial⟩

open Token in
/-- The surplus comma makes up for the operand that is missing after the sign, and the text has the value `-1`. -/
theorem value_of_surplus_comma :
    (closeParentheses "(1,2)-".toList).bind (lex .absent) =
        .ok [opening, number Kernel.one, comma, number (.ofNat 2), closing, operator .subtract] ∧
      toPostfix [opening, number Kernel.one, comma, number (.ofNat 2), closing, operator .subtract] =
        .ok [number Kernel.one, number (.ofNat 2), operator .subtract] ∧
      evalPostfix .platform .degrees [number Kernel.one, number (.ofNat 2), operator .subtract] =
        .ok Kernel.one.neg ∧
      ¬ Derivable .sum [opening, number Kernel.one, comma, number (.ofNat 2), closing, operator .subtract] := by
  refine ⟨by decide +kernel, by decide +kernel, by decide +kernel, fun h => ?_⟩
  obtain ⟨-, -, hcomma, -⟩ := h.commasFit
  obtain ⟨g, hg, hroom⟩ := hcomma rfl
  cases hg
  exact absurd hroom (by decide)

end DeskCalc

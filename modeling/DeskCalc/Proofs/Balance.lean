import DeskCalc.Parentheses
import DeskCalc.Proofs.ConversionFault
import DeskCalc.Proofs.Scanning

/-!
# Balanced parentheses

The parentheses are counted three times: in the characters of a text (`openAfter`), in its tokens (`Balance`) and on
the stack of the conversion (`openCount`).  The three counts agree: what closing the parentheses of a text promises
holds of its tokens (`balance_of_openAfter`), and while they are read the stack holds as many open parentheses as the
tokens have left open (`openCount_of_run`).

So a text whose parentheses have been closed meets a mismatched parenthesis only at a comma that stands outside all
parentheses (`mismatch_only_at_outermost_comma`).
-/

namespace DeskCalc

/-! ### Tokens -/

/-- With `before` parentheses open in front of the tokens, they close none that is not open, and leave `after` open. -/
structure Balance (before : Nat) (ts : List Token) (after : Nat) : Prop where
  closing_le : ∀ us, us <+: ts → us.count .closing ≤ before + us.count .opening
  count_eq : after + ts.count .closing = before + ts.count .opening

section Balance

variable {before middle after : Nat} {t : Token} {ts us : List Token}

theorem Balance.nil (n : Nat) : Balance n [] n :=
  ⟨fun us h => by simp [List.prefix_nil.1 h], rfl⟩

theorem Balance.cons (ht : middle + [t].count .closing = before + [t].count .opening)
    (h : Balance middle ts after) : Balance before (t :: ts) after := by
  refine ⟨fun us hus => ?_, ?_⟩
  · rcases List.prefix_cons_iff.1 hus with rfl | ⟨vs, rfl, hvs⟩
    · simp
    · have hle := h.closing_le vs hvs
      rw [List.count_cons, List.count_cons]
      rw [List.count_singleton, List.count_singleton] at ht
      omega
  · have heq := h.count_eq
    rw [List.count_cons, List.count_cons]
    rw [List.count_singleton, List.count_singleton] at ht
    omega

/-- The balance after the first token. -/
theorem Balance.tail (h : Balance before (t :: ts) after) :
    ∃ middle, middle + [t].count .closing = before + [t].count .opening ∧ Balance middle ts after := by
  have hfirst := h.closing_le [t] ⟨ts, rfl⟩
  refine ⟨before + [t].count .opening - [t].count .closing, by omega, fun us hus => ?_, ?_⟩
  · have hle := h.closing_le (t :: us) (List.prefix_cons_inj t |>.2 hus)
    rw [List.count_cons, List.count_cons] at hle
    rw [List.count_singleton, List.count_singleton] at hfirst ⊢
    omega
  · have heq := h.count_eq
    rw [List.count_cons, List.count_cons] at heq
    rw [List.count_singleton, List.count_singleton] at hfirst ⊢
    omega

end Balance

/-! ### Characters and tokens -/

/-- A token that is no parenthesis leaves the balance as it is. -/
theorem Balance.cons_of_ne {n after : Nat} {t : Token} {ts : List Token} (hopening : t ≠ .opening)
    (hclosing : t ≠ .closing) (h : Balance n ts after) : Balance n (t :: ts) after := by
  refine h.cons ?_
  rw [List.count_singleton, List.count_singleton, if_neg (by simpa using hclosing), if_neg (by simpa using hopening)]

namespace Item

/-- The parentheses and the sign of the previous answer occur in no other item. -/
theorem eq_of_mem_spelling (i : Item) :
    ('(' ∈ i.spelling → i = opening) ∧ (')' ∈ i.spelling → i = closing) ∧ ('_' ∈ i.spelling → i = previous) := by
  cases i with
  | literal l =>
    have hlit : ∀ c, isLiteralChar c = false → c ∉ l.text := by
      intro c hc hmem
      rw [l.isLiteralChar_of_mem c hmem] at hc
      exact Bool.noConfusion hc
    exact ⟨fun h => absurd h (hlit _ (by decide)), fun h => absurd h (hlit _ (by decide)),
      fun h => absurd h (hlit _ (by decide))⟩
  | operator op hop =>
    change ('(' ∈ [op.symbol] → _) ∧ (')' ∈ [op.symbol] → _) ∧ ('_' ∈ [op.symbol] → _)
    cases op <;> simp [Operator.symbol]
  | constant c => cases c <;> simp [spelling, Constant.name]
  | function f => cases f <;> simp [spelling, Function.name]
  | opening => simp [spelling]
  | closing => simp [spelling]
  | piSign => simp [spelling]
  | previous => simp [spelling]
  | doubleStar => simp [spelling]
  | comma => simp [spelling]
  | rootSign => simp [spelling]

private theorem openAfter_spelling (i : Item) (hopening : i ≠ opening) (hclosing : i ≠ closing) (depth : Nat) :
    openAfter depth i.spelling = some depth :=
  openAfter_of_not_mem (fun h => hopening (i.eq_of_mem_spelling.1 h)) (fun h => hclosing (i.eq_of_mem_spelling.2.1 h))
    depth

/-- Between the tokens of two items there is at most a product. -/
private theorem exists_tokensOf_cons (answer : Double) (i : Item) (rest : List Item) :
    tokensOf answer (i :: rest) = i.token answer :: tokensOf answer rest ∨
      tokensOf answer (i :: rest) = i.token answer :: .operator .multiply :: tokensOf answer rest := by
  cases rest with
  | nil => exact .inl rfl
  | cons j rest =>
    rw [tokensOf]
    split
    · exact .inr rfl
    · exact .inl rfl

/-- The tokens of a text are balanced like its characters. -/
theorem balance_of_openAfter {answer : Double} {items : List Item} {before after : Nat}
    (h : openAfter before (items.flatMap spelling) = some after) : Balance before (tokensOf answer items) after := by
  induction items generalizing before with
  | nil =>
    cases h
    exact .nil after
  | cons i rest ih =>
    rw [List.flatMap_cons, openAfter_append] at h
    have hcons : ∀ {middle : Nat}, middle + [i.token answer].count .closing = before + [i.token answer].count .opening →
        openAfter middle (rest.flatMap spelling) = some after → Balance before (tokensOf answer (i :: rest)) after := by
      intro middle hmiddle hrest
      rcases exists_tokensOf_cons answer i rest with heq | heq
      · rw [heq]
        exact (ih hrest).cons hmiddle
      · rw [heq]
        exact ((ih hrest).cons_of_ne (by simp) (by simp)).cons hmiddle
    by_cases hopening : i = opening
    · subst hopening
      exact hcons rfl h
    by_cases hclosing : i = closing
    · subst hclosing
      cases before with
      | zero => cases h
      | succ before => exact hcons rfl h
    · rw [openAfter_spelling i hopening hclosing] at h
      refine hcons ?_ h
      cases i <;> first | rfl | exact absurd rfl hopening | exact absurd rfl hclosing

end Item

/-- When the parentheses of a text have been closed, its tokens are balanced. -/
private theorem balance_of_lex {previous : PreviousAnswer} {s balanced : List Char} {ts : List Token}
    (hclosed : closeParentheses s = .ok balanced) (h : lex previous balanced = .ok ts) : Balance 0 ts 0 := by
  obtain ⟨items, hspells, rfl⟩ := exists_items_of_lex h
  rw [closeParentheses] at hclosed
  split at hclosed
  · rename_i depth hdepth
    cases hclosed
    refine Item.balance_of_openAfter ?_
    have hreplicate := openAfter_replicate 0 depth
    rw [Nat.zero_add] at hreplicate
    rw [hspells.spelling_eq, openAfter_append, hdepth]
    exact hreplicate
  · cases hclosed

/-! ### The stack of the conversion -/

/-- The number of open parentheses among the entries of the stack. -/
def openCount (ps : List Pending) : Nat :=
  ps.countP fun p => p.token?.isNone

theorem openCount_append (ps qs : List Pending) : openCount (ps ++ qs) = openCount ps + openCount qs :=
  List.countP_append

private theorem openCount_cons (p : Pending) (ps : List Pending) :
    openCount (p :: ps) = openCount ps + if p.token?.isNone then 1 else 0 :=
  List.countP_cons

@[simp]
theorem openCount_operator (op : Operator) (ps : List Pending) : openCount (.operator op :: ps) = openCount ps := rfl

@[simp]
theorem openCount_function (f : Function) (ps : List Pending) : openCount (.function f :: ps) = openCount ps := rfl

@[simp]
theorem openCount_group (n : Nat) (ps : List Pending) : openCount (.group n :: ps) = openCount ps + 1 := by
  simp [openCount_cons, Pending.token?]

theorem openCount_eq_zero_iff {ps : List Pending} : openCount ps = 0 ↔ ∀ p ∈ ps, p.token?.isSome := by
  simp [openCount, List.countP_eq_zero, Option.isSome_iff_ne_none]

namespace Conversion

/-- An operator sends out no parenthesis. -/
theorem openCount_dropWhile (op : Operator) (ps : List Pending) :
    openCount (ps.dropWhile (yieldsTo op)) = openCount ps := by
  induction ps with
  | nil => rfl
  | cons p ps ih =>
    rw [List.dropWhile_cons]
    split
    · rename_i hyields
      cases p with
      | operator top => exact ih
      | function f => exact absurd hyields Bool.false_ne_true
      | group n => exact absurd hyields Bool.false_ne_true
    · rfl

variable {s s' : Conversion} {t : Token}

/-- A token changes the number of open parentheses on the stack as it changes the one of the tokens. -/
private theorem Step.openCount_eq (h : Step s t s') :
    openCount s'.stack + [t].count .closing = openCount s.stack + [t].count .opening := by
  have habove : ∀ {above : List Pending}, (∀ p ∈ above, p.token?.isSome) → openCount above = 0 :=
    openCount_eq_zero_iff.2
  cases h with
  | operand hvalue => cases t <;> first | rfl | cases hvalue
  | function f => rfl
  | opening => simp
  | comma _ hstack hall _ => simp [hstack, openCount_append, habove hall]
  | closeCall _ hstack hall _ => simp [hstack, openCount_append, habove hall]
  | closeGroup _ hstack hall _ => simp [hstack, openCount_append, habove hall]
  | minus => rfl
  | plus => rfl
  | @binary op => simp [openCount_dropWhile]

/-- After any tokens that are read, the stack holds the parentheses that they leave open. -/
theorem openCount_of_run {ts : List Token} (h : ts.foldlM read s = .ok s') :
    openCount s'.stack + ts.count .closing = openCount s.stack + ts.count .opening := by
  induction ts generalizing s with
  | nil =>
    cases h
    rfl
  | cons t ts ih =>
    obtain ⟨next, hstep, hrest⟩ := exists_of_foldlM_cons h
    have hfirst := (step_of_read hstep).openCount_eq
    have heq := ih hrest
    rw [List.count_singleton, List.count_singleton] at hfirst
    rw [List.count_cons, List.count_cons]
    omega

/-- If a comma is unmatched, every parenthesis before it has been closed. -/
theorem Stop.count_eq {pre : List Token} (hrun : pre.foldlM read start = .ok s)
    (h : Stop s t .unmatchedParenthesis) : pre.count .closing = pre.count .opening := by
  have hcount := openCount_of_run hrun
  have hstart : openCount start.stack = 0 := rfl
  have hzero : openCount s.stack = 0 := by
    cases h with
    | outermostComma _ hclosed => exact openCount_eq_zero_iff.2 hclosed
    | unmatchedClosing _ hclosed => exact openCount_eq_zero_iff.2 hclosed
  omega

end Conversion

section Agreement

open Conversion

variable {s : Conversion}

/-- In balanced tokens no closing parenthesis is unmatched. -/
private theorem Balance.not_stop_closing {pre post : List Token} (h : Balance 0 (pre ++ .closing :: post) 0)
    (hrun : pre.foldlM read start = .ok s) : ¬ Stop s .closing .unmatchedParenthesis := by
  intro hstop
  have heq := hstop.count_eq hrun
  have hle := h.closing_le (pre ++ [.closing]) ⟨post, by simp⟩
  simp [List.count_append] at hle
  omega

/-- After balanced tokens no parenthesis is open. -/
private theorem Balance.finish_ne {ts : List Token} (h : Balance 0 ts 0) (hrun : ts.foldlM read start = .ok s) :
    s.finish ≠ .error .unmatchedParenthesis := by
  intro hfinish
  have hcount := openCount_of_run hrun
  have heq := h.count_eq
  have hstart : openCount start.stack = 0 := rfl
  exact (finish_eq_error_iff.1 hfinish).2 (openCount_eq_zero_iff.1 (by omega))

/-- When the parentheses of a text have been closed, its tokens are balanced, and their conversion meets a mismatched
parenthesis at most at a comma that stands outside all parentheses: no closing parenthesis is unmatched, and none is
open at the end. -/
theorem mismatch_only_at_outermost_comma (previous : PreviousAnswer) (s : List Char) {balanced : List Char}
    {ts : List Token} (hclosed : closeParentheses s = .ok balanced) (hlex : lex previous balanced = .ok ts) :
    (∀ us, us <+: ts → us.count .closing ≤ us.count .opening) ∧ ts.count .closing = ts.count .opening ∧
      (toPostfix ts = .error .unmatchedParenthesis →
        ∃ pre post state, ts = pre ++ .comma :: post ∧ pre.count .closing = pre.count .opening ∧
          pre.foldlM read start = .ok state ∧ state.read .comma = .error .unmatchedParenthesis) ∧
      (∀ pre post state, ts = pre ++ .closing :: post → pre.foldlM read start = .ok state →
        state.read .closing ≠ .error .unmatchedParenthesis) ∧
      ∀ state, ts.foldlM read start = .ok state → state.finish ≠ .error .unmatchedParenthesis := by
  have hbalance := balance_of_lex hclosed hlex
  have hclosing : ∀ pre post state, ts = pre ++ .closing :: post → pre.foldlM read start = .ok state →
      state.read .closing ≠ .error .unmatchedParenthesis := by
    rintro pre post state rfl hrun hread
    exact hbalance.not_stop_closing hrun (read_eq_error_iff.1 hread)
  refine ⟨fun us hus => ?_, ?_, fun hfault => ?_, hclosing, fun state hrun => hbalance.finish_ne hrun⟩
  · have hle := hbalance.closing_le us hus
    omega
  · have heq := hbalance.count_eq
    omega
  · rcases toPostfix_eq_error_iff.1 hfault with ⟨pre, t, post, state, hsplit, hrun, hstop⟩ | ⟨state, hrun, hfinish⟩
    · cases t with
      | comma => exact ⟨pre, post, state, hsplit, hstop.count_eq hrun, hrun, hstop.read_eq⟩
      | closing => exact absurd hstop.read_eq (hclosing pre post state hsplit hrun)
      | _ => cases hstop
    · exact absurd hfinish (hbalance.finish_ne hrun)

open Token in
/-- A parenthesis that is closed at the end, after a comma outside of it. -/
theorem mismatch_after_call :
    closeParentheses "sin(9),(2".toList = .ok "sin(9),(2)".toList ∧
      lex .absent "sin(9),(2)".toList =
        .ok [function .sin, opening, number (.ofNat 9), closing, comma, opening, number (.ofNat 2), closing] ∧
      ∃ pre post state,
        [function .sin, opening, number (.ofNat 9), closing, comma, opening, number (.ofNat 2), closing] =
          pre ++ comma :: post ∧
        pre.count closing = pre.count opening ∧ pre.foldlM read start = .ok state ∧
        state.read comma = .error .unmatchedParenthesis := by
  have hclosed : closeParentheses "sin(9),(2".toList = .ok "sin(9),(2)".toList := by decide +kernel
  have hlex : lex .absent "sin(9),(2)".toList =
      .ok [function .sin, opening, number (.ofNat 9), closing, comma, opening, number (.ofNat 2), closing] := by
    decide +kernel
  refine ⟨hclosed, hlex, ?_⟩
  exact (mismatch_only_at_outermost_comma .absent "sin(9),(2".toList hclosed hlex).2.2.1 (by decide +kernel)

end Agreement

end DeskCalc

import DeskCalc.Proofs.ItemReading
import DeskCalc.Proofs.Trap

/-!
# Words in tables

Functions, constants and operators stand in tables, and a name that is not there is a trap.  Whoever looks a name up
first asks whether the table has it, and then there is none (`functionNamed_eq`, `constantNamed_eq`).

The longest known word at the beginning of a run of letters can be found by asking for ever shorter beginnings
(`longestKnown`).  It is the word that the lexer takes (`longestKnown_eq`).
-/

namespace DeskCalc

/-- The functions by their names. -/
def functionTable : List (String × Function) :=
  Function.all.map fun f => (f.name, f)

/-- The infix operators by their symbols. -/
def operatorTable : List (Char × Operator) :=
  [.add, .subtract, .multiply, .divide, .power].map fun op => (op.symbol, op)

/-- The token of the function with a name or another way to write it. -/
def functionNamed (name : String) : Except Halt Token := do
  let f ← entryOf functionTable (((Function.aliases.lookup name).map Function.name).getD name)
  return .function f

/-- The token of the constant written as `name`, to be shown as `shown`. -/
def constantNamed (shown name : String) : Except Halt Token := do
  let k ← entryOf Constant.spellings name
  return .constant shown k.value

/-- The longest known word among the beginnings of `letters` with at most `n` letters, and its length. -/
def longestKnown (letters : List Char) : Nat → Except Halt (Option (Token × Nat))
  | 0 => .ok none
  | n + 1 => do
    let name := String.ofList (letters.take (n + 1))
    if (functionTable.lookup name).isSome then
      let t ← functionNamed name
      return some (t, n + 1)
    else if (Constant.spellings.lookup name).isSome then
      let t ← constantNamed name name
      return some (t, n + 1)
    else longestKnown letters n

/-! ### Looking names up -/

/-- Looking up a name among values with their names is finding the first value with that name. -/
private theorem lookup_map_eq_find? {α κ : Type} [BEq κ] [LawfulBEq κ] (key : α → κ) (l : List α) (k : κ) :
    (l.map fun a => (key a, a)).lookup k = l.find? fun a => key a == k := by
  induction l with
  | nil => rfl
  | cons a l ih =>
    rw [List.map_cons, List.lookup_cons, List.find?_cons, ih, BEq.comm]

theorem lookup_functionTable (name : String) : functionTable.lookup name = Function.ofName? name :=
  lookup_map_eq_find? Function.name Function.all name

theorem lookup_operatorTable (c : Char) : operatorTable.lookup c = Operator.ofSymbol? c := by
  rw [operatorTable, lookup_map_eq_find?]
  unfold Operator.ofSymbol?
  split
  · rfl
  · rfl
  · rfl
  · rfl
  · rfl
  · rename_i hadd hsubtract hmultiply hdivide hpower
    simp [Operator.symbol, Ne.symm hadd, Ne.symm hsubtract, Ne.symm hmultiply, Ne.symm hdivide, Ne.symm hpower]

theorem functionNamed_eq {name : String} {f : Function} (h : Function.ofName? name = some f) :
    functionNamed name = .ok (.function f) := by
  have halias : Function.aliases.lookup name = none := by
    have hroot : name ≠ "√" := by
      rintro rfl
      have hnone : Function.ofName? "√" = none := by decide
      rw [hnone] at h
      cases h
    simp [Function.aliases, List.lookup_cons, beq_eq_false_iff_ne.2 hroot]
  rw [functionNamed, halias]
  change entryOf functionTable name >>= _ = _
  rw [entryOf_of_lookup ((lookup_functionTable name).trans h), ok_bind]
  rfl

theorem constantNamed_eq (shown : String) {name : String} {k : Constant}
    (h : Constant.spellings.lookup name = some k) : constantNamed shown name = .ok (.constant shown k.value) := by
  rw [constantNamed, entryOf_of_lookup h, ok_bind]
  rfl

/-! ### The longest word -/

theorem Function.ofName?_name (f : Function) : Function.ofName? f.name = some f := by
  cases f <;> decide

private theorem Function.ofName?_constant (k : Constant) : Function.ofName? k.name = none := by
  cases k <;> decide

/-- Words of letters name a constant by its name only. -/
private theorem lookup_spellings {name : String} (hletters : ∀ c ∈ name.toList, c.isAlpha = true) {k : Constant} :
    Constant.spellings.lookup name = some k ↔ k.name = name := by
  have hsign : name ≠ "π" := by
    rintro rfl
    exact absurd (hletters 'π' (by decide)) (by decide)
  simp only [Constant.spellings, List.lookup_cons, List.lookup_nil]
  by_cases he : name = "e"
  · subst he
    cases k <;> decide
  · by_cases hpi : name = "pi"
    · subst hpi
      cases k <;> decide
    · rw [beq_eq_false_iff_ne.2 he, beq_eq_false_iff_ne.2 hpi, beq_eq_false_iff_ne.2 hsign]
      cases k <;> simp [Constant.name, Ne.symm he, Ne.symm hpi]

/-- The known words are the names in both tables. -/
private theorem mem_knownWords_iff {w : List Char} (hletters : ∀ c ∈ w, c.isAlpha = true) {t : Token} :
    (w, t) ∈ knownWords ↔
      (∃ f, Function.ofName? (String.ofList w) = some f ∧ t = .function f) ∨
        ∃ k, Constant.spellings.lookup (String.ofList w) = some k ∧ t = .constant (String.ofList w) k.value := by
  have hof : ∀ k : Constant, Constant.spellings.lookup (String.ofList w) = some k ↔ k.name = String.ofList w :=
    fun k => lookup_spellings (by rwa [String.toList_ofList])
  simp only [hof]
  constructor
  · intro h
    rcases mem_knownWords h with ⟨f, hf⟩ | ⟨k, hk⟩
    · cases hf
      exact .inl ⟨f, by rw [String.ofList_toList, f.ofName?_name], rfl⟩
    · cases hk
      exact .inr ⟨k, String.ofList_toList.symm, by rw [String.ofList_toList]; rfl⟩
  · rintro (⟨f, hf, rfl⟩ | ⟨k, hk, rfl⟩)
    · have hname := Function.name_of_ofName? hf
      refine List.mem_append_left _ (List.mem_map.2 ⟨f, ?_, ?_⟩)
      · cases f <;> decide
      · rw [hname, String.toList_ofList]
    · refine List.mem_append_right _ (List.mem_map.2 ⟨k, ?_, ?_⟩)
      · cases k <;> decide
      · rw [hk, String.toList_ofList, Token.ofConstant, hk]

/-- The longer one of the words is as long as each of them. -/
private theorem exists_foldl_longerWord {best : Option (List Char × Token)} {l : List (List Char × Token)}
    {v : List Char × Token} (h : best = some v ∨ v ∈ l) :
    ∃ w, l.foldl longerWord best = some w ∧ v.1.length ≤ w.1.length := by
  induction l generalizing best v with
  | nil =>
    refine ⟨v, h.resolve_right List.not_mem_nil, Nat.le_refl _⟩
  | cons a l ih =>
    have hlonger : ∃ b, longerWord best a = some b ∧ a.1.length ≤ b.1.length ∧
        ∀ u, best = some u → u.1.length ≤ b.1.length := by
      cases best with
      | none => exact ⟨a, rfl, Nat.le_refl _, nofun⟩
      | some u =>
        by_cases hlt : u.1.length < a.1.length
        · refine ⟨a, if_pos hlt, Nat.le_refl _, ?_⟩
          rintro u' ⟨⟩
          exact Nat.le_of_lt hlt
        · refine ⟨u, if_neg hlt, Nat.not_lt.1 hlt, ?_⟩
          rintro u' ⟨⟩
          exact Nat.le_refl _
    obtain ⟨b, hb, hale, hule⟩ := hlonger
    obtain ⟨w, hw, hble⟩ := ih (.inl hb)
    rcases h with hbest | hmem
    · exact ⟨w, hw, Nat.le_trans (hule v hbest) hble⟩
    · rcases List.mem_cons.1 hmem with rfl | hmem
      · exact ⟨w, hw, Nat.le_trans hale hble⟩
      · exact ih (.inr hmem)

/-- If letters begin with a known word, the longest word is at least as long. -/
private theorem exists_longestWord? {letters : List Char} {v : List Char × Token} (hmem : v ∈ knownWords)
    (hpre : v.1 <+: letters) : ∃ w, longestWord? letters = some w ∧ v.1.length ≤ w.1.length :=
  exists_foldl_longerWord (.inr (List.mem_filter.2 ⟨hmem, List.isPrefixOf_iff_prefix.2 hpre⟩))

/-- A known word with as many letters as the longest one is the longest one. -/
private theorem longestWord?_eq {letters : List Char} (hletters : ∀ c ∈ letters, c.isAlpha = true) {n : Nat} {t : Token}
    (hmem : (letters.take n, t) ∈ knownWords)
    (hle : ∀ v ∈ knownWords, v.1 <+: letters → v.1.length ≤ (letters.take n).length) :
    longestWord? letters = some (letters.take n, t) := by
  have hpre : letters.take n <+: letters := List.take_prefix n letters
  obtain ⟨⟨w, u⟩, hw, hlength⟩ := exists_longestWord? hmem hpre
  obtain ⟨hwmem, hwpre⟩ := longestWord?_eq_some hw
  have heq : w = letters.take n :=
    (List.prefix_of_prefix_length_le hwpre hpre (hle _ hwmem hwpre)).eq_of_length
      (Nat.le_antisymm (hle _ hwmem hwpre) hlength)
  subst heq
  -- a word is in one of the tables only
  have halpha : ∀ c ∈ letters.take n, c.isAlpha = true := fun c hc => hletters c (List.mem_of_mem_take hc)
  have htoken : u = t := by
    rcases (mem_knownWords_iff halpha).1 hwmem with ⟨f, hf, rfl⟩ | ⟨k, hk, rfl⟩ <;>
      rcases (mem_knownWords_iff halpha).1 hmem with ⟨f', hf', rfl⟩ | ⟨k', hk', rfl⟩
    · rw [hf] at hf'
      cases hf'
      rfl
    · rw [lookup_spellings (by rwa [String.toList_ofList])] at hk'
      rw [← hk', Function.ofName?_constant] at hf
      cases hf
    · rw [lookup_spellings (by rwa [String.toList_ofList])] at hk
      rw [← hk, Function.ofName?_constant] at hf'
      cases hf'
    · rw [hk] at hk'
      cases hk'
      rfl
  rw [hw, htoken]

/-- Asking for ever shorter beginnings finds the longest word. -/
theorem longestKnown_eq {letters : List Char} (hletters : ∀ c ∈ letters, c.isAlpha = true) {n : Nat}
    (hn : n ≤ letters.length) (hle : ∀ v ∈ knownWords, v.1 <+: letters → v.1.length ≤ n) :
    longestKnown letters n = .ok ((longestWord? letters).map fun w => (w.2, w.1.length)) := by
  induction n with
  | zero =>
    have hnone : longestWord? letters = none := by
      cases h : longestWord? letters with
      | none => rfl
      | some w =>
        obtain ⟨hmem, hpre⟩ := longestWord?_eq_some h
        have hnil := List.length_eq_zero_iff.1 (Nat.le_zero.1 (hle w hmem hpre))
        rcases mem_knownWords hmem with ⟨f, rfl⟩ | ⟨k, rfl⟩
        · exact absurd hnil (by cases f <;> decide)
        · exact absurd hnil (by cases k <;> decide)
    rw [hnone]
    rfl
  | succ n ih =>
    have hlength : (letters.take (n + 1)).length = n + 1 := List.length_take_of_le hn
    have halpha : ∀ c ∈ letters.take (n + 1), c.isAlpha = true := fun c hc => hletters c (List.mem_of_mem_take hc)
    have hfound : ∀ t, (letters.take (n + 1), t) ∈ knownWords →
        longestWord? letters = some (letters.take (n + 1), t) := fun t hmem =>
      longestWord?_eq hletters hmem (by rwa [hlength])
    rw [longestKnown, lookup_functionTable]
    cases hf : Function.ofName? (String.ofList (letters.take (n + 1))) with
    | some f =>
      rw [hfound _ ((mem_knownWords_iff halpha).2 (.inl ⟨f, hf, rfl⟩))]
      simp only [Option.isSome_some, if_true, functionNamed_eq hf, ok_bind, Option.map_some, hlength]
      rfl
    | none =>
      cases hk : Constant.spellings.lookup (String.ofList (letters.take (n + 1))) with
      | some k =>
        rw [hfound _ ((mem_knownWords_iff halpha).2 (.inr ⟨k, hk, rfl⟩))]
        simp only [Option.isSome_some, Option.isSome_none, Bool.false_eq_true, if_true, if_false, constantNamed_eq _ hk,
          ok_bind, Option.map_some, hlength]
        rfl
      | none =>
        simp only [Option.isSome_none, Bool.false_eq_true, if_false]
        refine ih (Nat.le_of_succ_le hn) fun v hmem hpre => Nat.lt_succ_iff.1 (Nat.lt_of_le_of_ne (hle v hmem hpre) ?_)
        -- a word of that length would have been found in a table
        intro heq
        obtain ⟨w, t⟩ := v
        have hw := List.prefix_iff_eq_take.1 hpre
        rw [heq] at hw
        cases hw
        rcases (mem_knownWords_iff halpha).1 hmem with ⟨f, hf', -⟩ | ⟨k, hk', -⟩
        · rw [hf] at hf'
          cases hf'
        · rw [hk] at hk'
          cases hk'

end DeskCalc

import DeskCalc.Proofs.Computation
import DeskCalc.Proofs.JsonRoundtrip
import DeskCalc.Proofs.Overlay

/-!
# Values in messages

The report of a number of decimal places shows what was given instead of one.  A value can be shown exactly if none of
the integers in it has too many digits and its values do not lie too deep within one another
(`Json.exists_shown_iff`).  So there is a report exactly if the value for the decimal places can be shown or has no need
to be (`Draft.reports_iff`).
-/

namespace DeskCalc

namespace Json

/-- The value has at most so many levels, and few digits in each of its integers. -/
inductive Fits : Nat → Json → Prop where
  | null (depth : Nat) : Fits (depth + 1) null
  | bool (depth : Nat) (b : Bool) : Fits (depth + 1) (bool b)
  | integer (depth : Nat) (n : Int) (few : FewDigits n.natAbs) : Fits (depth + 1) (integer n)
  | float (depth : Nat) (x : Double) : Fits (depth + 1) (float x)
  | string (depth : Nat) (s : Text) : Fits (depth + 1) (string s)
  | array (depth : Nat) (items : List Json) (fits : ∀ v ∈ items, Fits depth v) : Fits (depth + 1) (array items)
  | object (depth : Nat) (members : List (Text × Json)) (fits : ∀ m ∈ members, Fits depth m.2) :
      Fits (depth + 1) (object members)

private theorem exists_integerForm_iff {n : Int} : (∃ text, integerForm n = .ok text) ↔ FewDigits n.natAbs := by
  rw [← length_numeral_le_iff, integerForm]
  split
  · rename_i hlarge
    exact iff_of_false nofun (Nat.not_le.2 hlarge)
  · rename_i hsmall
    exact iff_of_true ⟨_, rfl⟩ (Nat.not_lt.1 hsmall)

private theorem exists_bind_iff {ε α β : Type} {x : Except ε α} {f : α → Except ε β} :
    (∃ b, x >>= f = .ok b) ↔ ∃ a, x = .ok a ∧ ∃ b, f a = .ok b := by
  simp only [bind_eq_ok_iff]
  rw [exists_comm]
  simp only [exists_and_left]

private theorem exists_itemForms_iff {depth : Nat} {items : List Json} :
    (∃ text, itemForms depth items = .ok text) ↔ ∀ v ∈ items, ∃ text, form depth v = .ok text := by
  induction items with
  | nil => exact iff_of_true ⟨[], by rw [itemForms]⟩ nofun
  | cons v rest ih =>
    rw [List.forall_mem_cons, ← ih]
    cases rest with
    | nil => simp [itemForms]
    | cons w rest =>
      rw [itemForms.eq_3 depth v (w :: rest) nofun]
      simp only [exists_bind_iff, pure, Except.pure, Except.ok.injEq, exists_eq', and_true, exists_and_right]

private theorem exists_memberForms_iff {depth : Nat} {members : List (Text × Json)} :
    (∃ text, memberForms depth members = .ok text) ↔ ∀ m ∈ members, ∃ text, form depth m.2 = .ok text := by
  induction members with
  | nil => exact iff_of_true ⟨[], by rw [memberForms]⟩ nofun
  | cons m rest ih =>
    obtain ⟨key, v⟩ := m
    rw [List.forall_mem_cons, ← ih]
    cases rest with
    | nil => simp [memberForms, exists_bind_iff, pure, Except.pure]
    | cons m rest =>
      rw [memberForms.eq_3 depth key v (m :: rest) nofun]
      simp only [exists_bind_iff, pure, Except.pure, Except.ok.injEq, exists_eq', and_true, exists_and_right]

/-- There is a form exactly for the values that fit. -/
private theorem exists_form_iff {depth : Nat} {v : Json} : (∃ text, form depth v = .ok text) ↔ v.Fits depth := by
  induction depth generalizing v with
  | zero =>
    refine iff_of_false ?_ nofun
    rintro ⟨text, h⟩
    rw [form] at h
    cases h
  | succ depth ih =>
    cases v with
    | null => exact iff_of_true ⟨_, by rw [form]⟩ (.null depth)
    | bool b => exact iff_of_true ⟨_, by rw [form]⟩ (.bool depth b)
    | float x => exact iff_of_true ⟨_, by rw [form]⟩ (.float depth x)
    | string s => exact iff_of_true ⟨_, by rw [form]⟩ (.string depth s)
    | integer n =>
      rw [form, exists_integerForm_iff]
      exact ⟨.integer depth n, fun | .integer _ _ few => few⟩
    | array items =>
      simp only [form, exists_bind_iff, pure, Except.pure, Except.ok.injEq, exists_eq', and_true,
        exists_itemForms_iff, ih]
      exact ⟨.array depth items, fun | .array _ _ fits => fits⟩
    | object members =>
      simp only [form, exists_bind_iff, pure, Except.pure, Except.ok.injEq, exists_eq', and_true,
        exists_memberForms_iff, ih]
      exact ⟨.object depth members, fun | .object _ _ fits => fits⟩

theorem exists_shown_iff [Host] {v : Json} : (∃ text, v.shown = .ok text) ↔ v.Fits (Host.showingDepth + 1) := by
  have hmap : ∀ x : Except ShowError (List Char),
      (∃ text, x.map Text.ofChars = .ok text) ↔ ∃ text, x = .ok text := by
    intro x
    cases x <;> simp [Except.map]
  by_cases hstring : ∃ s, v = string s
  · obtain ⟨s, rfl⟩ := hstring
    exact iff_of_true ⟨s, rfl⟩ (.string _ s)
  · rw [shown.eq_2 v fun s hs => hstring ⟨s, hs⟩, hmap, exists_form_iff]

end Json

/-! ### Drafts -/

/-- The value can be told about, or has no need to be because it is a number of decimal places. -/
def Json.Reportable [Host] (v : Json) : Prop :=
  Setting.fix.Accepts v ∨ v.Fits (Host.showingDepth + 1)

namespace Draft

variable [Host] {d : Draft}

/-- A draft that describes no settings has a report exactly if the value for the decimal places can be told about. -/
theorem reports_iff : (∀ f, d.check = .error f → f.kind = .configuration) ↔ (d .fix).Reportable := by
  rw [Json.Reportable, ← Json.exists_shown_iff]
  unfold check
  split
  · rename_i fix hfix
    refine iff_of_true ?_ (.inl ⟨fix, hfix⟩)
    intro f hf
    split at hf
    · split at hf <;> cases hf
      rfl
    · cases hf
      rfl
  · rename_i v hrefused
    have hnot : ¬Setting.fix.Accepts (d .fix) := by
      rintro ⟨n, hn⟩
      exact hrefused n hn
    constructor
    · intro h
      refine .inr ?_
      cases hshown : (d .fix).shown with
      | ok text => exact ⟨text, rfl⟩
      | error e =>
        rw [hshown] at h
        cases h _ rfl
    · rintro (haccepts | ⟨text, htext⟩) f hf
      · exact absurd haccepts hnot
      · rw [htext] at hf
        cases hf
        rfl

/-- Merging entries into a draft that has a report leaves it to their decimal places whether there is one. -/
theorem foldl_merge_reports_iff (h : (d .fix).Reportable) (entries : List (Text × Json)) :
    (∀ f, (entries.foldl merge d).check = .error f → f.kind = .configuration) ↔
      ∀ v, lastValue? .fix entries = some v → v.Reportable := by
  rw [reports_iff, foldl_merge_apply]
  cases lastValue? .fix entries with
  | none => exact iff_of_true h nofun
  | some v => simp

end Draft

theorem Settings.reportable_fix [Host] (c : Settings) : (c.draft .fix).Reportable :=
  .inl ⟨c.fix, rfl⟩

theorem Setting.reportable_default [Host] : (default fix).Reportable :=
  .inl ⟨10, rfl⟩

end DeskCalc

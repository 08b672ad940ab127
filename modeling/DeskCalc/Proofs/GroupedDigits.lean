import Mathlib.Data.List.Induction
import DeskCalc.Proofs.RawNumeral

/-!
# Numerals in groups

For display a comma is put before every third character, counted from the end of what stands before the point.  That is
the text cut into groups of three, the first one possibly shorter, and joined by commas (`Groups`, `grouped_eq`).  A
minus sign belongs to no group.

So the display form of a numeral is the numeral itself with commas between the groups before its point and with blanks at
the left up to a width of ten (`ShownAs`, `shownNumeral_inGroups`).
-/

namespace DeskCalc

/-! ### Groups of three -/

/-- The text `d` is cut into the groups `first :: others`: the first one has one to three characters, and all others have
three. -/
structure Groups (d first : List Char) (others : List (List Char)) : Prop where
  append_flatten : first ++ others.flatten = d
  length_first : 1 ≤ first.length ∧ first.length ≤ 3
  length_others : ∀ g ∈ others, g.length = 3

theorem exists_groups {d : List Char} (hd : d ≠ []) : ∃ first others, Groups d first others := by
  induction hlength : d.length using Nat.strongRecOn generalizing d with
  | ind n ih =>
    rcases Nat.lt_or_ge 3 n with hlong | hshort
    · -- the last three characters are a group of their own
      have htake : (d.take (n - 3)).length = n - 3 := by
        rw [List.length_take]
        omega
      obtain ⟨first, others, h⟩ := ih (n - 3) (by omega) (List.ne_nil_of_length_pos (by omega)) htake
      refine ⟨first, others ++ [d.drop (n - 3)], ?_, h.length_first, ?_⟩
      · rw [List.flatten_append, List.flatten_singleton, ← List.append_assoc, h.append_flatten, List.take_append_drop]
      · intro g hg
        rcases List.mem_append.1 hg with hg | hg
        · exact h.length_others g hg
        · rw [List.mem_singleton.1 hg, List.length_drop]
          omega
    · have hpos := List.length_pos_iff.2 hd
      exact ⟨d, [], List.append_nil d, ⟨by omega, by omega⟩, nofun⟩

private theorem groupFromEnd_append (i : Nat) (s t : List Char) :
    groupFromEnd i (s ++ t) = groupFromEnd i s ++ groupFromEnd (i + s.length) t := by
  induction s generalizing i with
  | nil => rfl
  | cons c s ih =>
    have hnext : i + 1 + s.length = i + (c :: s).length := by
      rw [List.length_cons]
      omega
    rw [List.cons_append, groupFromEnd, groupFromEnd, ih, hnext]
    split <;> rfl

/-- What separates a group from the `i` characters that come after it. -/
def separator (i : Nat) : List Char :=
  if i = 0 then [] else [',']

/-- Only before the first character of a group a comma is put, counted from the end. -/
private theorem groupFromEnd_group {i : Nat} (hi : i % 3 = 0) {g : List Char} (hlength : 1 ≤ g.length ∧ g.length ≤ 3)
    (hminus : '-' ∉ g) : groupFromEnd i g = separator i ++ g := by
  have hone : (i + 1) % 3 ≠ 0 := by omega
  have htwo : (i + 1 + 1) % 3 ≠ 0 := by omega
  match g, hlength with
  | [], h => exact absurd h.1 (by decide)
  | c :: rest, h =>
    have hc : c ≠ '-' := fun heq => hminus (heq ▸ List.mem_cons_self)
    have hrest : groupFromEnd (i + 1) rest = rest := by
      match rest, h with
      | [], _ => rfl
      | [d], _ => simp [groupFromEnd, hone]
      | [d, e], _ => simp [groupFromEnd, hone, htwo]
      | _ :: _ :: _ :: _, h => exact absurd h.2 (by simp)
    rw [groupFromEnd, hrest, separator]
    by_cases hzero : i = 0 <;> simp [hzero, hi, hc]

private theorem intercalate_concat (sep first last : List Char) (others : List (List Char)) :
    List.intercalate sep (first :: (others ++ [last])) = List.intercalate sep (first :: others) ++ sep ++ last := by
  induction others generalizing first with
  | nil => rw [List.nil_append, List.intercalate_cons_cons, List.intercalate_singleton, List.intercalate_singleton]
  | cons g others ih =>
    rw [List.cons_append, List.intercalate_cons_cons, ih, List.intercalate_cons_cons, List.append_assoc,
      List.append_assoc, List.append_assoc, List.append_assoc, List.append_assoc]

section Groups

variable {d first : List Char} {others : List (List Char)}

/-- Read from its end, a text in groups has a comma between any two of them. -/
private theorem Groups.groupFromEnd_eq (h : Groups d first others) (hminus : '-' ∉ d) {i : Nat} (hi : i % 3 = 0) :
    groupFromEnd i d.reverse = separator i ++ (List.intercalate [','] (first :: others)).reverse := by
  induction others using List.reverseRecOn generalizing d i with
  | nil =>
    have heq : first = d := by simpa using h.append_flatten
    subst heq
    rw [List.intercalate_singleton]
    exact groupFromEnd_group hi (by simpa using h.length_first) (by simpa using hminus)
  | append_singleton others last ih =>
    have hlast : last.length = 3 := h.length_others last (by simp)
    have hd : d = (first ++ others.flatten) ++ last := by
      rw [← h.append_flatten, List.flatten_append, List.flatten_singleton, List.append_assoc]
    have hbefore : Groups (first ++ others.flatten) first others :=
      ⟨rfl, h.length_first, fun g hg => h.length_others g (List.mem_append_left _ hg)⟩
    rw [hd, List.mem_append, not_or] at hminus
    have hgroup := groupFromEnd_group hi (g := last.reverse) (by simp [hlast]) (by simpa using hminus.2)
    have hnext : separator (i + 3) = [','] := rfl
    rw [hd, List.reverse_append, groupFromEnd_append, hgroup, List.length_reverse, hlast, ih hbefore hminus.1 (by omega),
      hnext, intercalate_concat, List.reverse_append, List.reverse_append, List.append_assoc]
    rfl

/-- A text with an optional minus sign is written in groups. -/
theorem Groups.grouped_eq (h : Groups d first others) (hd : '-' ∉ d) {minus : List Char}
    (hminus : minus = [] ∨ minus = ['-']) :
    grouped (minus ++ d) = minus ++ List.intercalate [','] (first :: others) := by
  have hsign : ∀ i, groupFromEnd i minus.reverse = minus.reverse := by
    intro i
    rcases hminus with rfl | rfl
    · rfl
    · simp [groupFromEnd]
  rw [grouped, List.reverse_append, groupFromEnd_append, h.groupFromEnd_eq hd (Nat.zero_mod 3), hsign,
    List.reverse_append, List.reverse_reverse]
  exact congrArg (minus ++ ·) (List.reverse_reverse _)

end Groups

private theorem filter_groupFromEnd (i : Nat) (s : List Char) :
    (groupFromEnd i s).filter (· != ',') = s.filter (· != ',') := by
  induction s generalizing i with
  | nil => rfl
  | cons c s ih =>
    rw [groupFromEnd]
    split <;> simp [List.filter_cons, ih]

/-- Without its commas a text in groups is the text without its commas. -/
theorem filter_grouped (s : List Char) : (grouped s).filter (· != ',') = s.filter (· != ',') := by
  rw [grouped, List.filter_reverse, filter_groupFromEnd, List.filter_reverse, List.reverse_reverse]

theorem mem_grouped {s : List Char} {c : Char} (h : c ∈ grouped s) : c = ',' ∨ c ∈ s := by
  by_cases hc : c = ','
  · exact .inl hc
  · have hfilter : c ∈ (grouped s).filter (· != ',') := List.mem_filter.2 ⟨h, bne_iff_ne.2 hc⟩
    rw [filter_grouped] at hfilter
    exact .inr (List.mem_of_mem_filter hfilter)

/-! ### Numerals for display -/

/-- The display form adds blanks and commas only. -/
theorem mem_displayForm {s : List Char} {c : Char} (h : c ∈ displayForm s) : c = ' ' ∨ c = ',' ∨ c ∈ s := by
  rw [displayForm, rightAligned, List.leftpad, List.mem_append, List.mem_append] at h
  rcases h with (h | h) | h
  · exact .inl (List.eq_of_mem_replicate h)
  · exact .inr ((mem_grouped h).imp_right fun hc => (List.takeWhile_prefix _).subset hc)
  · exact .inr (.inr ((List.dropWhile_suffix _).subset h))

/-- What is shown of the numeral `text`: the groups of what stands before its point, aligned to the right up to ten
characters, and after the point the numeral as it is. -/
structure ShownAs (text shown : List Char) : Prop where
  plain_eq : (shown.dropWhile (· == ' ')).filter (· != ',') = text
  comma_not_mem : ',' ∉ shown.dropWhile (· != '.')
  length_eq : (shown.takeWhile (· != '.')).length =
    max 10 ((shown.takeWhile (· != '.')).dropWhile (· == ' ')).length
  groups : ∃ minus d first others, (minus = [] ∨ minus = ['-']) ∧ text.takeWhile (· != '.') = minus ++ d ∧
    Groups d first others ∧
      (shown.takeWhile (· != '.')).dropWhile (· == ' ') = minus ++ List.intercalate [','] (first :: others)

section Display

variable {minus ws fs text : List Char}

namespace NumeralParts

/-- The characters of a numeral are no blanks and no commas. -/
theorem of_mem (h : NumeralParts minus ws fs text) {c : Char} (hc : c ∈ text) : c ≠ ' ' ∧ c ≠ ',' := by
  obtain ⟨ws', fs', rfl, hfigures⟩ := h.hasParts
  have hchar : IsFigure c ∨ c = '.' := by
    rcases List.mem_append.1 hc with hc | hc
    · exact .inl (hfigures c (List.mem_append_left _ hc))
    · split at hc
      · cases hc
      · rcases List.mem_cons.1 hc with hc | hc
        · exact .inr hc
        · exact .inl (hfigures c (List.mem_append_right _ hc))
  constructor
  all_goals
    rintro rfl
    exact absurd hchar (by decide)

/-- What is shown is split before its point. -/
theorem displayForm_split (h : NumeralParts minus ws fs text) :
    (displayForm text).takeWhile (· != '.') = rightAligned (grouped (minus ++ ws)) ∧
      (displayForm text).dropWhile (· != '.') = if fs = [] then [] else '.' :: fs := by
  obtain ⟨hbefore, hafter⟩ := h.split_eq
  have hkept : ∀ c ∈ rightAligned (grouped (minus ++ ws)), (c != '.') = true := by
    intro c hc
    rw [rightAligned, List.leftpad, List.mem_append] at hc
    rcases hc with hc | hc
    · rw [List.eq_of_mem_replicate hc]
      rfl
    · rcases mem_grouped hc with rfl | hc
      · rfl
      · rw [← hbefore] at hc
        exact List.mem_takeWhile_imp (p := fun c => c != '.') hc
  rw [displayForm, hbefore, hafter, List.takeWhile_append_of_pos hkept, List.dropWhile_append_of_pos hkept]
  cases fs with
  | nil => exact ⟨List.append_nil _, rfl⟩
  | cons c fs => exact ⟨List.append_nil _, rfl⟩

/-- Only the blanks at the left are blanks. -/
private theorem dropWhile_rightAligned (h : NumeralParts minus ws fs text) (rest : List Char)
    (hrest : ∀ c ∈ rest, c ≠ ' ') :
    (rightAligned (grouped (minus ++ ws)) ++ rest).dropWhile (· == ' ') = grouped (minus ++ ws) ++ rest := by
  have hblank : ∀ c ∈ grouped (minus ++ ws) ++ rest, (c == ' ') = false := by
    intro c hc
    refine beq_eq_false_iff_ne.2 ?_
    rcases List.mem_append.1 hc with hc | hc
    · rcases mem_grouped hc with rfl | hc
      · decide
      · rw [← h.split_eq.1] at hc
        exact (h.of_mem ((List.takeWhile_prefix _).subset hc)).1
    · exact hrest c hc
  rw [rightAligned, List.leftpad, List.append_assoc,
    List.dropWhile_append_of_pos fun c hc => beq_iff_eq.2 (List.eq_of_mem_replicate hc)]
  exact dropWhile_eq_self hblank

theorem dropWhile_displayForm (h : NumeralParts minus ws fs text) :
    (displayForm text).dropWhile (· == ' ') = grouped (minus ++ ws) ++ if fs = [] then [] else '.' :: fs := by
  obtain ⟨hbefore, hafter⟩ := h.split_eq
  rw [displayForm, hbefore, hafter]
  refine h.dropWhile_rightAligned _ fun c hc => (h.of_mem ?_).1
  rw [← hafter] at hc
  exact (List.dropWhile_suffix _).subset hc

theorem shownAs (h : NumeralParts minus ws fs text) : ShownAs text (displayForm text) := by
  obtain ⟨hbefore, hafter⟩ := h.displayForm_split
  have hnone : ∀ c ∈ text, (c != ',') = true := fun c hc => bne_iff_ne.2 (h.of_mem hc).2
  have haligned := h.dropWhile_rightAligned [] nofun
  rw [List.append_nil, List.append_nil] at haligned
  refine ⟨?_, ?_, ?_, ?_⟩
  · rw [h.dropWhile_displayForm, List.filter_append, filter_grouped, ← List.filter_append, List.append_assoc,
      ← h.text_eq]
    exact List.filter_eq_self.2 hnone
  · rw [hafter, ← h.split_eq.2]
    intro hc
    exact (h.of_mem ((List.dropWhile_suffix _).subset hc)).2 rfl
  · rw [hbefore, haligned, rightAligned, List.length_leftpad]
  · obtain ⟨first, others, hgroups⟩ := exists_groups h.ne_nil
    have hdigits : '-' ∉ ws := fun hc => absurd (h.mem_digitSigns _ (List.mem_append_left _ hc)) (by decide)
    refine ⟨minus, ws, first, others, h.minus_eq, h.split_eq.1, hgroups, ?_⟩
    rw [hbefore, haligned, hgroups.grouped_eq hdigits h.minus_eq]

end NumeralParts

end Display

/-- A text with an optional minus sign is cut into groups of three, counted from the end, and deleting the commas gives
it back.  In every base the display form of a number is its numeral in groups, aligned to the right. -/
theorem shownNumeral_inGroups :
    (∀ minus d : List Char, (minus = [] ∨ minus = ['-']) → d ≠ [] → (∀ c ∈ d, c ≠ ',' ∧ c ≠ '-') →
      (∃ first others, Groups d first others ∧
        grouped (minus ++ d) = minus ++ List.intercalate [','] (first :: others)) ∧
      (grouped (minus ++ d)).filter (· != ',') = minus ++ d) ∧
    ∀ (b n : Nat) (x : Double), 2 ≤ b → b ≤ 36 → (x.isFinite = true → b = 10 → n < 2 ^ 31) →
      ∃ text shown, plainNumeral b n x = .ok text ∧ shownNumeral b n x = .ok shown ∧ ShownAs text shown := by
  constructor
  · intro minus d hminus hd hfree
    obtain ⟨first, others, hgroups⟩ := exists_groups hd
    refine ⟨⟨first, others, hgroups, hgroups.grouped_eq (fun hc => (hfree _ hc).2 rfl) hminus⟩, ?_⟩
    rw [filter_grouped]
    refine List.filter_eq_self.2 fun c hc => bne_iff_ne.2 ?_
    rcases List.mem_append.1 hc with hc | hc
    · rcases hminus with rfl | rfl
      · cases hc
      · rw [List.mem_singleton.1 hc]
        decide
    · exact (hfree c hc).1
  · intro b n x two_le le hplaces
    obtain ⟨text, htext⟩ := exists_plainNumeral two_le le hplaces
    obtain ⟨minus, ws, fs, hparts⟩ := exists_numeralParts htext
    exact ⟨text, displayForm text, htext, shownNumeral_eq htext, hparts.shownAs⟩

/-- The number `-1234567.5`, and the text `-123456`. -/
theorem shownNumeral_inGroups_million :
    let x := (Double.ofRatio true 2469135 2)
    (grouped ['-', '1', '2', '3', '4', '5', '6'] = ['-', '1', '2', '3', ',', '4', '5', '6'] ∧
      (grouped ['-', '1', '2', '3', '4', '5', '6']).filter (· != ',') = ['-', '1', '2', '3', '4', '5', '6']) ∧
    shownNumeral (10 : Nat) (1 : Nat) x = .ok ['-', '1', ',', '2', '3', '4', ',', '5', '6', '7', '.', '5'] ∧
      ∃ text, plainNumeral (10 : Nat) (1 : Nat) x = .ok text ∧
        ShownAs text ['-', '1', ',', '2', '3', '4', ',', '5', '6', '7', '.', '5'] := by
  intro x
  have hwritten : shownNumeral (10 : Nat) (1 : Nat) x =
      .ok ['-', '1', ',', '2', '3', '4', ',', '5', '6', '7', '.', '5'] := by decide +kernel
  obtain ⟨text, shown, htext, hshown, h⟩ :=
    shownNumeral_inGroups.2 10 1 x (by decide) (by decide) fun _ _ => by decide
  rw [hwritten, Except.ok.injEq] at hshown
  refine ⟨⟨by decide, ?_⟩, hwritten, text, htext, hshown ▸ h⟩
  exact (shownNumeral_inGroups.1 ['-'] ['1', '2', '3', '4', '5', '6'] (.inr rfl) (by decide) (by simp)).2

end DeskCalc

import Mathlib.Data.List.Induction
import DeskCalc.Settings.Files
import DeskCalc.Window.Dialog

/-!
# Overrides

Overrides are changes on top of the settings file: known keys with values, of which a null changes nothing.  One would
expect them to be laid over the entries of the file (`overlaid`), and the range to be checked after that.  But the
file is checked by itself first.  So the outcome is the expected one exactly if the file is in range, or has a fault
that is still there under the overrides (`Files.loadSettings_eq_overlaid_iff`).  A value out of range is not made good
by its override (`Files.loadSettings_ne_overlaid`).

Both checks see no more of a value than what a setting keeps of it, which for a switch is whether it is on
(`Setting.kept`).
-/

namespace DeskCalc

/-! ### Values of settings -/

namespace Setting

/-- What the setting keeps of a value. -/
def kept (s : Setting) (v : Json) : Json :=
  if s.isSwitch then .bool v.truthy else v

private theorem kept_kept (s : Setting) (v : Json) : s.kept (s.kept v) = s.kept v := by
  cases s <;> rfl

/-- The setting accepts the value. -/
def Accepts (s : Setting) (v : Json) : Prop :=
  match s with
  | fix => ∃ n : Nat, v = .integer n
  | base => ∃ n : Nat, 2 ≤ n ∧ n ≤ 36 ∧ v = .integer n
  | _ => True

private theorem ofKey?_eq_some_iff {key : Text} {s : Setting} : ofKey? key = some s ↔ key = Text.ofString s.key := by
  constructor
  · intro h
    have hkey := List.find?_some (p := fun t : Setting => Text.ofString t.key == key) h
    exact (beq_iff_eq.1 hkey).symm
  · rintro rfl
    exact ofKey?_key s

end Setting

namespace Draft

variable [Host] {d d' : Draft}

/-- A draft describes the settings that have the kept values. -/
theorem check_eq_ok_iff {c : Settings} : d.check = .ok c ↔ ∀ s : Setting, s.kept (d s) = c.draft s := by
  constructor
  · intro h
    unfold check at h
    split at h
    · rename_i fix hfix
      split at h
      · rename_i base hbase
        split at h
        · cases h
          intro s
          cases s with
          | fix => exact hfix
          | base => exact hbase
          | _ => rfl
        · cases h
      · cases h
    · cases h
  · intro h
    have hfix : d .fix = .integer c.fix := h .fix
    have hbase : d .base = .integer c.base := h .base
    have hradians := Json.bool.inj (h .radianMode)
    have hdark := Json.bool.inj (h .darkMode)
    have hshift := Json.bool.inj (h .shiftToCopy)
    have hpaste := Json.bool.inj (h .afterPasteEnter)
    have hrange : 2 ≤ c.base ∧ c.base ≤ 36 := ⟨c.two_le_base, c.base_le⟩
    simp [check, hfix, hbase, hradians, hdark, hshift, hpaste, hrange]

/-- The check sees only what settings keep. -/
private theorem check_congr (h : ∀ s : Setting, s.kept (d s) = s.kept (d' s)) : d.check = d'.check := by
  have hfix : d .fix = d' .fix := h .fix
  have hbase : d .base = d' .base := h .base
  have hradians := Json.bool.inj (h .radianMode)
  have hdark := Json.bool.inj (h .darkMode)
  have hshift := Json.bool.inj (h .shiftToCopy)
  have hpaste := Json.bool.inj (h .afterPasteEnter)
  simp only [check, hfix, hbase, hradians, hdark, hshift, hpaste]

/-- A draft describes settings exactly if each setting accepts its value. -/
theorem exists_check_iff : (∃ c, d.check = .ok c) ↔ ∀ s : Setting, s.Accepts (d s) := by
  constructor
  · rintro ⟨c, hc⟩ s
    have h := check_eq_ok_iff.1 hc s
    cases s with
    | fix => exact ⟨c.fix, h⟩
    | base => exact ⟨c.base, c.two_le_base, c.base_le, h⟩
    | _ => trivial
  · intro h
    obtain ⟨fix, hfix⟩ := h .fix
    obtain ⟨base, hge, hle, hbase⟩ := h .base
    let c : Settings := ⟨fix, base, (d .radianMode).truthy, (d .darkMode).truthy, (d .shiftToCopy).truthy,
      (d .afterPasteEnter).truthy, hge, hle⟩
    refine ⟨c, check_eq_ok_iff.2 fun s => ?_⟩
    cases s with
    | fix => exact hfix
    | base => exact hbase
    | _ => rfl

end Draft

/-! ### Entries -/

/-- The value of the last entry for a setting. -/
def lastValue? (s : Setting) (entries : List (Text × Json)) : Option Json :=
  (entries.reverse.find? fun e => e.1 = Text.ofString s.key).map Prod.snd

/-- The entries without nulls. -/
def effective (changes : List (Text × Json)) : List (Text × Json) :=
  changes.filter fun e => !e.2.isNull

/-- The entries with changes laid over them: a change takes the place of the entries with its key, unless it is
null. -/
def overlaid (entries changes : List (Text × Json)) : List (Text × Json) :=
  entries.filter (fun e => (effective changes).all fun c => c.1 ≠ e.1) ++ effective changes

section Entries

variable {s : Setting} {entries changes : List (Text × Json)}

private theorem lastValue?_append :
    lastValue? s (entries ++ changes) = (lastValue? s changes).or (lastValue? s entries) := by
  rw [lastValue?, List.reverse_append, List.find?_append, Option.map_or]
  rfl

private theorem lastValue?_singleton (e : Text × Json) :
    lastValue? s [e] = if e.1 = Text.ofString s.key then some e.2 else none := by
  by_cases h : e.1 = Text.ofString s.key <;> simp [lastValue?, h]

/-- Entries for other settings do not matter. -/
theorem lastValue?_filter {p : Text × Json → Bool} (h : ∀ e, e.1 = Text.ofString s.key → p e = true) :
    lastValue? s (entries.filter p) = lastValue? s entries := by
  have hkey : (fun e => decide (p e = true ∧ decide (e.1 = Text.ofString s.key) = true)) =
      fun e : Text × Json => decide (e.1 = Text.ofString s.key) := by
    funext e
    by_cases he : e.1 = Text.ofString s.key <;> simp [he, h]
  rw [lastValue?, ← List.filter_reverse, List.find?_filter, hkey]
  rfl

/-- An override wins over the entries, and what has no override stays. -/
private theorem lastValue?_overlaid :
    lastValue? s (overlaid entries changes) = (lastValue? s (effective changes)).or (lastValue? s entries) := by
  rw [overlaid, lastValue?_append]
  cases h : lastValue? s (effective changes) with
  | some v => rfl
  | none =>
    have hnone : ∀ c ∈ effective changes, c.1 ≠ Text.ofString s.key := by
      simpa [lastValue?] using h
    rw [lastValue?_filter]
    intro e he
    simpa [he] using hnone

end Entries

namespace Draft

theorem merge_apply (d : Draft) (e : Text × Json) (s : Setting) :
    d.merge e s = if e.1 = Text.ofString s.key then e.2 else d s := by
  have hkey : Setting.ofKey? e.1 = some s ↔ e.1 = Text.ofString s.key := Setting.ofKey?_eq_some_iff
  unfold merge
  cases h : Setting.ofKey? e.1 with
  | some t =>
    rw [h, Option.some.injEq] at hkey
    simp [set, ← hkey, eq_comm]
  | none =>
    have hne : e.1 ≠ Text.ofString s.key := by
      intro hs
      rw [hkey.2 hs] at h
      cases h
    rw [if_neg hne]

/-- Merged entries give each setting its last value. -/
theorem foldl_merge_apply (d : Draft) (entries : List (Text × Json)) (s : Setting) :
    (entries.foldl merge d) s = (lastValue? s entries).getD (d s) := by
  induction entries using List.reverseRecOn with
  | nil => rfl
  | append_singleton entries e ih =>
    rw [List.foldl_append, List.foldl_cons, List.foldl_nil, merge_apply, ih, lastValue?_append, lastValue?_singleton]
    split <;> rfl

/-- Changes are laid over entries by merging them after the entries. -/
theorem foldl_merge_overlaid (d : Draft) (entries changes : List (Text × Json)) :
    (overlaid entries changes).foldl merge d = (effective changes).foldl merge (entries.foldl merge d) := by
  funext s
  rw [foldl_merge_apply, foldl_merge_apply, foldl_merge_apply, lastValue?_overlaid]
  cases lastValue? s (effective changes) <;> rfl

/-- Entries with known keys are merged without a fault. -/
private theorem foldlM_mergeStrict {entries : List (Text × Json)} (known : ∀ e ∈ entries, (Setting.ofKey? e.1).isSome)
    (d : Draft) : entries.foldlM mergeStrict d = .ok (entries.foldl merge d) := by
  induction entries generalizing d with
  | nil => rfl
  | cons e entries ih =>
    obtain ⟨s, hs⟩ := Option.isSome_iff_exists.1 (known e List.mem_cons_self)
    have hmerge : d.mergeStrict e = .ok (d.merge e) := by
      rw [mergeStrict, merge, hs]
    rw [List.foldlM_cons, hmerge]
    exact ih (fun e he => known e (List.mem_cons_of_mem _ he)) _

end Draft

namespace Settings

variable [Host] {entries changes : List (Text × Json)}

/-- Changes with known keys replace the values of their settings. -/
theorem replace_of_known (known : ∀ e ∈ changes, (Setting.ofKey? e.1).isSome) (c : Settings) :
    c.replace changes = ((effective changes).foldl Draft.merge c.draft).check.mapError .value := by
  have hreserved : changes.any (fun e => e.1 == reservedKey) = false := by
    rw [List.any_eq_false]
    intro e he hself
    have hknown := known e he
    rw [beq_iff_eq.1 hself] at hknown
    exact absurd hknown (by decide)
  have hknown : ∀ e ∈ effective changes, (Setting.ofKey? e.1).isSome :=
    fun e he => known e (List.mem_filter.1 he).1
  rw [replace, hreserved, Draft.checkWith, ← effective, Draft.foldlM_mergeStrict hknown]
  rfl

/-- Of the values of a draft, changes find what its check has kept. -/
theorem replace_of_check {d : Draft} {c : Settings} (checked : d.check = .ok c)
    (known : ∀ e ∈ changes, (Setting.ofKey? e.1).isSome) :
    c.replace changes = ((effective changes).foldl Draft.merge d).check.mapError .value := by
  rw [replace_of_known known]
  congr 1
  refine Draft.check_congr fun s => ?_
  have hkept := Draft.check_eq_ok_iff.1 checked s
  rw [Draft.foldl_merge_apply, Draft.foldl_merge_apply]
  cases lastValue? s (effective changes) with
  | some v => rfl
  | none =>
    -- the value went through the first check, which keeps of it what the second one sees
    simp only [Option.getD_none, ← hkept, Setting.kept_kept]

/-- Settings that entries describe are replaced as the entries are overlaid. -/
private theorem replace_of_fromEntries {c : Settings} (accepted : fromEntries entries = .ok c)
    (known : ∀ e ∈ changes, (Setting.ofKey? e.1).isSome) :
    c.replace changes = (fromEntries (overlaid entries changes)).mapError .value := by
  rw [replace_of_check accepted known, fromEntries, Draft.foldl_merge_overlaid]

end Settings

/-! ### Loading -/

namespace Files

section

variable [Host] {s : Store} {entries overrides : List (Text × Json)}

/-- The entries of the file are checked first, and the overrides come on top of what they describe. -/
theorem loadSettings_of_object (object : readJson s settingsPath = .ok (.object entries)) :
    (loadSettings s overrides).2 =
      match Settings.fromEntries entries with
      | .error f => .error (.settings (.value f))
      | .ok c => (c.replace overrides).mapError .settings := by
  rw [loadSettings, object]
  rfl

/-- The settings are those of the entries with the overrides laid over them, or the fault of these is reported,
exactly if the entries have no fault by themselves that is not still there under the overrides. -/
theorem loadSettings_eq_overlaid_iff (object : readJson s settingsPath = .ok (.object entries))
    (known : ∀ e ∈ overrides, (Setting.ofKey? e.1).isSome) :
    (loadSettings s overrides).2 =
        (Settings.fromEntries (overlaid entries overrides)).mapError (fun f => .settings (.value f)) ↔
      ∀ f, Settings.fromEntries entries = .error f → Settings.fromEntries (overlaid entries overrides) = .error f := by
  rw [loadSettings_of_object object]
  cases h : Settings.fromEntries entries with
  | ok c =>
    refine iff_of_true ?_ (fun f hf => nomatch hf)
    show (c.replace overrides).mapError LoadError.settings = _
    rw [Settings.replace_of_fromEntries h known]
    cases Settings.fromEntries (overlaid entries overrides) <;> rfl
  | error f =>
    cases hoverlaid : Settings.fromEntries (overlaid entries overrides) with
    | ok c => exact iff_of_false (fun heq => nomatch heq) (fun hall => nomatch hall f rfl)
    | error g =>
      constructor
      · intro heq f' hf'
        cases heq
        exact hf'
      · intro hall
        cases hall f rfl
        rfl

end

/-- Base 99 in the file is a fault whether or not there is an override for the decimal places. -/
theorem loadSettings_base_overlaid :
    let entries := [(Text.ofString "base", Json.integer 99)]
    let overrides := [(Text.ofString "fix", Json.integer 2)]
    let s : Store := ⟨"", [(settingsPath, .file (settingsText entries))]⟩
    readJson s settingsPath = .ok (.object entries) ∧ (∀ e ∈ overrides, (Setting.ofKey? e.1).isSome) ∧
      (loadSettings s overrides).2 =
        (Settings.fromEntries (overlaid entries overrides)).mapError (fun f => .settings (.value f)) := by
  intro entries overrides s
  have object : readJson s settingsPath = .ok (.object entries) := by
    with_unfolding_all rfl
  have known : ∀ e ∈ overrides, (Setting.ofKey? e.1).isSome := by decide
  have hfault : Settings.fromEntries (overlaid entries overrides) = .error .radix := by decide +kernel
  refine ⟨object, known, (loadSettings_eq_overlaid_iff object known).2 fun f hf => ?_⟩
  have hfile : Settings.fromEntries entries = .error .radix := by decide +kernel
  rw [hfile] at hf
  cases hf
  exact hfault

/-- Minus one decimal place in the file, overridden by two. -/
theorem loadSettings_ne_overlaid :
    let entries := [(Text.ofString "fix", Json.integer (-1))]
    let overrides := [(Text.ofString "fix", Json.integer 2)]
    let s : Store := ⟨"", [(settingsPath, .file (settingsText entries))]⟩
    readJson s settingsPath = .ok (.object entries) ∧
      (loadSettings s overrides).2 = .error (.settings (.value (.places "-1"))) ∧
      Settings.fromEntries (overlaid entries overrides) =
        .ok ⟨2, 10, false, false, true, false, by decide, by decide⟩ := by
  refine ⟨?_, ?_, ?_⟩
  · with_unfolding_all rfl
  · decide +kernel
  · decide +kernel

end Files

end DeskCalc

import Mathlib.Data.List.Nodup
import Mathlib.Data.List.Perm.Basic
import DeskCalc.Proofs.SettingsText

/-!
# Settings compose

Settings come out of entries, of changes and of the settings file, and these ways agree
(`Settings.composes_and_survives`): the entries of settings describe these settings again, a saved file holds them, two
sets of changes one after the other are the same as the second one laid over the first one, and the order of entries
does not matter.

A value may be changed to any JSON value that the setting accepts, and what is kept of it is what the next change sees.
So two changes compose because keeping twice is keeping once.
-/

namespace DeskCalc

/-! ### Integers in JSON text -/

namespace Json

/-- The number is read back from its own text. -/
def ReadsBack [Host] (n : Nat) : Prop :=
  read (integer n).write = .ok (integer n)

private theorem fewDigits_of_readsBack [Host] {n : Nat} (h : ReadsBack n) : FewDigits n := by
  obtain ⟨r, hvalue, hr⟩ := exists_of_bind_eq_ok h
  have hv : r.1 = integer n := by
    dsimp only at hr
    split at hr
    · exact Except.ok.inj hr
    · cases hr
  obtain ⟨m, hm, hfew⟩ | ⟨members, hmembers, -⟩ | hother := readValue_cases hvalue
  · rw [hm] at hv
    cases hv
    exact hfew
  · rw [hmembers] at hv
    cases hv
  · exact absurd (congrArg kind hv) hother.1

/-- A number is read back exactly if it has no more digits than are read. -/
private theorem readsBack_iff [Host] {n : Nat} : ReadsBack n ↔ FewDigits n := by
  refine ⟨fewDigits_of_readsBack, fun few => ?_⟩
  have hshort : (integer n).IsShort := .integer n few
  obtain ⟨c, cs, hcs, -, -, -, hspace⟩ := exists_write_cons hshort 0
  have hskip : skipSpace (integer n).write = (integer n).write := by
    rw [write, hcs]
    exact skipSpace_cons hspace cs
  have hends : EndsNumeral [] := nofun
  have hvalue := readValue_write hshort (2 * (integer n).write.length + 1) Host.readingDepth 0 hends
  rw [List.append_nil] at hvalue
  rw [ReadsBack, read, hskip]
  exact congrArg (· >>= _) hvalue

end Json

/-! ### The order of entries -/

namespace Draft

/-- Entries for different settings are merged in any order. -/
private theorem merge_comm (d : Draft) {e e' : Text × Json} (h : e.1 ≠ e'.1) :
    (d.merge e).merge e' = (d.merge e').merge e := by
  funext s
  rw [merge_apply, merge_apply, merge_apply, merge_apply]
  by_cases he : e.1 = Text.ofString s.key
  · have he' : e'.1 ≠ Text.ofString s.key := fun heq => h (he.trans heq.symm)
    simp only [if_pos he, if_neg he']
  · simp only [if_neg he]

/-- A key occurs once, so no entry takes the place of another one. -/
private theorem foldl_merge_perm (d : Draft) {entries entries' : List (Text × Json)}
    (nodup : (entries.map Prod.fst).Nodup)
    (h : entries.Perm entries') : entries.foldl merge d = entries'.foldl merge d := by
  refine h.foldl_eq' (fun e he e' he' d => ?_) d
  by_cases heq : e = e'
  · rw [heq]
  · exact merge_comm d fun hkey => heq (List.inj_on_of_nodup_map nodup he he' hkey)

/-- Merging leaves out what has an unknown key. -/
private theorem foldl_merge_filter (d : Draft) (entries : List (Text × Json)) :
    (entries.filter fun e => (Setting.ofKey? e.1).isSome).foldl merge d = entries.foldl merge d := by
  funext s
  have hknown : ∀ e : Text × Json, e.1 = Text.ofString s.key → (Setting.ofKey? e.1).isSome = true := by
    intro e he
    rw [he, Setting.ofKey?_key]
    rfl
  rw [foldl_merge_apply, foldl_merge_apply, lastValue?_filter hknown]

end Draft

/-! ### Changes one after the other -/

/-- Laying changes over others and laying them over the effective ones is the same, as far as they are effective. -/
private theorem effective_overlaid (a b : List (Text × Json)) :
    effective (overlaid a b) = overlaid (effective a) b := by
  have htwice : (effective b).filter (fun e => !e.2.isNull) = effective b := by
    simp [effective]
  rw [overlaid, overlaid, effective, List.filter_append, htwice, List.filter_comm]
  rfl

private theorem known_overlaid {a b : List (Text × Json)} (ha : ∀ e ∈ a, (Setting.ofKey? e.1).isSome)
    (hb : ∀ e ∈ b, (Setting.ofKey? e.1).isSome) : ∀ e ∈ overlaid a b, (Setting.ofKey? e.1).isSome := by
  intro e he
  rcases List.mem_append.1 he with he | he
  · exact ha e (List.mem_filter.1 he).1
  · exact hb e (List.mem_filter.1 he).1

namespace Settings

section

variable [Host] {c c' : Settings} {a b : List (Text × Json)}

/-- Changes of changed settings are the same as all changes at once. -/
private theorem replace_of_replace (ha : ∀ e ∈ a, (Setting.ofKey? e.1).isSome)
    (hb : ∀ e ∈ b, (Setting.ofKey? e.1).isSome)
    (h : c.replace a = .ok c') : c'.replace b = c.replace (overlaid a b) := by
  rw [replace_of_known ha, mapError_eq_ok_iff] at h
  rw [replace_of_check h hb, replace_of_known (known_overlaid ha hb), effective_overlaid, Draft.foldl_merge_overlaid]

/-- Saved settings are loaded again exactly if the number of decimal places is read back. -/
private theorem loadSettings_saved_iff {s t : Store} (saved : Files.saveSettings s c.entries = .ok t) :
    (Files.loadSettings t []).2 = .ok c ↔ Json.ReadsBack c.fix := by
  rw [Json.readsBack_iff]
  exact ⟨Files.fewDigits_of_loadSettings, fun few => Files.loadSettings_saveSettings few saved⟩

/-- Settings are described by their own entries, and a saved file holds them if JSON does with the number of decimal
places what it does with numbers, which is to read back what has been written.  Changes one after the other have the
outcome of the second ones laid over the first ones.  The order of entries and entries with unknown keys do not
matter. -/
theorem composes_and_survives :
    (∀ c : Settings, fromEntries c.entries = .ok c ∧
      ∀ s t, Files.saveSettings s c.entries = .ok t → ((Files.loadSettings t []).2 = .ok c ↔ Json.ReadsBack c.fix)) ∧
    (∀ (c c' : Settings) (a b : List (Text × Json)), (∀ e ∈ a, (Setting.ofKey? e.1).isSome) →
      (∀ e ∈ b, (Setting.ofKey? e.1).isSome) → c.replace a = .ok c' → c'.replace b = c.replace (overlaid a b)) ∧
    ∀ entries : List (Text × Json), (entries.map Prod.fst).Nodup →
      (∀ entries', entries.Perm entries' → fromEntries entries' = fromEntries entries) ∧
        fromEntries (entries.filter fun e => (Setting.ofKey? e.1).isSome) = fromEntries entries := by
  refine ⟨fun c => ⟨c.fromEntries_entries, fun s t saved => loadSettings_saved_iff saved⟩,
    fun c c' a b ha hb h => replace_of_replace ha hb h, fun entries nodup => ⟨fun entries' h => ?_, ?_⟩⟩
  · rw [fromEntries, fromEntries, Draft.foldl_merge_perm _ nodup h]
  · rw [fromEntries, fromEntries, Draft.foldl_merge_filter]

end

/-- Two decimal places and then base sixteen, with a null for the other number each time, and entries of which one is
unknown. -/
theorem composes_and_survives_sixteen :
    let c : Settings := ⟨10, 10, false, false, true, false, by decide, by decide⟩
    let a := [(Text.ofString "fix", Json.integer 2), (Text.ofString "base", Json.null)]
    let b := [(Text.ofString "base", Json.integer 16), (Text.ofString "fix", Json.null)]
    let entries := [(Text.ofString "zoom", Json.bool true), (Text.ofString "base", Json.integer 2)]
    (∃ t, Files.saveSettings ⟨"", []⟩ c.entries = .ok t ∧ (Files.loadSettings t []).2 = .ok c) ∧
      (∃ c', c.replace a = .ok c' ∧ c'.replace b = c.replace (overlaid a b)) ∧
      fromEntries entries.reverse = fromEntries entries := by
  intro c a b entries
  obtain ⟨hown, hcompose, hentries⟩ := composes_and_survives
  refine ⟨?_, ?_, ?_⟩
  · let t : Store := ⟨"", [(Files.settingsPath, .file (Files.settingsText c.entries))]⟩
    have saved : Files.saveSettings ⟨"", []⟩ c.entries = .ok t := rfl
    have few : FewDigits c.fix := lt_pow_of_le (m := 2) (by decide) (by decide)
    exact ⟨t, saved, ((hown c).2 _ t saved).2 (Json.readsBack_iff.2 few)⟩
  · let c' : Settings := ⟨2, 10, false, false, true, false, by decide, by decide⟩
    have replaced : c.replace a = .ok c' := by decide +kernel
    exact ⟨c', replaced, hcompose c c' a b (by decide) (by decide) replaced⟩
  · exact (hentries entries (by decide)).1 entries.reverse (List.reverse_perm entries).symm

end Settings

end DeskCalc

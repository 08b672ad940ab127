import DeskCalc.Proofs.Overlay
import DeskCalc.Proofs.ShownValue

/-!
# Settings files that do no harm

Loading settings should end in settings or in the report of a setting out of range, whatever is in the place of the
settings file, and what holds no JSON object should count as an empty object (`Files.LoadsSafely`).  That is so
exactly if the file is missing, or is text that holds an object or is no JSON at all, and whatever is given for the
decimal places, there or by an override, is accepted or can be shown in a report
(`Files.loadsSafely_iff_harmless`).

Everything else ends in an error of its own: a folder in the place of the file, octets that are not UTF-8
(`Files.loadSettings_undecodable`), an integer with too many digits, nesting that is too deep, and a JSON value that is
no object.  So does a value for the decimal places that would have to be shown and has too many digits or is too deep.
-/

namespace DeskCalc

namespace Files

section

variable [Host]

/-- The settings file holds an object with the given members. -/
def HoldsObject (s : Store) (entries : List (Text × Json)) : Prop :=
  ∃ bytes text, s.read settingsPath = .ok bytes ∧ Utf8.decode bytes = .ok text ∧
    Json.read text = .ok (.object entries)

/-- The settings file counts as an object with the given members: the one it holds, or the empty one if the file is
missing or is text that is no JSON. -/
inductive CountsAs (s : Store) : List (Text × Json) → Prop where
  | missing (e : StoreError) (read_eq : s.read settingsPath = .error e) (defect_eq : e.defect = .missing) :
      CountsAs s []
  | malformed (bytes : List UInt8) (text : List Char) (read_eq : s.read settingsPath = .ok bytes)
      (decode_eq : Utf8.decode bytes = .ok text) (json_eq : Json.read text = .error .malformed) : CountsAs s []
  | object (entries : List (Text × Json)) (holds : HoldsObject s entries) : CountsAs s entries

/-- The settings file counts as an object, and its decimal places can be told about.  So can those of the overrides,
which are looked at if the entries of the file describe settings. -/
structure Harmless (s : Store) (overrides : List (Text × Json)) (entries : List (Text × Json)) : Prop where
  counts : CountsAs s entries
  file : ∀ v, lastValue? .fix entries = some v → v.Reportable
  changes : (∃ c, Settings.fromEntries entries = .ok c) →
    ∀ v, lastValue? .fix (effective overrides) = some v → v.Reportable

/-- Loading ends in settings or in the report of a setting, and a file that holds no object counts as one that holds
the empty object. -/
structure LoadsSafely (s : Store) (overrides : List (Text × Json)) : Prop where
  ends : ∀ e, (loadSettings s overrides).2 = .error e →
    ∃ f : SettingFault, f.kind = .configuration ∧ e = .settings (.value f)
  empty : (∀ entries, ¬HoldsObject s entries) → ∀ t, HoldsObject t [] →
    (loadSettings s overrides).2 = (loadSettings t overrides).2

variable {s : Store} {entries overrides : List (Text × Json)}

/-! ### Reading the file -/

theorem HoldsObject.readJson_eq (h : HoldsObject s entries) : readJson s settingsPath = .ok (.object entries) := by
  obtain ⟨bytes, text, hread, hdecode, hjson⟩ := h
  simp only [readJson, readJson?, hread, hdecode, hjson]
  rfl

theorem CountsAs.readJson_eq (h : CountsAs s entries) : readJson s settingsPath = .ok (.object entries) := by
  cases h with
  | missing e hread hdefect =>
    simp only [readJson, readJson?, hread, if_pos hdefect]
    rfl
  | malformed bytes text hread hdecode hjson =>
    simp only [readJson, readJson?, hread, hdecode, hjson]
    rfl
  | object entries holds => exact holds.readJson_eq

/-- What is read as an object counts as it. -/
theorem countsAs_of_readJson (h : readJson s settingsPath = .ok (.object entries)) : CountsAs s entries := by
  unfold readJson readJson? at h
  cases hread : s.read settingsPath with
  | error e =>
    rw [hread] at h
    by_cases hdefect : e.defect = .missing
    · simp only [if_pos hdefect] at h
      cases h
      exact .missing e hread hdefect
    · simp only [if_neg hdefect] at h
      cases h
  | ok bytes =>
    rw [hread] at h
    cases hdecode : Utf8.decode bytes with
    | error e =>
      simp only [hdecode] at h
      cases h
    | ok text =>
      simp only [hdecode] at h
      cases hjson : Json.read text with
      | ok v =>
        rw [hjson] at h
        cases h
        exact .object entries ⟨bytes, text, hread, hdecode, hjson⟩
      | error e =>
        rw [hjson] at h
        cases e with
        | malformed =>
          cases h
          exact .malformed bytes text hread hdecode hjson
        | _ => cases h

/-! ### Loading -/

/-- What is not read as an object is an error of the file. -/
theorem exists_readJson (h : ∀ e, (loadSettings s overrides).2 ≠ .error (.file e)) :
    ∃ entries, readJson s settingsPath = .ok (.object entries) := by
  unfold loadSettings at h
  cases hjson : readJson s settingsPath with
  | error e =>
    rw [hjson] at h
    exact absurd rfl (h e)
  | ok v =>
    cases v with
    | object entries => exact ⟨entries, rfl⟩
    | _ =>
      rw [hjson] at h
      exact absurd rfl (h _)

/-- Of an object in the settings file, loading ends well exactly if the decimal places can be told about. -/
private theorem ends_iff_reportable (object : readJson s settingsPath = .ok (.object entries))
    (known : ∀ e ∈ overrides, (Setting.ofKey? e.1).isSome) :
    (∀ e, (loadSettings s overrides).2 = .error e →
        ∃ f : SettingFault, f.kind = .configuration ∧ e = .settings (.value f)) ↔
      (∀ v, lastValue? .fix entries = some v → v.Reportable) ∧
        ((∃ c, Settings.fromEntries entries = .ok c) →
          ∀ v, lastValue? .fix (effective overrides) = some v → v.Reportable) := by
  rw [loadSettings_of_object object, ← Draft.foldl_merge_reports_iff Setting.reportable_default entries]
  change _ ↔ (∀ f, Settings.fromEntries entries = .error f → _) ∧ _
  cases h : Settings.fromEntries entries with
  | error f =>
    constructor
    · intro hends
      obtain ⟨g, hg, heq⟩ := hends _ rfl
      cases heq
      exact ⟨fun f hf => by cases hf; exact hg, fun ⟨c, hc⟩ => nomatch hc⟩
    · rintro ⟨hfile, -⟩ e he
      cases he
      exact ⟨f, hfile f rfl, rfl⟩
  | ok c =>
    have hreports := Draft.foldl_merge_reports_iff c.reportable_fix (effective overrides)
    dsimp only
    rw [Settings.replace_of_known known]
    constructor
    · intro hends
      refine ⟨nofun, fun _ => hreports.1 fun f hf => ?_⟩
      rw [hf] at hends
      obtain ⟨g, hg, heq⟩ := hends _ rfl
      cases heq
      exact hg
    · rintro ⟨-, hchanges⟩ e he
      cases hchanged : ((effective overrides).foldl Draft.merge c.draft).check with
      | ok c' =>
        rw [hchanged] at he
        cases he
      | error f =>
        rw [hchanged] at he
        cases he
        exact ⟨f, hreports.2 (hchanges ⟨c, rfl⟩) f hchanged, rfl⟩

/-- Loading is safe exactly if the settings file and the overrides are harmless. -/
theorem loadsSafely_iff_harmless (s : Store) (known : ∀ e ∈ overrides, (Setting.ofKey? e.1).isSome) :
    LoadsSafely s overrides ↔ ∃ entries, Harmless s overrides entries := by
  constructor
  · intro h
    have hread : ∀ e, (loadSettings s overrides).2 ≠ .error (.file e) := by
      intro e he
      obtain ⟨f, -, hf⟩ := h.ends _ he
      cases hf
    obtain ⟨entries, hentries⟩ := exists_readJson hread
    obtain ⟨hfile, hchanges⟩ := (ends_iff_reportable hentries known).1 h.ends
    exact ⟨entries, countsAs_of_readJson hentries, hfile, hchanges⟩
  · rintro ⟨entries, hcounts, hfile, hchanges⟩
    have hentries := hcounts.readJson_eq
    refine ⟨(ends_iff_reportable hentries known).2 ⟨hfile, hchanges⟩, fun hnone t ht => ?_⟩
    have hempty : entries = [] := by
      cases hcounts with
      | object entries holds => exact absurd holds (hnone entries)
      | _ => rfl
    rw [loadSettings_of_object hentries, loadSettings_of_object ht.readJson_eq, hempty]

end

/-- A file that breaks off in the middle of an object does no harm, and neither does an override by minus one decimal
place. -/
theorem loadsSafely_truncated :
    let s : Store := ⟨"", [(settingsPath, .file (Utf8.encode ['\x7b', '"', 'f', 'i', 'x', '"', ':']))]⟩
    let overrides := [(Text.ofString "base", Json.integer 16), (Text.ofString "fix", Json.integer (-1))]
    (∀ e ∈ overrides, (Setting.ofKey? e.1).isSome) ∧ Harmless s overrides [] ∧ LoadsSafely s overrides := by
  intro s overrides
  have known : ∀ e ∈ overrides, (Setting.ofKey? e.1).isSome := by decide
  have counts : CountsAs s [] :=
    .malformed _ ['\x7b', '"', 'f', 'i', 'x', '"', ':'] rfl (by with_unfolding_all rfl) rfl
  have fix : lastValue? .fix (effective overrides) = some (.integer (-1)) := rfl
  have harmless : Harmless s overrides [] :=
    { counts
      file := nofun
      changes := by
        intro _ v hv
        rw [fix] at hv
        cases hv
        exact .inr (.integer _ (-1) (lt_pow_of_le (m := 1) (by decide) (by decide))) }
  exact ⟨known, harmless, (loadsSafely_iff_harmless s known).2 ⟨[], harmless⟩⟩

/-- An octet that is not UTF-8 ends loading in an error that is no fault of a setting. -/
theorem loadSettings_undecodable :
    let s : Store := ⟨"", [(settingsPath, .file [0xFF])]⟩
    (loadSettings s []).2 = .error (.file (.undecodable ⟨.invalidStart, 0, 1, 0xFF⟩)) ∧ ¬LoadsSafely s [] := by
  intro s
  have hload : (loadSettings s []).2 = .error (.file (.undecodable ⟨.invalidStart, 0, 1, 0xFF⟩)) := by decide +kernel
  refine ⟨hload, fun h => ?_⟩
  obtain ⟨f, -, hf⟩ := h.ends _ hload
  cases hf

end Files

end DeskCalc

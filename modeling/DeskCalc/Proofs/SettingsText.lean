import DeskCalc.Proofs.Computation
import DeskCalc.Proofs.JsonRoundtrip
import DeskCalc.Proofs.SettingsLoading

/-!
# Settings files are read back

Settings that are saved are loaded again (`Files.loadSettings_saveSettings`).  The one condition is that the number of
decimal places has no more digits than are read.  It holds of every number that comes from an input field
(`fewDigits_of_readInteger`) or from a settings file (`Files.fewDigits_of_loadSettings`), because no reader lets longer
ones through.
-/

namespace DeskCalc

/-! ### Integers that are read -/

theorem fewDigits_of_readInteger {s : List Char} {n : Int} (h : readInteger s = some n) : FewDigits n.natAbs := by
  rw [readInteger, Option.bind_eq_bind, Option.bind_eq_some_iff] at h
  obtain ⟨cs, -, h⟩ := h
  generalize splitSign cs = signed at h
  obtain ⟨negative, ds⟩ := signed
  dsimp only at h
  split at h
  · cases h
  · rename_i hds
    simp only [Bool.or_eq_true, Bool.not_eq_true', decide_eq_true_eq, not_or, Bool.not_eq_false, List.all_eq_true,
      Nat.not_lt] at hds
    have hfew : FewDigits (digitsNat ds) := digitsNat_lt hds.1.2 hds.2
    split at h <;> obtain rfl := Option.some.inj h
    · rwa [Int.natAbs_neg, Int.natAbs_natCast]
    · rwa [Int.natAbs_natCast]

namespace Json

/-- A value of another kind than integers and objects. -/
def IsOther (v : Json) : Prop :=
  v.kind ≠ .integer ∧ v.kind ≠ .object

private theorem isOther_float (x : Double) : (float x).IsOther :=
  ⟨Kind.noConfusion, Kind.noConfusion⟩

private theorem isOther_string (s : Text) : (string s).IsOther :=
  ⟨Kind.noConfusion, Kind.noConfusion⟩

private theorem isOther_array (items : List Json) : (array items).IsOther :=
  ⟨Kind.noConfusion, Kind.noConfusion⟩

/-- A number is an integer with few digits or a double. -/
private theorem readNumber_cases {negative : Bool} {s rest : List Char} {v : Json}
    (h : readNumber negative s = .ok (v, rest)) :
    (∃ n : Int, v = integer n ∧ FewDigits n.natAbs) ∨ ∃ x, v = float x := by
  unfold readNumber at h
  generalize hwhole : (if s.head? = some '0' then ['0'] else s.takeWhile isAsciiDigit) = whole at h
  have hall : ∀ c ∈ whole, isAsciiDigit c = true := by
    rw [← hwhole]
    split
    · exact List.all_eq_true.1 rfl
    · exact fun c hc => List.mem_takeWhile_imp hc
  dsimp only at h
  split at h
  · cases h
  · split at h
    · split at h
      · cases h
      · rename_i hlength
        have hfew : FewDigits (digitsNat whole) := digitsNat_lt hall (Nat.not_lt.1 hlength)
        obtain ⟨rfl, -⟩ := Prod.mk.inj (Except.ok.inj h)
        refine .inl ⟨_, rfl, ?_⟩
        split
        · rwa [Int.natAbs_neg, Int.natAbs_natCast]
        · rwa [Int.natAbs_natCast]
    · cases h
      exact .inr ⟨_, rfl⟩

/-- A word or a number is an integer with few digits, or neither an integer nor an object. -/
private theorem readScalar_cases {s rest : List Char} {v : Json} (h : readScalar s = .ok (v, rest)) :
    (∃ n : Int, v = integer n ∧ FewDigits n.natAbs) ∨ v.IsOther := by
  have hnumber : ∀ negative s, readNumber negative s = .ok (v, rest) →
      (∃ n : Int, v = integer n ∧ FewDigits n.natAbs) ∨ v.IsOther := by
    intro negative s hread
    refine (readNumber_cases hread).imp_right ?_
    rintro ⟨x, rfl⟩
    exact isOther_float x
  have hall : wordValues.all (fun w => w.2.kind ≠ .integer ∧ w.2.kind ≠ .object) = true := by decide
  unfold readScalar at h
  split at h
  · rename_i word v hword
    cases h
    have hother := of_decide_eq_true (List.all_eq_true.1 hall _ (List.mem_of_find?_eq_some hword))
    exact .inr ⟨hother.1, hother.2⟩
  · split at h <;> exact hnumber _ _ h

/-- A value that is read is an integer with few digits, an object whose members have been read, or something else. -/
theorem readValue_cases {fuel depth : Nat} {s rest : List Char} {v : Json}
    (h : readValue fuel depth s = .ok (v, rest)) :
    (∃ n : Int, v = integer n ∧ FewDigits n.natAbs) ∨
      (∃ members, v = object members ∧ (members = [] ∨ ∃ fuel depth s,
        readMembers fuel depth [] s = .ok (members, rest))) ∨ v.IsOther := by
  cases fuel with
  | zero => cases h
  | succ fuel =>
    unfold readValue at h
    split at h
    · obtain ⟨r, -, hr⟩ := exists_of_map_eq_ok h
      cases hr
      exact .inr (.inr (isOther_string _))
    · split at h
      · cases h
      · cases h
        exact .inr (.inr (isOther_array _))
      · obtain ⟨r, -, hr⟩ := exists_of_map_eq_ok h
        cases hr
        exact .inr (.inr (isOther_array _))
    · split at h
      · cases h
      · cases h
        exact .inr (.inl ⟨[], rfl, .inl rfl⟩)
      · obtain ⟨r, hread, hr⟩ := exists_of_map_eq_ok h
        cases hr
        exact .inr (.inl ⟨_, rfl, .inr ⟨_, _, _, hread⟩⟩)
    · exact (readScalar_cases h).imp_right .inr

private theorem mem_setMember {key : Text} {value : Json} {members : List (Text × Json)} {m : Text × Json}
    (h : m ∈ setMember key value members) : m = (key, value) ∨ m ∈ members := by
  induction members with
  | nil => exact .inl (List.mem_singleton.1 h)
  | cons m' members ih =>
    rw [setMember] at h
    split at h
    · rcases List.mem_cons.1 h with rfl | h
      · exact .inl rfl
      · exact .inr (List.mem_cons_of_mem _ h)
    · rcases List.mem_cons.1 h with rfl | h
      · exact .inr List.mem_cons_self
      · exact (ih h).imp_right (List.mem_cons_of_mem _)

/-- Reading members takes one member and ends, or goes on after it. -/
private theorem readMembers_cases {fuel depth : Nat} {before members : List (Text × Json)} {s rest : List Char}
    (h : readMembers (fuel + 1) depth before s = .ok (members, rest)) :
    ∃ key v s' rest', readValue fuel depth s' = .ok (v, rest') ∧ (members = setMember key v before ∨
      ∃ s'', readMembers fuel depth (setMember key v before) s'' = .ok (members, rest)) := by
  unfold readMembers at h
  split at h
  · rename_i s
    cases hkey : readText s with
    | error e =>
      rw [hkey] at h
      cases h
    | ok r =>
      simp only [hkey, bind, Except.bind] at h
      split at h
      · rename_i s' hcolon
        cases hvalue : readValue fuel depth (skipSpace s') with
        | error e =>
          rw [hvalue] at h
          cases h
        | ok r' =>
          simp only [hvalue] at h
          refine ⟨r.1, r'.1, _, r'.2, hvalue, ?_⟩
          split at h
          · exact .inr ⟨_, h⟩
          · cases h
            exact .inl rfl
          · cases h
      · cases h
  · cases h

/-- The integers among the members have few digits. -/
def HaveFewDigits (members : List (Text × Json)) : Prop :=
  ∀ key n, (key, integer n) ∈ members → FewDigits n.natAbs

private theorem haveFewDigits_of_readMembers {fuel depth : Nat} {before members : List (Text × Json)}
    {s rest : List Char} (hbefore : HaveFewDigits before) (h : readMembers fuel depth before s = .ok (members, rest)) :
    HaveFewDigits members := by
  induction fuel generalizing before s with
  | zero => cases h
  | succ fuel ih =>
    obtain ⟨key, v, s', rest', hvalue, hend⟩ := readMembers_cases h
    have hset : HaveFewDigits (setMember key v before) := by
      intro k n hmem
      rcases mem_setMember hmem with heq | hmem
      · cases heq
        obtain ⟨n, hn, hfew⟩ | ⟨members, hmembers, -⟩ | hother := readValue_cases hvalue
        · cases hn
          exact hfew
        · cases hmembers
        · exact absurd rfl hother.1
      · exact hbefore k n hmem
    obtain rfl | ⟨s'', hmore⟩ := hend
    · exact hset
    · exact ih hset hmore

/-- The members of an object that is read have few digits. -/
private theorem haveFewDigits_of_read [Host] {s : List Char} {members : List (Text × Json)}
    (h : read s = .ok (object members)) : HaveFewDigits members := by
  unfold read at h
  cases hvalue : readValue (2 * s.length + 2) Host.readingDepth (skipSpace s) with
  | error e =>
    rw [hvalue] at h
    cases h
  | ok r =>
    simp only [hvalue, bind, Except.bind] at h
    split at h
    · have hobject : r.1 = object members := Except.ok.inj h
      obtain ⟨n, hn, -⟩ | ⟨ms, hms, rfl | ⟨fuel, depth, t, hread⟩⟩ | hother := readValue_cases hvalue
      · rw [hn] at hobject
        cases hobject
      · rw [hms] at hobject
        cases hobject
        exact fun key n hmem => absurd hmem List.not_mem_nil
      · rw [hms] at hobject
        cases hobject
        exact haveFewDigits_of_readMembers (fun key n hmem => absurd hmem List.not_mem_nil) hread
      · rw [hobject] at hother
        exact absurd rfl hother.2
    · cases h

end Json

/-! ### Settings files -/

theorem Store.eq_put_of_write {s t : Store} {p : StorePath} {bytes : List UInt8} (h : s.write p bytes = .ok t) :
    t = s.put p (.file bytes) := by
  unfold write at h
  split at h
  · cases h
  · split at h <;> cases h
    rfl

theorem mem_of_lastValue? {s : Setting} {entries : List (Text × Json)} {v : Json} (h : lastValue? s entries = some v) :
    (Text.ofString s.key, v) ∈ entries := by
  obtain ⟨e, he, rfl⟩ := Option.map_eq_some_iff.1 h
  have hkey : e.1 = Text.ofString s.key := by simpa using List.find?_some he
  rw [← hkey]
  exact List.mem_reverse.1 (List.mem_of_find?_eq_some he)

namespace Settings

variable (c : Settings)

private theorem lastValue?_entries (s : Setting) : lastValue? s c.entries = some (c.draft s) := by
  cases s <;> rfl

theorem fromEntries_entries [Host] : fromEntries c.entries = .ok c := by
  refine Draft.check_eq_ok_iff.2 fun s => ?_
  rw [Draft.foldl_merge_apply, lastValue?_entries, Option.getD_some]
  cases s <;> rfl

theorem replace_nil [Host] : c.replace [] = .ok c := by
  rw [replace_of_known fun e he => absurd he List.not_mem_nil]
  exact congrArg (Except.mapError SettingsError.value) c.check_draft

/-- The entries of settings with few decimal places are short. -/
private theorem isShortMember_entries (few : FewDigits c.fix) : ∀ m ∈ c.entries, Json.IsShortMember m := by
  intro m hm
  obtain ⟨s, -, rfl⟩ := List.mem_map.1 hm
  have hplain : s.key.toList.all (fun c => decide (Json.IsPlain c)) = true := by
    cases s <;> decide
  refine ⟨⟨s.key.toList, rfl, fun c hc => of_decide_eq_true (List.all_eq_true.1 hplain c hc)⟩, ?_⟩
  cases s with
  | fix => exact .integer c.fix few
  | base =>
    have hlt : c.base < 10 ^ 2 := Nat.lt_of_le_of_lt c.base_le (by decide)
    exact .integer c.base (lt_pow_of_le hlt (by decide))
  | _ => exact .bool _

end Settings

namespace Files

variable [Host] {s t : Store} {overrides : List (Text × Json)} {c : Settings}

/-- A saved settings file holds the entries. -/
private theorem holdsObject_saveSettings (few : FewDigits c.fix) (h : saveSettings s c.entries = .ok t) :
    HoldsObject t c.entries := by
  have hshort := c.isShortMember_entries few
  have ht : t = s.put settingsPath (.file (settingsText c.entries)) := by
    unfold saveSettings at h
    cases hwrite : s.write settingsPath (settingsText c.entries) with
    | ok saved =>
      rw [hwrite] at h
      cases h
      exact Store.eq_put_of_write hwrite
    | error e =>
      rw [hwrite] at h
      cases h
  have hnodup : (c.entries.map Prod.fst).Nodup := by
    have hkeys : c.entries.map Prod.fst = Setting.all.map fun s => Text.ofString s.key := List.map_map
    rw [hkeys]
    decide
  exact ⟨_, _, ht ▸ s.read_put settingsPath _, Json.decode_encode_write hshort,
    Json.read_write hshort nofun hnodup⟩

/-- The overrides replace settings of the file. -/
theorem loadSettings_of_fromEntries {entries : List (Text × Json)}
    (object : readJson s settingsPath = .ok (.object entries)) (accepted : Settings.fromEntries entries = .ok c) :
    (loadSettings s overrides).2 = (c.replace overrides).mapError .settings := by
  rw [loadSettings_of_object object, accepted]

/-- Settings that are saved are loaded again. -/
theorem loadSettings_saveSettings (few : FewDigits c.fix) (h : saveSettings s c.entries = .ok t) :
    (loadSettings t []).2 = .ok c := by
  rw [loadSettings_of_fromEntries (holdsObject_saveSettings few h).readJson_eq c.fromEntries_entries, c.replace_nil]
  rfl

/-- Settings are loaded from an object in the settings file. -/
theorem exists_of_loadSettings (h : (loadSettings s overrides).2 = .ok c) :
    ∃ entries file, readJson s settingsPath = .ok (.object entries) ∧ Settings.fromEntries entries = .ok file ∧
      file.replace overrides = .ok c := by
  have hread : ∀ e, (loadSettings s overrides).2 ≠ .error (.file e) := by
    rw [h]
    exact nofun
  obtain ⟨entries, hentries⟩ := exists_readJson hread
  cases hfile : Settings.fromEntries entries with
  | error f =>
    rw [loadSettings_of_object hentries, hfile] at h
    cases h
  | ok file =>
    refine ⟨entries, file, hentries, hfile, ?_⟩
    rw [loadSettings_of_fromEntries hentries hfile] at h
    exact mapError_eq_ok_iff.1 h

/-- What is loaded from the settings file can be saved and loaded again. -/
theorem fewDigits_of_loadSettings (h : (loadSettings s []).2 = .ok c) : FewDigits c.fix := by
  obtain ⟨entries, file, hentries, hfile, hc⟩ := exists_of_loadSettings h
  rw [file.replace_nil] at hc
  cases hc
  have hfix : (entries.foldl Draft.merge Setting.default) .fix = .integer c.fix := Draft.check_eq_ok_iff.1 hfile .fix
  rw [Draft.foldl_merge_apply] at hfix
  have hfew : Json.HaveFewDigits entries := by
    cases countsAs_of_readJson hentries with
    | object _ holds =>
      obtain ⟨bytes, text, -, -, hjson⟩ := holds
      exact Json.haveFewDigits_of_read hjson
    | _ => exact fun key n hmem => absurd hmem List.not_mem_nil
  cases hlast : lastValue? .fix entries with
  | some v =>
    rw [hlast, Option.getD_some] at hfix
    rw [hfix] at hlast
    exact hfew _ _ (mem_of_lastValue? hlast)
  | none =>
    rw [hlast] at hfix
    have hten : c.fix = 10 := (Int.ofNat.inj (Json.integer.inj hfix)).symm
    rw [hten]
    exact lt_pow_of_le (m := 2) (by decide) (by decide)

end Files

end DeskCalc

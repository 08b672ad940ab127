import DeskCalc.Desktop
import DeskCalc.Proofs.SettingsText

/-!
# Entered settings

The settings dialog gives one value for each setting: the state of a check box, the number in a field, or the number
that was there before if the field is blank (`Dialog.Gives`).  It is accepted with the settings that have these values
(`Dialog.accept_eq_ok_iff`), and refused exactly if a setting is given no value that it accepts
(`Dialog.exists_accept_iff`).  A setting out of range can always be told about, since a field does not take numbers with
too many digits (`Dialog.kind_of_accept_error`).
-/

namespace DeskCalc

private theorem Setting.mem_all (s : Setting) : s ∈ Setting.all := by
  cases s <;> decide

namespace Dialog

variable {d : Dialog} {s : Setting}

/-- The value that the dialog gives for a setting. -/
inductive Gives (d : Dialog) (s : Setting) : Json → Prop where
  | checked (switch : s.isSwitch = true) : Gives d s (.bool (d.checked s))
  | blank (number : s.isSwitch = false) (text_eq : strip (d.typed s) = []) : Gives d s (d.settings.draft s)
  | number (n : Int) (number : s.isSwitch = false) (text_ne : strip (d.typed s) ≠ [])
      (text_eq : readInteger (strip (d.typed s)) = some n) : Gives d s (.integer n)

/-- Some field holds no whole number, or one that its setting does not accept. -/
def Refuses (d : Dialog) : Prop :=
  ∃ s : Setting, ∀ v, d.Gives s v → ¬s.Accepts v

/-- A setting keeps what the dialog gives for it as it is. -/
private theorem Gives.kept_eq {v : Json} (h : d.Gives s v) : s.kept v = v := by
  cases h with
  | checked => cases s <;> rfl
  | blank => cases s <;> rfl
  | number n number => cases s <;> first | rfl | cases number

private theorem gives_iff {v : Json} :
    d.Gives s v ↔ ∃ o, d.entry? s = .ok o ∧ v = o.getD (d.settings.draft s) := by
  unfold entry?
  constructor
  · rintro (switch | ⟨number, text_eq⟩ | ⟨n, number, text_ne, text_eq⟩)
    · exact ⟨some (.bool (d.checked s)), by simp [switch], rfl⟩
    · exact ⟨none, by simp [number, text_eq], rfl⟩
    · exact ⟨some (.integer n), by simp [number, text_eq], rfl⟩
  · rintro ⟨o, ho, rfl⟩
    split at ho
    · rename_i switch
      cases ho
      exact .checked switch
    · rename_i number
      have number := Bool.eq_false_iff.2 number
      split at ho
      · rename_i text_eq
        cases ho
        exact .blank number text_eq
      · rename_i text_ne
        split at ho
        · rename_i n text_eq
          cases ho
          exact .number n number text_ne text_eq
        · cases ho

private theorem enterInto_of_entry_eq {o : Option Json} (h : d.entry? s = .ok o) (draft : Draft) :
    d.enterInto draft s = .ok fun t => if t = s then o.getD (draft t) else draft t := by
  unfold enterInto
  rw [h]
  cases o with
  | some v => rfl
  | none => exact congrArg Except.ok (funext fun t => (ite_self _).symm)

private theorem enterInto_eq_ok_iff {draft draft' : Draft} :
    d.enterInto draft s = .ok draft' ↔
      ∃ o, d.entry? s = .ok o ∧ draft' = fun t => if t = s then o.getD (draft t) else draft t := by
  constructor
  · intro h
    cases hentry : d.entry? s with
    | error r =>
      unfold enterInto at h
      rw [hentry] at h
      cases h
    | ok o =>
      rw [enterInto_of_entry_eq hentry] at h
      cases h
      exact ⟨o, rfl, rfl⟩
  · rintro ⟨o, ho, rfl⟩
    exact enterInto_of_entry_eq ho draft

/-- What is entered for some settings goes into the draft, and the rest of it stays. -/
private theorem foldlM_enterInto_iff {ss : List Setting} (nodup : ss.Nodup) {draft draft' : Draft} :
    ss.foldlM d.enterInto draft = .ok draft' ↔
      (∀ s ∈ ss, ∃ o, d.entry? s = .ok o ∧ draft' s = o.getD (draft s)) ∧ ∀ s ∉ ss, draft' s = draft s := by
  induction ss generalizing draft with
  | nil =>
    constructor
    · intro h
      cases h
      exact ⟨nofun, fun s _ => rfl⟩
    · rintro ⟨-, hout⟩
      exact congrArg Except.ok (funext fun s => (hout s List.not_mem_nil).symm)
  | cons s ss ih =>
    obtain ⟨hs, nodup⟩ := List.nodup_cons.1 nodup
    -- no later step of the fold enters the first setting again
    have hne : ∀ t ∈ ss, t ≠ s := by
      rintro t ht rfl
      exact hs ht
    have hbind : (s :: ss).foldlM d.enterInto draft = .ok draft' ↔
        ∃ next, d.enterInto draft s = .ok next ∧ ss.foldlM d.enterInto next = .ok draft' := by
      rw [List.foldlM_cons, bind_eq_ok_iff]
    rw [hbind]
    constructor
    · rintro ⟨next, hnext, hrest⟩
      obtain ⟨o, ho, rfl⟩ := enterInto_eq_ok_iff.1 hnext
      obtain ⟨hin, hout⟩ := (ih nodup).1 hrest
      refine ⟨fun t ht => ?_, fun t ht => ?_⟩
      · rcases List.mem_cons.1 ht with rfl | ht
        · exact ⟨o, ho, (hout t hs).trans (if_pos rfl)⟩
        · obtain ⟨o', ho', hvalue⟩ := hin t ht
          exact ⟨o', ho', by rwa [if_neg (hne t ht)] at hvalue⟩
      · obtain ⟨hts, ht⟩ := not_or.1 (mt List.mem_cons.2 ht)
        exact (hout t ht).trans (if_neg hts)
    · rintro ⟨hin, hout⟩
      obtain ⟨o, ho, hvalue⟩ := hin s List.mem_cons_self
      refine ⟨_, enterInto_eq_ok_iff.2 ⟨o, ho, rfl⟩, (ih nodup).2 ⟨fun t ht => ?_, fun t ht => ?_⟩⟩
      · rw [if_neg (hne t ht)]
        exact hin t (List.mem_cons_of_mem s ht)
      · by_cases hts : t = s
        · subst hts
          rw [if_pos rfl, hvalue]
        · rw [if_neg hts]
          exact hout t (mt List.mem_cons.1 (not_or.2 ⟨hts, ht⟩))

/-- The dialog is accepted with the settings that have the values it gives. -/
theorem accept_eq_ok_iff [Host] {c : Settings} : d.accept = .ok c ↔ ∀ s, d.Gives s (c.draft s) := by
  have hbind : d.accept = .ok c ↔
      ∃ draft : Draft, Setting.all.foldlM d.enterInto d.settings.draft = .ok draft ∧ draft.check = .ok c := by
    simp only [accept, bind_eq_ok_iff, mapError_eq_ok_iff]
  rw [hbind]
  constructor
  · rintro ⟨draft, hfold, hcheck⟩ s
    obtain ⟨o, ho, hvalue⟩ := ((foldlM_enterInto_iff (by decide)).1 hfold).1 s s.mem_all
    have hgives : d.Gives s (draft s) := gives_iff.2 ⟨o, ho, hvalue⟩
    rwa [← Draft.check_eq_ok_iff.1 hcheck s, hgives.kept_eq]
  · intro h
    refine ⟨c.draft, (foldlM_enterInto_iff (by decide)).2 ⟨fun s _ => gives_iff.1 (h s), fun s hs => ?_⟩, c.check_draft⟩
    exact absurd s.mem_all hs

theorem exists_accept_iff [Host] : (∃ c, d.accept = .ok c) ↔ ¬d.Refuses := by
  constructor
  · rintro ⟨c, hc⟩ ⟨s, hs⟩
    exact hs _ (accept_eq_ok_iff.1 hc s) (Draft.exists_check_iff.1 ⟨c, c.check_draft⟩ s)
  · intro h
    have hvalue : ∀ s, ∃ v, d.Gives s v ∧ s.Accepts v := by
      intro s
      by_contra hnone
      exact h ⟨s, fun v hgives haccepts => hnone ⟨v, hgives, haccepts⟩⟩
    choose draft hgives haccepts using hvalue
    obtain ⟨c, hc⟩ := Draft.exists_check_iff.2 haccepts
    refine ⟨c, accept_eq_ok_iff.2 fun s => ?_⟩
    rw [← Draft.check_eq_ok_iff.1 hc s, (hgives s).kept_eq]
    exact hgives s

private theorem settings_enter (e : FieldInput) : (d.enter s e).settings = d.settings := by
  cases e <;> rfl

/-- The dialog after what is entered in its fields. -/
def filled (d : Dialog) (play : DialogPlay) : Dialog :=
  play.entries.foldl (fun g e => g.enter e.1 e.2) d

theorem settings_filled (d : Dialog) (play : DialogPlay) : (d.filled play).settings = d.settings := by
  suffices h : ∀ (entries : List (Setting × FieldInput)) (d : Dialog),
      (entries.foldl (fun g e => g.enter e.1 e.2) d).settings = d.settings from h play.entries d
  intro entries
  induction entries with
  | nil => exact fun d => rfl
  | cons e entries ih => exact fun d => (ih _).trans (settings_enter e.2)

/-- What is given for the decimal places can be told about. -/
private theorem Gives.reportable [Host] {v : Json} (h : d.Gives .fix v) : v.Reportable := by
  cases h with
  | checked switch => cases switch
  | blank => exact d.settings.reportable_fix
  | number n number text_ne text_eq => exact .inr (.integer _ n (fewDigits_of_readInteger text_eq))

/-- No entry is refused for the range of its setting before all of them are checked. -/
private theorem foldlM_enterInto_ne {ss : List Setting} {f : SettingFault} (draft : Draft) :
    ss.foldlM d.enterInto draft ≠ .error (.setting f) := by
  induction ss generalizing draft with
  | nil => exact nofun
  | cons s ss ih =>
    rw [List.foldlM_cons]
    cases henter : d.enterInto draft s with
    | ok next => exact ih next
    | error r =>
      rintro ⟨⟩
      unfold enterInto entry? at henter
      split at henter
      · cases henter
      · split at henter
        · cases henter
        · split at henter <;> cases henter

/-- A setting that is refused is always reported. -/
theorem kind_of_accept_error [Host] {f : SettingFault} (h : d.accept = .error (.setting f)) :
    f.kind = .configuration := by
  unfold accept at h
  cases hfold : Setting.all.foldlM d.enterInto d.settings.draft with
  | error r =>
    rw [hfold] at h
    cases h
    exact absurd hfold (foldlM_enterInto_ne _)
  | ok draft =>
    obtain ⟨o, ho, hvalue⟩ := ((foldlM_enterInto_iff (by decide)).1 hfold).1 .fix (Setting.mem_all .fix)
    have hgives : d.Gives .fix (draft .fix) := gives_iff.2 ⟨o, ho, hvalue⟩
    rw [hfold] at h
    change draft.check.mapError Refusal.setting = .error (.setting f) at h
    cases hcheck : draft.check with
    | ok c =>
      rw [hcheck] at h
      cases h
    | error g =>
      rw [hcheck] at h
      cases h
      exact Draft.reports_iff.2 hgives.reportable _ hcheck

/-- Numbers with few decimal places stay numbers with few decimal places. -/
theorem fewDigits_of_accept [Host] {c : Settings} (few : FewDigits d.settings.fix) (h : d.accept = .ok c) :
    FewDigits c.fix := by
  have hgives := accept_eq_ok_iff.1 h .fix
  generalize hv : c.draft .fix = v at hgives
  cases hgives with
  | checked switch => cases switch
  | blank number text_eq =>
    have hfix : c.fix = d.settings.fix := Int.ofNat.inj (Json.integer.inj hv)
    rwa [hfix]
  | number n number text_ne text_eq =>
    have hn : (c.fix : Int) = n := Json.integer.inj hv
    have hfew := fewDigits_of_readInteger text_eq
    rwa [← hn, Int.natAbs_natCast] at hfew

end Dialog

end DeskCalc

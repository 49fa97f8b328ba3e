import ArithLexer.Config.Text
import ArithLexer.Proofs.Statements
import Mathlib.Algebra.Group.Nat.Defs

/-!
# Settings that are written and read

A setting is written on a line of its own. A text of such lines is read back as
what they say, whatever their order and whichever way they end
(`ofText_of_lines`), so that only what is allowed decides between settings and
an error.
-/

namespace ArithLexer

open Toml

/-- One of the settings, with its value. -/
inductive Setting where
  | policy (policy : Policy)
  | capacity (n : Nat)
  deriving DecidableEq, Repr

namespace Setting

/-- The line that a setting is written on. -/
def line : Setting → String
  | policy p => ConfigError.unknownCharsKey ++ " = \"" ++ p.name ++ "\""
  | capacity n => ConfigError.initialCapacityKey ++ " = " ++ toString n

/-- The entry of a document that the line stands for. -/
def entry : Setting → String × Value
  | policy p => (ConfigError.unknownCharsKey, .string p.name)
  | capacity n => (ConfigError.initialCapacityKey, .integer n)

/-- Whether a document can hold the value. -/
def Fits : Setting → Prop
  | policy _ => True
  | capacity n => n < 2 ^ 63

/-- The settings with this one set. -/
def set (c : Config) : Setting → Config
  | policy p => { c with unknownChars := p }
  | capacity n => { c with initialCapacity := n }

/-- The line of a setting is read as its entry. -/
theorem reads {s : Setting} (h : s.Fits) :
    Reads s.line.toList (.pair [s.entry.1] s.entry.2) := by
  cases s with
  | policy p =>
    have hkey : Bare ConfigError.unknownCharsKey.toList :=
      ⟨by decide, List.all_eq_true.mp (by decide)⟩
    have hline : (policy p).line.toList = ConfigError.unknownCharsKey.toList ++
        ' ' :: '=' :: ' ' :: '\x22' :: (p.name.toList ++ ['\x22']) := by
      simp [line]
    have hword : ∀ c ∈ p.name.toList, isBasic c = true :=
      List.all_eq_true.mp (by cases p <;> decide)
    have hread := reads_word hkey hword (by cases p <;> decide)
    rw [String.ofList_toList, String.ofList_toList] at hread
    rw [hline]
    exact hread
  | capacity n =>
    have hkey : Bare ConfigError.initialCapacityKey.toList :=
      ⟨by decide, List.all_eq_true.mp (by decide)⟩
    have hline : (capacity n).line.toList = ConfigError.initialCapacityKey.toList ++
        ' ' :: '=' :: ' ' :: (toString n).toList := by
      simp [line]
    have hread := reads_number hkey h
    rw [String.ofList_toList] at hread
    rw [hline]
    exact hread

end Setting

namespace Config

variable {settings : List Setting} {text : String} {c : Config}

theorem apply_entry (c : Config) (s : Setting) : c.apply s.entry = .ok (s.set c) := by
  cases s with
  | policy p =>
    have hpolicy : policyOf (.string p.name) = .ok p := by
      simp [policyOf, policyNamed]
    have hkey : (Setting.policy p).entry.1 = ConfigError.unknownCharsKey := rfl
    rw [apply, if_pos hkey]
    simp only [Setting.entry, hpolicy]
    rfl
  | capacity n =>
    have hcapacity : capacityOf (.integer n) = .ok n := by
      simp [capacityOf]
    have hother : ConfigError.initialCapacityKey ≠ ConfigError.unknownCharsKey := by decide
    have hkey : (Setting.capacity n).entry.1 = ConfigError.initialCapacityKey := rfl
    rw [apply, hkey, if_neg hother, if_pos rfl]
    simp only [Setting.entry, hcapacity]
    rfl

theorem ofEntries_settings (settings : List Setting) :
    ofEntries (settings.map Setting.entry) = .ok (settings.foldl Setting.set default) := by
  rw [ofEntries]
  generalize default = c
  induction settings generalizing c with
  | nil => rfl
  | cons s settings ih =>
    rw [List.map_cons, List.foldlM_cons, apply_entry]
    exact ih (s.set c)

/-- Lines of settings are read as what they say, if no setting is given twice. -/
theorem ofText_of_lines (hlines : Lines (settings.map fun s => s.line.toList) text.toList)
    (hfits : ∀ s ∈ settings, s.Fits)
    (hkeys : (settings.map fun s => s.entry.1).Nodup) :
    ofText text = do
      let c := settings.foldl Setting.set default
      c.validate
      return c := by
  have hreads : List.Forall₂ (fun line pair => Reads line (.pair [pair.1] pair.2))
      (settings.map fun s => s.line.toList) (settings.map Setting.entry) := by
    rw [List.forall₂_map_left_iff, List.forall₂_map_right_iff, List.forall₂_same]
    exact fun s hs => Setting.reads (hfits s hs)
  have hparse := parse_lines hlines hreads (by simpa [Function.comp_def] using hkeys)
  simp only [ofText, hparse, ofEntries_settings]
  rfl

/-- The settings that a text has to give for a configuration: each on a line, in either order,
and none that is the default need be given. -/
inductive GivenBy (c : Config) : List Setting → Prop
  | both : GivenBy c [.policy c.unknownChars, .capacity c.initialCapacity]
  | turned : GivenBy c [.capacity c.initialCapacity, .policy c.unknownChars]
  | policy_only : c.initialCapacity = default.initialCapacity →
      GivenBy c [.policy c.unknownChars]
  | capacity_only : c.unknownChars = default.unknownChars →
      GivenBy c [.capacity c.initialCapacity]
  | nothing : c = default → GivenBy c []

theorem GivenBy.keys_nodup (h : c.GivenBy settings) :
    (settings.map fun s => s.entry.1).Nodup := by
  cases h <;> simp [Setting.entry] <;> decide

theorem GivenBy.foldl_eq (h : c.GivenBy settings) :
    settings.foldl Setting.set default = c := by
  cases h with
  | both => rfl
  | turned => rfl
  | policy_only hc => simp [Setting.set, ← hc]
  | capacity_only hc => simp [Setting.set, ← hc]
  | nothing hc => exact hc.symm

theorem GivenBy.fits (h : c.GivenBy settings) (hn : c.initialCapacity < 2 ^ 63) :
    ∀ s ∈ settings, s.Fits := by
  have hpolicy : (Setting.policy c.unknownChars).Fits := trivial
  have hcapacity : (Setting.capacity c.initialCapacity).Fits := hn
  cases h <;> simp [hpolicy, hcapacity]

/-- A text of the settings is read as the configuration, if that is valid. -/
theorem GivenBy.ofText_eq (h : c.GivenBy settings)
    (hlines : Lines (settings.map fun s => s.line.toList) text.toList)
    (hn : c.initialCapacity < 2 ^ 63) : ofText text = c.validate.map fun _ => c := by
  rw [ofText_of_lines hlines (h.fits hn) h.keys_nodup]
  simp only [h.foldl_eq]
  cases c.validate <;> rfl

theorem validate_of_le (h : c.initialCapacity ≤ 2 ^ 24) : c.validate = .ok () :=
  (validate_eq_ok_iff c).mpr h

theorem validate_of_lt (h : 2 ^ 24 < c.initialCapacity) :
    c.validate = .error (.capacityTooLarge c.initialCapacity) :=
  if_neg (Nat.not_le.mpr h)

/-- Settings that are read were validated. -/
theorem validate_of_ofText (h : ofText text = .ok c) : c.validate = .ok () := by
  rw [ofText] at h
  cases hparse : parse text with
  | none =>
    rw [hparse] at h
    cases h
  | some entries =>
    rw [hparse] at h
    obtain ⟨read, -, hvalidate⟩ := bind_eq_ok.mp h
    obtain ⟨⟨⟩, hok, hc⟩ := bind_eq_ok.mp hvalidate
    cases hc
    exact hok

/-- Settings are written as two lines, as long as a document can hold their numbers. -/
theorem exists_toText? (hn : c.initialCapacity < 2 ^ 63) : ∃ text, c.toText? = some text ∧
    Lines ([.policy c.unknownChars, .capacity c.initialCapacity].map
      fun s : Setting => s.line.toList) text.toList := by
  have hrange : inRange c.initialCapacity = true := by
    apply decide_eq_true
    omega
  refine ⟨c.policyLine ++ c.capacityLine, if_pos hrange, ?_⟩
  have htext : (c.policyLine ++ c.capacityLine).toList =
      (Setting.policy c.unknownChars).line.toList ++ '\n' ::
        ((Setting.capacity c.initialCapacity).line.toList ++ ['\n']) := by
    change ((ConfigError.unknownCharsKey ++ " = \"" ++ c.unknownChars.name ++ "\"\n") ++
      (ConfigError.initialCapacityKey ++ " = " ++ toString c.initialCapacity ++ "\n")).toList = _
    simp [Setting.line]
  rw [htext]
  exact .cons (.feed _) (.cons (.feed _) .nil)

theorem capacityReason_eq (n : Nat) :
    ConfigError.capacityReason n = "is " ++ toString n ++ ", the maximum is 16777216" := by
  have hmaximum : ", the maximum is " ++ toString maxInitialCapacity =
      ", the maximum is 16777216" := by decide
  rw [← hmaximum, ← String.append_assoc]
  rfl

theorem message?_capacityTooLarge (n : Nat) :
    (ConfigError.capacityTooLarge n).message? =
      some ("invalid lexer config: `initial_capacity` " ++ ConfigError.capacityReason n) := by
  have hfront : "invalid lexer config: `" ++ ConfigError.initialCapacityKey ++ "` " =
      "invalid lexer config: `initial_capacity` " := by decide
  rw [← hfront]
  rfl

/-- Settings are restored from their text, in whichever order they are given and with defaults
left out, as long as their capacity is allowed; if it is not, the error names the setting, the
number and the maximum. No text leads to settings that are not allowed. -/
theorem text_restores_settings :
    (∀ (c : Config) (settings : List Setting) (text : String), c.GivenBy settings →
      Lines (settings.map fun s => s.line.toList) text.toList →
      (c.initialCapacity ≤ 2 ^ 24 → ofText text = .ok c) ∧
      (2 ^ 24 < c.initialCapacity → c.initialCapacity < 2 ^ 63 →
        ofText text = .error (.capacityTooLarge c.initialCapacity))) ∧
    (∀ n : Nat, ConfigError.capacityReason n = "is " ++ toString n ++ ", the maximum is 16777216" ∧
      (ConfigError.capacityTooLarge n).message? =
        some ("invalid lexer config: `initial_capacity` " ++ ConfigError.capacityReason n)) ∧
    (∀ c : Config, c.initialCapacity ≤ 2 ^ 24 →
      ∃ text, c.toText? = some text ∧ ofText text = .ok c) ∧
    ∀ (text : String) (c : Config), ofText text = .ok c →
      c.initialCapacity ≤ 2 ^ 24 ∧ c.validate = .ok () := by
  have hrestored : ∀ {c : Config} {settings : List Setting} {text : String},
      c.GivenBy settings → Lines (settings.map fun s => s.line.toList) text.toList →
      c.initialCapacity ≤ 2 ^ 24 → ofText text = .ok c := by
    intro c settings text hgiven hlines hle
    rw [hgiven.ofText_eq hlines (by omega), validate_of_le hle]
    rfl
  refine ⟨fun c settings text hgiven hlines => ⟨hrestored hgiven hlines, ?_⟩, ?_, ?_, ?_⟩
  · intro hlt hn
    rw [hgiven.ofText_eq hlines hn, validate_of_lt hlt]
    rfl
  · exact fun n => ⟨capacityReason_eq n, message?_capacityTooLarge n⟩
  · intro c hle
    obtain ⟨text, htext, hlines⟩ := exists_toText? (c := c) (by omega)
    exact ⟨text, htext, hrestored .both hlines hle⟩
  · intro text c hok
    have hvalid := validate_of_ofText hok
    exact ⟨(validate_eq_ok_iff c).mp hvalid, hvalid⟩

/-- Two lines in the other order, of which the last one does not end, and a number that is too
large by one behind a policy that is left out. -/
theorem text_restores_settings_turned :
    ofText "initial_capacity = 64\r\nunknown_chars = \"report\"" = .ok ⟨.report, 64⟩ ∧
      ofText "initial_capacity = 16777217\n" = .error (.capacityTooLarge 16777217) ∧
      ∃ text, toText? ⟨.reject, 16777216⟩ = some text ∧ ofText text = .ok ⟨.reject, 16777216⟩ := by
  obtain ⟨hgiven, -, hwritten, -⟩ := text_restores_settings
  refine ⟨?_, ?_, hwritten _ (by decide)⟩
  · have hlines : Lines [(Setting.capacity 64).line.toList, (Setting.policy .report).line.toList]
        "initial_capacity = 64\r\nunknown_chars = \"report\"".toList :=
      .cons (.both _) (.cons .text .nil)
    exact (hgiven ⟨.report, 64⟩ _ _ .turned hlines).1 (by decide)
  · have hlines : Lines [(Setting.capacity 16777217).line.toList]
        "initial_capacity = 16777217\n".toList := .cons (.feed _) .nil
    exact (hgiven ⟨.skip, 16777217⟩ _ _ (.capacity_only rfl) hlines).2 (by decide) (by decide)

end Config
end ArithLexer

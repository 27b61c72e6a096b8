import RegionClient.Proofs.Capabilities
import RegionClient.Proofs.Json.Record
import RegionClient.Resource.Args
import RegionClient.Settings.Controller

/-!
# What is written is read again

The types that are kept as JSON: the arguments of operations, versions, sets of capabilities and
configurations. Main statement: each value is read again from its text as it was, except that a
configuration, whose text is the same whatever its key is, comes back without the key
(`parse_written`).
-/

namespace RegionClient

open Text Json

/-- A filter of devices is kept as it is. -/
theorem DeviceFilter.keeps : Record.Keeps DeviceFilter id where
  shape := ⟨by decide, by decide⟩
  holds f := ⟨rfl, by simp [Shape.entries, Record.shape, Record.toData]⟩
  ofData?_kept f := rfl

/-- A new device is kept as it is. -/
theorem NewDevice.keeps : Record.Keeps NewDevice id where
  shape := ⟨by decide, by decide⟩
  holds d := ⟨rfl, by simp [Shape.entries, Record.shape, Record.toData]⟩
  ofData?_kept d := rfl

/-- A filter of machines is kept as it is. -/
theorem MachineFilter.keeps : Record.Keeps MachineFilter id where
  shape := ⟨by decide, by decide⟩
  holds f := ⟨rfl, by simp [Shape.entries, Record.shape, Record.toData]⟩
  ofData?_kept f := rfl

/-- Constraints on machines are kept as they are. -/
theorem MachineConstraints.keeps : Record.Keeps MachineConstraints id where
  shape := ⟨by decide, by decide⟩
  holds c := ⟨rfl, by simp [Shape.entries, Record.shape, Record.toData]⟩
  ofData?_kept c := by
    have hkept : Record.ofData? ((Record.shape MachineConstraints).kept (Record.toData c)) =
        some { c with
          minCpuCount := .ofNat c.minCpuCount.toNat
          minMemory := .ofNat c.minMemory.toNat } := rfl
    rw [hkept, UInt32.ofNat_toNat, UInt32.ofNat_toNat]
    rfl

/-- A release of machines is kept as it is. -/
theorem MachineRelease.keeps : Record.Keeps MachineRelease id where
  shape := ⟨by decide, by decide⟩
  holds r := ⟨rfl, by simp [Shape.entries, Record.shape, Record.toData]⟩
  ofData?_kept r := rfl

/-- A version is kept as it is. -/
theorem Version.keeps : Record.Keeps Version id where
  shape := ⟨by decide, by decide⟩
  holds v := ⟨rfl, by simp [Shape.entries, Record.shape, Record.toData]⟩
  ofData?_kept v := by
    have hkept : Record.ofData? ((Record.shape Version).kept (Record.toData v)) =
        some (⟨.ofNat v.major.toNat, .ofNat v.minor.toNat, .ofNat v.patch.toNat⟩ : Version) := rfl
    rw [hkept, UInt32.ofNat_toNat, UInt32.ofNat_toNat, UInt32.ofNat_toNat]
    rfl

/-- A configuration is kept without its key. -/
theorem ControllerConfig.keeps :
    Record.Keeps ControllerConfig fun c ↦ { c with apiKey := none } where
  shape := ⟨by decide, by decide⟩
  holds c := ⟨rfl, by simp [Shape.entries, Record.shape, Record.toData]⟩
  ofData?_kept c := by
    have hkept : Record.ofData? ((Record.shape ControllerConfig).kept (Record.toData c)) =
        some { c with apiKey := none, requestTimeout := .ofNat c.requestTimeout.toNat } := rfl
    rw [hkept, UInt64.ofNat_toNat]

/-- The text of a configuration does not tell the key. -/
theorem ControllerConfig.toText_withKey (c : ControllerConfig) (apiKey : Option String) :
    Record.toText { c with apiKey } = Record.toText c := rfl

/-- A set of capabilities is read again from its text. -/
theorem Capabilities.parse_toText (c : Capabilities) :
    Capabilities.parse (Utf8.ofString c.toText) = .ok c := by
  have hsame : Capabilities.ofList c.toList = c :=
    Capabilities.eq_of_mem_iff fun name ↦ Capabilities.mem_ofList
  rw [Capabilities.parse, parseTexts_of_spells c.spells_toText]
  exact congrArg Except.ok hsame

/-- What is written is read again as it was; the key of a configuration is never written. -/
theorem parse_written :
    (∀ f : DeviceFilter, Record.parse (Utf8.ofString (Record.toText f)) = .ok f) ∧
    (∀ d : NewDevice, Record.parse (Utf8.ofString (Record.toText d)) = .ok d) ∧
    (∀ f : MachineFilter, Record.parse (Utf8.ofString (Record.toText f)) = .ok f) ∧
    (∀ c : MachineConstraints, Record.parse (Utf8.ofString (Record.toText c)) = .ok c) ∧
    (∀ r : MachineRelease, Record.parse (Utf8.ofString (Record.toText r)) = .ok r) ∧
    (∀ v : Version, Record.parse (Utf8.ofString (Record.toText v)) = .ok v) ∧
    (∀ c : Capabilities, Capabilities.parse (Utf8.ofString c.toText) = .ok c) ∧
    (∀ c : ControllerConfig, Record.parse (Utf8.ofString (Record.toText c)) =
      .ok { c with apiKey := none }) ∧
    ∀ (c : ControllerConfig) (apiKey : Option String),
      Record.toText { c with apiKey } = Record.toText c :=
  ⟨DeviceFilter.keeps.parse_toText, NewDevice.keeps.parse_toText, MachineFilter.keeps.parse_toText,
    MachineConstraints.keeps.parse_toText, MachineRelease.keeps.parse_toText,
    Version.keeps.parse_toText, Capabilities.parse_toText, ControllerConfig.keeps.parse_toText,
    ControllerConfig.toText_withKey⟩

end RegionClient

import RegionClient.Proofs.Resource.Arguments
import RegionClient.Session.Scripted

/-!
# Addresses of new devices

A device is created by its addresses, of which at least one is required. `RequiresAddress` is that
law for the creation of a device in a run. An empty text is no address, and is not sent, but it
counts when the list of addresses is looked at. Main statement: the law holds unless there are
texts in the list, and all of them are empty (`requiresAddress_iff`).
-/

namespace RegionClient.NewDevice

variable {σ : Type} (s : Session σ) (d : NewDevice) (run : Run σ)

/-- A device has an address if some text among its addresses is not empty. -/
def HasAddress : Prop := ∃ address ∈ d.macAddresses, address ≠ ""

/-- Every call that creates a device tells an address of it, and a device without addresses is
refused as a bad request, without a call. -/
structure RequiresAddress : Prop where
  told : ∀ sent, (s.createDevice d run).2.calls = run.calls ++ sent →
    ∀ call ∈ sent, call.2.params.getAll "mac_addresses" ≠ []
  refused : ¬ d.HasAddress →
    ∃ message, s.createDevice d run = (.error (.badRequest message none), run)

private theorem not_hasAddress_iff : ¬ d.HasAddress ↔ visible d.macAddresses = [] := by
  simp [HasAddress, visible]

private theorem getAll_macAddresses : d.params.getAll "mac_addresses" = visible d.macAddresses := by
  have hfield : ("mac_addresses", .texts d.macAddresses) ∈ (Arguments.newDevice d).fields := by
    simp [Arguments.fields]
  exact Arguments.getAll_params hfield

/-- The request that creates a device. -/
def creation : Request := { path := "devices/", op := some "create", params := d.params }

variable {d}

/-- A device with an empty list of addresses is refused. -/
theorem createDevice_of_nil (h : d.macAddresses = []) :
    s.createDevice d run =
      (.error (.badRequest "at least one MAC address must be specified" none), run) := by
  rw [Session.createDevice, if_pos (List.isEmpty_iff.mpr h)]
  rfl

/-- A device with a list of addresses that is not empty is asked for. -/
theorem createDevice_of_ne_nil (h : d.macAddresses ≠ []) :
    (s.createDevice d run).2 = s.afterCall .post d.creation run := by
  rw [Session.createDevice, if_neg (mt List.isEmpty_iff.mp h), Step.postAs_apply]
  rfl

private theorem calls_createDevice_of_ne_nil (h : d.macAddresses ≠ []) :
    (s.createDevice d run).2.calls = run.calls ++ [(.post, d.creation)] := by
  rw [createDevice_of_ne_nil s run h]
  exact s.calls_afterCall ..

private theorem RequiresAddress.hasAddress (hlaw : d.RequiresAddress s run)
    (h : d.macAddresses ≠ []) :
    d.HasAddress := by
  have htold := hlaw.told _ (calls_createDevice_of_ne_nil s run h) _ List.mem_cons_self
  apply Classical.not_not.mp
  intro hnone
  exact htold (d.getAll_macAddresses.trans (d.not_hasAddress_iff.mp hnone))

private theorem requiresAddress_of_nil (h : d.macAddresses = []) : d.RequiresAddress s run where
  told := by
    intro sent hsent call hcall
    rw [createDevice_of_nil s run h] at hsent
    rw [List.append_right_eq_self.mp hsent.symm] at hcall
    cases hcall
  refused := fun _ ↦ ⟨_, createDevice_of_nil s run h⟩

private theorem requiresAddress_of_hasAddress (h : d.HasAddress) : d.RequiresAddress s run where
  told := by
    have hlist : d.macAddresses ≠ [] := by
      obtain ⟨address, hmem, -⟩ := h
      exact List.ne_nil_of_mem hmem
    intro sent hsent call hcall
    rw [calls_createDevice_of_ne_nil s run hlist] at hsent
    rw [← List.append_cancel_left hsent] at hcall
    obtain rfl := List.mem_singleton.mp hcall
    show d.params.getAll "mac_addresses" ≠ []
    rw [getAll_macAddresses]
    exact mt d.not_hasAddress_iff.mpr (not_not_intro h)
  refused := fun hnone ↦ absurd h hnone

variable (d)

/-- An address is required of a new device, except that a list of empty texts passes for one. A
device is refused just for an empty list; otherwise one call asks for it, which tells the texts that
are not empty. -/
theorem requiresAddress_iff :
    (d.RequiresAddress s run ↔ d.macAddresses = [] ∨ d.HasAddress) ∧
    (d.macAddresses = [] → s.createDevice d run =
      (.error (.badRequest "at least one MAC address must be specified" none), run)) ∧
    (d.macAddresses ≠ [] → (s.createDevice d run).2.calls = run.calls ++ [(.post, d.creation)] ∧
      d.creation.params.getAll "mac_addresses" = d.macAddresses.filter (· ≠ "")) := by
  refine ⟨⟨fun hlaw ↦ ?_, ?_⟩, createDevice_of_nil s run,
    fun h ↦ ⟨calls_createDevice_of_ne_nil s run h, d.getAll_macAddresses⟩⟩
  · by_cases h : d.macAddresses = []
    · exact .inl h
    · exact .inr (hlaw.hasAddress s run h)
  · rintro (h | h)
    · exact requiresAddress_of_nil s run h
    · exact requiresAddress_of_hasAddress s run h

/-- An empty text passes for an address. -/
theorem not_requiresAddress_blank :
    ¬ RequiresAddress ⟨Script.channel, "http://maas.example.com/MAAS/", .twoDotOh, .empty⟩
      { macAddresses := [""] } { world := { answers := [.ok [123, 125]] } } := by
  intro hlaw
  have hsent := hlaw.told [(.post, { path := "devices/", op := some "create" })] (by decide +kernel)
  exact hsent _ List.mem_cons_self rfl

end RegionClient.NewDevice

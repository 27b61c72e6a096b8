import RegionClient.Json.Codec
import RegionClient.Request.Params

/-!
# Arguments of operations

What operations on devices and machines are asked with, and the parameters that the controller
knows it by.
-/

namespace RegionClient

/-- Which devices to list. Models `DevicesArgs`. -/
structure DeviceFilter where
  hostname : String := ""
  macAddresses : List String := []
  systemIds : List String := []
  domain : String := ""
  zone : String := ""
  agentName : String := ""
  deriving DecidableEq, Repr

namespace DeviceFilter

/-- The parameters of a filter. -/
def params (f : DeviceFilter) : Params :=
  Params.empty
    |>.addText "hostname" f.hostname
    |>.addTexts "mac_address" f.macAddresses
    |>.addTexts "id" f.systemIds
    |>.addText "domain" f.domain
    |>.addText "zone" f.zone
    |>.addText "agent_name" f.agentName

instance : Json.Record DeviceFilter where
  shape := ⟨"DevicesArgs", [
    { name := "hostname", kind := .text },
    { name := "mac_addresses", kind := .texts },
    { name := "system_ids", kind := .texts },
    { name := "domain", kind := .text },
    { name := "zone", kind := .text },
    { name := "agent_name", kind := .text }]⟩
  toData f := [.text f.hostname, .texts f.macAddresses, .texts f.systemIds, .text f.domain,
    .text f.zone, .text f.agentName]
  ofData?
    | [.text hostname, .texts macAddresses, .texts systemIds, .text domain, .text zone,
        .text agentName] =>
      some { hostname, macAddresses, systemIds, domain, zone, agentName }
    | _ => none

end DeviceFilter

/-- A device to create. Models `CreateDeviceArgs`. -/
structure NewDevice where
  hostname : String := ""
  macAddresses : List String := []
  domain : String := ""
  parent : String := ""
  deriving DecidableEq, Repr

namespace NewDevice

/-- The parameters of a new device. -/
def params (d : NewDevice) : Params :=
  Params.empty
    |>.addText "hostname" d.hostname
    |>.addText "domain" d.domain
    |>.addTexts "mac_addresses" d.macAddresses
    |>.addText "parent" d.parent

instance : Json.Record NewDevice where
  shape := ⟨"CreateDeviceArgs", [
    { name := "hostname", kind := .text },
    { name := "mac_addresses", kind := .texts },
    { name := "domain", kind := .text },
    { name := "parent", kind := .text }]⟩
  toData d := [.text d.hostname, .texts d.macAddresses, .text d.domain, .text d.parent]
  ofData?
    | [.text hostname, .texts macAddresses, .text domain, .text parent] =>
      some { hostname, macAddresses, domain, parent }
    | _ => none

end NewDevice

/-- Which machines to list. Models `MachinesArgs`. -/
structure MachineFilter where
  hostnames : List String := []
  macAddresses : List String := []
  systemIds : List String := []
  domain : String := ""
  zone : String := ""
  agentName : String := ""
  deriving DecidableEq, Repr

namespace MachineFilter

/-- The parameters of a filter. -/
def params (f : MachineFilter) : Params :=
  Params.empty
    |>.addTexts "hostname" f.hostnames
    |>.addTexts "mac_address" f.macAddresses
    |>.addTexts "id" f.systemIds
    |>.addText "domain" f.domain
    |>.addText "zone" f.zone
    |>.addText "agent_name" f.agentName

instance : Json.Record MachineFilter where
  shape := ⟨"MachinesArgs", [
    { name := "hostnames", kind := .texts },
    { name := "mac_addresses", kind := .texts },
    { name := "system_ids", kind := .texts },
    { name := "domain", kind := .text },
    { name := "zone", kind := .text },
    { name := "agent_name", kind := .text }]⟩
  toData f := [.texts f.hostnames, .texts f.macAddresses, .texts f.systemIds, .text f.domain,
    .text f.zone, .text f.agentName]
  ofData?
    | [.texts hostnames, .texts macAddresses, .texts systemIds, .text domain, .text zone,
        .text agentName] =>
      some { hostnames, macAddresses, systemIds, domain, zone, agentName }
    | _ => none

end MachineFilter

/-- What a machine must be like to be allocated. Models `AllocateMachineArgs`. -/
structure MachineConstraints where
  hostname : String := ""
  architecture : String := ""
  minCpuCount : UInt32 := 0
  minMemory : UInt32 := 0
  tags : List String := []
  notTags : List String := []
  networks : List String := []
  notNetworks : List String := []
  zone : String := ""
  notInZone : List String := []
  agentName : String := ""
  comment : String := ""
  dryRun : Bool := false
  deriving DecidableEq, Repr

namespace MachineConstraints

/-- The parameters of constraints. -/
def params (c : MachineConstraints) : Params :=
  Params.empty
    |>.addText "name" c.hostname
    |>.addText "arch" c.architecture
    |>.addCount "cpu_count" c.minCpuCount.toNat
    |>.addCount "mem" c.minMemory.toNat
    |>.addTexts "tags" c.tags
    |>.addTexts "not_tags" c.notTags
    |>.addTexts "networks" c.networks
    |>.addTexts "not_networks" c.notNetworks
    |>.addText "zone" c.zone
    |>.addTexts "not_in_zone" c.notInZone
    |>.addText "agent_name" c.agentName
    |>.addText "comment" c.comment
    |>.addFlag "dry_run" c.dryRun

instance : Json.Record MachineConstraints where
  shape := ⟨"AllocateMachineArgs", [
    { name := "hostname", kind := .text },
    { name := "architecture", kind := .text },
    { name := "min_cpu_count", kind := .natural 32 },
    { name := "min_memory", kind := .natural 32 },
    { name := "tags", kind := .texts },
    { name := "not_tags", kind := .texts },
    { name := "networks", kind := .texts },
    { name := "not_networks", kind := .texts },
    { name := "zone", kind := .text },
    { name := "not_in_zone", kind := .texts },
    { name := "agent_name", kind := .text },
    { name := "comment", kind := .text },
    { name := "dry_run", kind := .flag }]⟩
  toData c := [.text c.hostname, .text c.architecture, .natural c.minCpuCount.toNat,
    .natural c.minMemory.toNat, .texts c.tags, .texts c.notTags, .texts c.networks,
    .texts c.notNetworks, .text c.zone, .texts c.notInZone, .text c.agentName, .text c.comment,
    .flag c.dryRun]
  ofData?
    | [.text hostname, .text architecture, .natural minCpuCount, .natural minMemory, .texts tags,
        .texts notTags, .texts networks, .texts notNetworks, .text zone, .texts notInZone,
        .text agentName, .text comment, .flag dryRun] =>
      some ⟨hostname, architecture, .ofNat minCpuCount, .ofNat minMemory, tags, notTags, networks,
        notNetworks, zone, notInZone, agentName, comment, dryRun⟩
    | _ => none

end MachineConstraints

/-- Which machines to release, and why. Models `ReleaseMachinesArgs`. -/
structure MachineRelease where
  systemIds : List String := []
  comment : String := ""
  deriving DecidableEq, Repr

namespace MachineRelease

/-- The parameters of a release. -/
def params (r : MachineRelease) : Params :=
  Params.empty
    |>.addTexts "machines" r.systemIds
    |>.addText "comment" r.comment

instance : Json.Record MachineRelease where
  shape := ⟨"ReleaseMachinesArgs", [
    { name := "system_ids", kind := .texts },
    { name := "comment", kind := .text }]⟩
  toData r := [.texts r.systemIds, .text r.comment]
  ofData?
    | [.texts systemIds, .text comment] => some { systemIds, comment }
    | _ => none

end MachineRelease

end RegionClient

import RegionClient.Proofs.Http.Parameters
import RegionClient.Proofs.Resource.Contract

/-!
# What arguments come to on the way

The arguments by which operations on devices and machines are asked, as parameters and back. Each
field has a key of its own, by which the controller knows it, and `Arguments.Kind.read` reads the
fields by these keys. Main statement: what the first request tells is read as the arguments that
were given, but for empty texts in lists, and arguments of a kind are asked alike just if they are
the same but for these (`arguments_recovered`).
-/

namespace RegionClient

open Text Http

/-! ## Fields -/

/-- What a field of arguments says. -/
inductive Field where
  | text (value : String)
  | texts (values : List String)
  | count (n : UInt32)
  | flag (isSet : Bool)

/-- The texts that are not empty. -/
def visible (values : List String) : List String := values.filter (· ≠ "")

namespace Field

/-- The values that are sent for a field: no empty text, no zero, and no flag that is not set. -/
def sent : Field → List String
  | text value => if value = "" then [] else [value]
  | texts values => visible values
  | count n => if n = 0 then [] else [String.ofList (Numeral.decimal n.toNat)]
  | flag isSet => if isSet then ["true"] else []

/-- The parameters for a field under a key. -/
def pairs (key : String) (field : Field) : List (String × String) := field.sent.map (key, ·)

/-- The text that values tell, which is empty if there are none. -/
def readText (values : List String) : String := values.headD ""

/-- The number whose digits are told, which is zero if there are none. -/
def readCount (values : List String) : UInt32 :=
  .ofNat ((values.head?.bind fun digits ↦ Numeral.read? digits.toList).getD 0)

/-- Whether a flag is told. -/
def readFlag (values : List String) : Bool := values == ["true"]

private theorem readText_sent (value : String) : readText (text value).sent = value := by
  rw [sent]
  split
  · next h => exact h.symm
  · rfl

private theorem readCount_sent (n : UInt32) : readCount (count n).sent = n := by
  rw [sent]
  split
  · next h => exact h.symm
  · rw [readCount, List.head?_cons, Option.bind_some, String.toList_ofList, Numeral.read?_decimal]
    exact UInt32.ofNat_toNat

private theorem readFlag_sent (isSet : Bool) : readFlag (flag isSet).sent = isSet := by
  cases isSet <;> rfl

end Field

private theorem given_eq_pairs (key value : String) :
    given key value = (Field.text value).pairs key := by
  by_cases h : value = "" <;> simp [given, Field.pairs, Field.sent, h]

private theorem givenAll_eq_pairs (key : String) (values : List String) :
    givenAll key values = (Field.texts values).pairs key := by
  unfold givenAll Field.pairs Field.sent visible
  induction values with
  | nil => rfl
  | cons value values ih =>
    rw [List.flatMap_cons, ih, given]
    by_cases h : value = "" <;> simp [h]

private theorem counted_eq_pairs (key : String) (n : UInt32) :
    counted key n = (Field.count n).pairs key := by
  by_cases h : n = 0 <;> simp [counted, Field.pairs, Field.sent, h]

private theorem flagged_eq_pairs (key : String) (isSet : Bool) :
    flagged key isSet = (Field.flag isSet).pairs key := by
  cases isSet <;> rfl

private theorem givenAll_visible (key : String) (values : List String) :
    givenAll key (visible values) = givenAll key values := by
  have htwice : visible (visible values) = visible values := by simp [visible]
  rw [givenAll_eq_pairs, givenAll_eq_pairs, Field.pairs, Field.pairs, Field.sent, Field.sent,
    htwice]

/-! ## Fields under their keys -/

namespace Params

/-- The parameters for fields under their keys, in order. -/
def ofFields (fields : List (String × Field)) : Params :=
  ⟨fields.flatMap fun field ↦ field.2.pairs field.1⟩

private theorem key_mem_of_mem_ofFields {fields : List (String × Field)} {pair : String × String}
    (h : pair ∈ (ofFields fields).toList) : pair.1 ∈ fields.map Prod.fst := by
  obtain ⟨field, hfield, hpair⟩ := List.mem_flatMap.mp h
  obtain ⟨value, -, rfl⟩ := List.mem_map.mp hpair
  exact List.mem_map_of_mem hfield

private theorem getAll_append (list list' : List (String × String)) (key : String) :
    getAll ⟨list ++ list'⟩ key = getAll ⟨list⟩ key ++ getAll ⟨list'⟩ key :=
  List.filterMap_append

private theorem getAll_pairs (field : Field) (key key' : String) :
    getAll ⟨field.pairs key⟩ key' = if key = key' then field.sent else [] := by
  by_cases h : key = key' <;> simp [getAll, Field.pairs, h]

private theorem getAll_ofFields_of_notMem {fields : List (String × Field)} {key : String}
    (h : key ∉ fields.map Prod.fst) : (ofFields fields).getAll key = [] := by
  induction fields with
  | nil => rfl
  | cons field fields ih =>
    rw [List.map_cons, List.mem_cons, not_or] at h
    rw [ofFields, List.flatMap_cons, getAll_append, getAll_pairs, if_neg (Ne.symm h.1),
      List.nil_append]
    exact ih h.2

private theorem getAll_ofFields {fields : List (String × Field)}
    (hkeys : (fields.map Prod.fst).Nodup) {key : String} {field : Field}
    (h : (key, field) ∈ fields) :
    (ofFields fields).getAll key = field.sent := by
  induction fields with
  | nil => cases h
  | cons first fields ih =>
    obtain ⟨hfirst, hrest⟩ := List.nodup_cons.mp hkeys
    rw [ofFields, List.flatMap_cons, getAll_append, getAll_pairs]
    rcases List.mem_cons.mp h with rfl | h
    · rw [if_pos rfl]
      show field.sent ++ (ofFields fields).getAll key = field.sent
      rw [getAll_ofFields_of_notMem hfirst, List.append_nil]
    · have hne : first.1 ≠ key := by
        intro hsame
        exact hfirst (List.mem_map.mpr ⟨(key, field), h, hsame.symm⟩)
      rw [if_neg hne, List.nil_append]
      exact ih hrest h

end Params

/-! ## Arguments -/

/-- The arguments by which operations on devices and machines are asked. -/
inductive Arguments where
  | devices (filter : DeviceFilter)
  | newDevice (device : NewDevice)
  | machines (filter : MachineFilter)
  | constraints (constraints : MachineConstraints)
  | release (release : MachineRelease)

namespace Arguments

/-- The step that is asked by arguments. -/
def step : Arguments → Step
  | devices f => .devices f
  | newDevice d => .createDevice d
  | machines f => .machines f
  | constraints c => .allocateMachine c
  | release r => .releaseMachines r

/-- The parameters of arguments. -/
def params : Arguments → Params
  | devices f => f.params
  | newDevice d => d.params
  | machines f => f.params
  | constraints c => c.params
  | release r => r.params

/-- The fields of arguments, under the keys that the controller knows them by. -/
def fields : Arguments → List (String × Field)
  | devices f => [
    ("hostname", .text f.hostname),
    ("mac_address", .texts f.macAddresses),
    ("id", .texts f.systemIds),
    ("domain", .text f.domain),
    ("zone", .text f.zone),
    ("agent_name", .text f.agentName)]
  | newDevice d => [
    ("hostname", .text d.hostname),
    ("domain", .text d.domain),
    ("mac_addresses", .texts d.macAddresses),
    ("parent", .text d.parent)]
  | machines f => [
    ("hostname", .texts f.hostnames),
    ("mac_address", .texts f.macAddresses),
    ("id", .texts f.systemIds),
    ("domain", .text f.domain),
    ("zone", .text f.zone),
    ("agent_name", .text f.agentName)]
  | constraints c => [
    ("name", .text c.hostname),
    ("arch", .text c.architecture),
    ("cpu_count", .count c.minCpuCount),
    ("mem", .count c.minMemory),
    ("tags", .texts c.tags),
    ("not_tags", .texts c.notTags),
    ("networks", .texts c.networks),
    ("not_networks", .texts c.notNetworks),
    ("zone", .text c.zone),
    ("not_in_zone", .texts c.notInZone),
    ("agent_name", .text c.agentName),
    ("comment", .text c.comment),
    ("dry_run", .flag c.dryRun)]
  | release r => [
    ("machines", .texts r.systemIds),
    ("comment", .text r.comment)]

/-- Arguments without the empty texts in their lists. -/
def trimmed : Arguments → Arguments
  | devices f => .devices
    { f with macAddresses := visible f.macAddresses, systemIds := visible f.systemIds }
  | newDevice d => .newDevice { d with macAddresses := visible d.macAddresses }
  | machines f => .machines
    { f with
      hostnames := visible f.hostnames
      macAddresses := visible f.macAddresses
      systemIds := visible f.systemIds }
  | constraints c => .constraints
    { c with
      tags := visible c.tags
      notTags := visible c.notTags
      networks := visible c.networks
      notNetworks := visible c.notNetworks
      notInZone := visible c.notInZone }
  | release r => .release { r with systemIds := visible r.systemIds }

/-- What arguments are about, which the controller knows by the operation. -/
inductive Kind where
  | devices
  | newDevice
  | machines
  | constraints
  | release

/-- The kind of arguments. -/
def kind : Arguments → Kind
  | devices _ => .devices
  | newDevice _ => .newDevice
  | machines _ => .machines
  | constraints _ => .constraints
  | release _ => .release

namespace Kind

/-- The method of the operation. -/
def method : Kind → Method
  | devices | machines => .get
  | newDevice | constraints | release => .post

/-- The name of the operation. -/
def op : Kind → Option String
  | devices | machines => none
  | newDevice => some "create"
  | constraints => some "allocate"
  | release => some "release"

/-- The arguments of a kind that parameters tell, each field by its key. -/
def read (kind : Kind) (p : Params) : Arguments :=
  let text key := Field.readText (p.getAll key)
  let count key := Field.readCount (p.getAll key)
  let flag key := Field.readFlag (p.getAll key)
  match kind with
  | devices => .devices
    { hostname := text "hostname"
      macAddresses := p.getAll "mac_address"
      systemIds := p.getAll "id"
      domain := text "domain"
      zone := text "zone"
      agentName := text "agent_name" }
  | newDevice => .newDevice
    { hostname := text "hostname"
      macAddresses := p.getAll "mac_addresses"
      domain := text "domain"
      parent := text "parent" }
  | machines => .machines
    { hostnames := p.getAll "hostname"
      macAddresses := p.getAll "mac_address"
      systemIds := p.getAll "id"
      domain := text "domain"
      zone := text "zone"
      agentName := text "agent_name" }
  | constraints => .constraints
    { hostname := text "name"
      architecture := text "arch"
      minCpuCount := count "cpu_count"
      minMemory := count "mem"
      tags := p.getAll "tags"
      notTags := p.getAll "not_tags"
      networks := p.getAll "networks"
      notNetworks := p.getAll "not_networks"
      zone := text "zone"
      notInZone := p.getAll "not_in_zone"
      agentName := text "agent_name"
      comment := text "comment"
      dryRun := flag "dry_run" }
  | release => .release
    { systemIds := p.getAll "machines"
      comment := text "comment" }

end Kind

/-! ## Reading back -/

/-- No two fields have the same key. -/
theorem nodup_keys (a : Arguments) : (a.fields.map Prod.fst).Nodup := by
  cases a <;> simp [fields]

/-- Arguments are asked by their fields. -/
theorem params_eq_ofFields (a : Arguments) : a.params = .ofFields a.fields := by
  cases a with
  | devices _ | newDevice _ | machines _ | constraints _ | release _ =>
    simp [params, DeviceFilter.params_eq, NewDevice.params_eq, MachineFilter.params_eq,
      MachineConstraints.params_eq, MachineRelease.params_eq, Params.ofFields, fields,
      given_eq_pairs, givenAll_eq_pairs, counted_eq_pairs, flagged_eq_pairs]

private theorem key_mem_of_mem_params (a : Arguments) :
    ∀ pair ∈ a.params.toList, pair.1 ∈ a.fields.map Prod.fst := by
  rw [a.params_eq_ofFields]
  exact fun _ ↦ Params.key_mem_of_mem_ofFields

/-- Just what is sent for a field stands under its key. -/
theorem getAll_params {a : Arguments} {key : String} {field : Field} (h : (key, field) ∈ a.fields) :
    a.params.getAll key = field.sent := by
  rw [a.params_eq_ofFields]
  exact Params.getAll_ofFields a.nodup_keys h

/-- Arguments are read as they were, but for empty texts in lists. -/
theorem read_params (a : Arguments) : a.kind.read a.params = a.trimmed := by
  -- No two fields share a key, so that each is read from what was sent for it alone.
  have hsent : a.fields.Forall fun field ↦ a.params.getAll field.1 = field.2.sent :=
    List.forall_iff_forall_mem.mpr fun _ ↦ getAll_params
  cases a with
  | devices _ | newDevice _ | machines _ | constraints _ | release _ =>
    simp only [fields, List.Forall] at hsent
    simp only [kind, Kind.read, hsent, Field.readText_sent, Field.readCount_sent,
      Field.readFlag_sent]
    rfl

/-- Empty texts in lists are not asked for. -/
theorem params_trimmed (a : Arguments) : a.trimmed.params = a.params := by
  cases a with
  | devices _ | newDevice _ | machines _ | constraints _ | release _ =>
    simp only [trimmed, params, DeviceFilter.params_eq, NewDevice.params_eq,
      MachineFilter.params_eq, MachineConstraints.params_eq, MachineRelease.params_eq,
      givenAll_visible]

/-- Arguments of a kind are asked alike just if they are the same but for empty texts in lists. -/
theorem params_eq_iff {a b : Arguments} (h : b.kind = a.kind) :
    a.params = b.params ↔ a.trimmed = b.trimmed := by
  constructor
  · intro hsame
    rw [← a.read_params, ← b.read_params, hsame, h]
  · intro hsame
    rw [← a.params_trimmed, ← b.params_trimmed, hsame]

/-! ## On the wire -/

private theorem of_plan {a : Arguments} {method : Method} {request : Request}
    (h : a.step.plan = .ok (method, request)) :
    method = a.kind.method ∧ request.op = a.kind.op ∧ request.params = a.params ∧
      request.file = none := by
  cases a with
  | newDevice d =>
    simp only [step, Step.plan] at h
    split at h
    · cases h
    · cases h
      exact ⟨rfl, rfl, rfl, rfl⟩
  | devices _ | machines _ | constraints _ | release _ =>
    cases h
    exact ⟨rfl, rfl, rfl, rfl⟩

end Arguments

private theorem Step.exists_begins {e : Endpoint} {s : Session Network}
    (hchannel : s.channel = e.exchange) {step : Step} {run : Run Network} {r : WireRequest}
    {answer : Answer} {rest : List Served}
    (h : (step.perform s run).2.world.history = run.world.history ++ ⟨r, answer⟩ :: rest) :
    ∃ method request, step.plan = .ok (method, request) ∧
      e.Begins method request run.world r := by
  cases hplan : step.plan with
  | error error =>
    rw [step.perform_of_refused s hplan] at h
    simp at h
  | ok call =>
    rw [step.perform_of_planned s hplan, s.world_afterCall, hchannel] at h
    exact ⟨call.1, call.2, rfl, answer, rest, h⟩

namespace Arguments

/-- Whatever arguments are given, the first request of their operation that reaches the server tells
parameters that are read as the arguments, but for empty texts in lists, and no others. So does the
text of the parameters. Under the key of each field stands just what is sent for it, and under no
other key anything. Arguments of a kind are asked alike just if they are the same but for empty
texts in lists. -/
theorem arguments_recovered {settings : ClientSettings} {baseUrl apiKey : String}
    {version : Version} {e : Endpoint}
    (hmake : Endpoint.make settings baseUrl apiKey version = .ok e) {s : Session Network}
    (hchannel : s.channel = e.exchange) (a : Arguments) :
    (∀ {run : Run Network} {r : WireRequest} {answer : Answer} {rest : List Served},
      (a.step.perform s run).2.world.history = run.world.history ++ ⟨r, answer⟩ :: rest →
      ∃ told : Params, r.TellsParams e.root { op := a.kind.op, params := told } a.kind.method ∧
        a.kind.read told = a.trimmed ∧
        ∀ pair ∈ told.toList, pair.1 ∈ a.fields.map Prod.fst) ∧
    a.kind.read (.decode a.params.encode) = a.trimmed ∧
    (∀ pair ∈ a.params.toList, pair.1 ∈ a.fields.map Prod.fst) ∧
    (∀ field ∈ a.fields, a.params.getAll field.1 = field.2.sent) ∧
    ∀ b : Arguments, b.kind = a.kind → (a.params = b.params ↔ a.trimmed = b.trimmed) := by
  refine ⟨fun hhistory ↦ ?_, ?_, a.key_mem_of_mem_params, fun _ ↦ getAll_params,
    fun b ↦ params_eq_iff⟩
  · obtain ⟨method, request, hplan, hbegins⟩ := Step.exists_begins hchannel hhistory
    obtain ⟨rfl, hop, hparams, hfile⟩ := of_plan hplan
    have hroot := apiRoot_eq_ok_iff.mp (Endpoint.make_eq_ok_iff.mp hmake).2.1
    have htells := tellsParams_of_compose hroot hfile hbegins.compose_eq
    refine ⟨a.params, ?_, a.read_params, a.key_mem_of_mem_params⟩
    rw [← hop, ← hparams]
    generalize a.kind.method = method at htells ⊢
    cases method <;> exact htells
  · rw [Params.decode_encode, a.read_params]

/-- Constraints arrive in the body of a POST: those that say something, and each under its key. -/
theorem arguments_recovered_constraints :
    let s : Session Network := ⟨Endpoint.region.exchange, "http://region/MAAS/", .twoDotOh, .empty⟩
    let a : Arguments := .constraints
      { hostname := "tags", minMemory := 2048, tags := ["a&b", "", "é"], notTags := ["a&b"] }
    let run : Run Network := { world := .region [] }
    ∃ r answer rest, Endpoint.make {} "http://region/MAAS/" "consumer:token:secret" .twoDotOh =
        .ok Endpoint.region ∧
      (a.step.perform s run).2.world.history = run.world.history ++ ⟨r, answer⟩ :: rest ∧
      Arguments.Kind.constraints.read (.decode (Utf8.toStringReplacing r.payload.bytes)) =
        .constraints
          { hostname := "tags", minMemory := 2048, tags := ["a&b", "é"], notTags := ["a&b"] } := by
  intro s a run
  obtain ⟨r, answer, rest, hfirst⟩ := Endpoint.exists_begins_region .post
    { path := "machines/", op := some "allocate", params := a.params } []
  have hplan : a.step.plan =
    .ok (.post, { path := "machines/", op := some "allocate", params := a.params }) := rfl
  have hbegins : (a.step.perform s run).2.world.history =
      run.world.history ++ ⟨r, answer⟩ :: rest := by
    rw [a.step.perform_of_planned s hplan]
    exact hfirst
  obtain ⟨hrecovered, -⟩ := arguments_recovered Endpoint.make_region (rfl : s.channel = _) a
  obtain ⟨told, ⟨-, -, hbody⟩, hread, -⟩ := hrecovered hbegins
  refine ⟨r, answer, rest, Endpoint.make_region, hbegins, ?_⟩
  rw [hbody]
  exact hread

end Arguments

end RegionClient

import RegionClient.Proofs.Capabilities
import RegionClient.Proofs.Session.Negotiation

/-!
# The capabilities of a session

From the bytes of a version document to the capabilities of a session. Main statement: they are
read from just the documents that list names in the last `capabilities` of an object, and are the
set of these names, however the document lists them (`readCapabilities_collects`).
-/

namespace RegionClient

open Json (Value)

/-- A body lists names: by the grammar of documents it is an object, and the last `capabilities` in
it is a list of these strings and of nothing else. -/
def BodyLists (body : Bytes) (names : List String) : Prop :=
  ∃ members, Json.SpellsMembers body members ∧
    Json.IsLast "capabilities" (.array (names.map .string)) members

private theorem lists_ok_iff {body : Bytes} {names : List String} :
    Lists (.ok body) names ↔ BodyLists body names := by
  constructor
  · rintro ⟨_, _, hbody, hparse, entries, rfl, hfound⟩
    obtain rfl := Except.ok.inj hbody
    obtain ⟨members, hmembers, rfl⟩ :=
      Json.spells_object_iff.mp (Json.parse_eq_ok_iff.mp hparse)
    exact ⟨members, hmembers, Json.lookupEntry_collect.mp hfound⟩
  · rintro ⟨members, hmembers, hlast⟩
    refine ⟨body, _, rfl, Json.parse_eq_ok_iff.mpr ?_, _, rfl, Json.lookupEntry_collect.mpr hlast⟩
    exact Json.spells_object_iff.mpr ⟨members, hmembers, rfl⟩

namespace Session

variable {σ : Type} (s : Session σ)

/-- Capabilities are read from a body just if it lists names, and are the set of these. -/
theorem readCapabilities_eq_ok_iff {run : Run σ} {body : Bytes} {c : Capabilities}
    (hbody : (s.channel .get versionRequest run.world).1 = .ok body) :
    (s.readCapabilities run).1 = .ok c ↔ ∃ names, BodyLists body names ∧ c = .ofList names := by
  rw [readCapabilities_fst_eq_ok_iff, hbody]
  simp only [lists_ok_iff]

private theorem capabilities_of_accepted {channel : Channel σ} {run run' : Run σ} {body : Bytes}
    {names : List String} {baseUrl : String} {version : Version} {session : Session σ}
    (hbody : (channel .get versionRequest run.world).1 = .ok body) (hnames : BodyLists body names)
    (haccepted : tryChannel channel baseUrl version run = (.accepted session, run')) :
    session.capabilities = .ofList names := by
  have hlists : Lists (channel .get versionRequest run.world).1 names := by
    rw [hbody]
    exact lists_ok_iff.mpr hnames
  obtain ⟨r, -, htried⟩ := tryChannel_of_lists channel baseUrl version hlists
  rw [haccepted] at htried
  cases r with
  | ok _ =>
    obtain rfl := Attempt.accepted.inj (Prod.mk.inj htried).1
    rfl
  | error e => cases (Prod.mk.inj htried).1

/-- For every body of a version document: capabilities are read just if the body is an object of
which the last `capabilities` is a list of strings and of nothing else. Then what is read collects
these strings, a session that is accepted has what is read, and from every body that lists the same
strings, in any order, however often, and among any other members, the same is read. -/
theorem readCapabilities_collects {run : Run σ} {body : Bytes}
    (hbody : (s.channel .get versionRequest run.world).1 = .ok body) :
    ((∃ c, (s.readCapabilities run).1 = .ok c) ↔ ∃ names, BodyLists body names) ∧
    ∀ names, BodyLists body names → ∃ c : Capabilities,
      (s.readCapabilities run).1 = .ok c ∧
      c.Collects names ∧
      (∀ baseUrl version session run',
        tryChannel s.channel baseUrl version run = (.accepted session, run') →
          session.capabilities = c) ∧
      ∀ (s' : Session σ) (run' : Run σ) (body' : Bytes) (names' : List String),
        (s'.channel .get versionRequest run'.world).1 = .ok body' → BodyLists body' names' →
          (∀ name, name ∈ names ↔ name ∈ names') → (s'.readCapabilities run').1 = .ok c := by
  refine ⟨?_, fun names hnames ↦ ⟨.ofList names, ?_, Capabilities.collects_ofList names, ?_, ?_⟩⟩
  · simp only [s.readCapabilities_eq_ok_iff hbody]
    constructor
    · rintro ⟨_, names, hnames, -⟩
      exact ⟨names, hnames⟩
    · rintro ⟨names, hnames⟩
      exact ⟨_, names, hnames, rfl⟩
  · exact (s.readCapabilities_eq_ok_iff hbody).mpr ⟨names, hnames, rfl⟩
  · intro baseUrl version session run' haccepted
    exact capabilities_of_accepted hbody hnames haccepted
  · intro s' run' body' names' hbody' hnames' hsame
    refine (s'.readCapabilities_eq_ok_iff hbody').mpr ⟨names', hnames', ?_⟩
    exact (Capabilities.collects_ofList names).eq_of_mem_iff (Capabilities.collects_ofList names')
      hsame

/-- Of two members the last counts, and of two names alike one. -/
theorem readCapabilities_collects_last :
    let text := "\x7b\"capabilities\":null, \"capabilities\":[\"b\",\"a\",\"b\"]\x7d"
    let s : Session Unit :=
      ⟨fun _ _ _ ↦ (.ok (Text.Utf8.ofString text), ()), "http://maas.example.com/MAAS/", ⟨2, 0, 0⟩,
        .empty⟩
    ∃ c : Capabilities, (s.readCapabilities { world := () }).1 = .ok c ∧ c.toList = ["a", "b"] := by
  intro text s
  have hnames : BodyLists (Text.Utf8.ofString text) ["b", "a", "b"] := by
    obtain ⟨key, hkey, hread⟩ := Json.readString_printString "capabilities"
    have htext : Text.Utf8.ofString text =
        0x7B :: (Text.Utf8.encode (Json.printString "capabilities") ++
          0x3A :: 0x6E :: (Json.wordNull ++
            0x2C :: 0x20 :: (Text.Utf8.encode (Json.printString "capabilities") ++
              0x3A :: (Text.Utf8.encode (Json.printTexts ["b", "a", "b"]) ++ [0x7D])))) := by
      decide
    rw [htext, hkey]
    refine ⟨[("capabilities", .null), ("capabilities", .array _)], ⟨_, [], rfl, ?_, rfl⟩,
      [("capabilities", .null)], [], rfl, nofun⟩
    refine .cons .first rfl (hread _) rfl (.null rfl) ?_
    exact .cons (.later rfl) rfl (hread _) rfl (Json.stands_printTexts _ [0x7D]) (.nil rfl)
  have hbody : (s.channel .get versionRequest (Run.mk () 0 []).world).1 =
      .ok (Text.Utf8.ofString text) := rfl
  obtain ⟨c, hc, hcollects, -⟩ := (s.readCapabilities_collects hbody).2 _ hnames
  refine ⟨c, hc, ?_⟩
  rw [hcollects.eq_of_mem_iff (Capabilities.collects_ofList _) fun _ ↦ Iff.rfl]
  decide

end Session

end RegionClient

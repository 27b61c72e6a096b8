import RegionClient.Proofs.Schema.Coercion
import RegionClient.Session.Negotiation

/-!
# Version documents

Which documents say what a controller can do. Main statement: capabilities are read from exactly
the objects whose `capabilities` are texts and nothing else, and they are those texts
(`capabilitiesOf_eq_ok_iff`).
-/

namespace RegionClient

open Json (Value)

/-- A document lists names: it is an object whose `capabilities` are these texts. -/
def ListsNames (document : Value) (names : List String) : Prop :=
  ∃ entries, document = .object entries ∧
    Json.lookupEntry "capabilities" entries = some (.array (names.map .string))

private theorem ListsNames.unique {document : Value} {names names' : List String}
    (h : ListsNames document names) (h' : ListsNames document names') : names = names' := by
  obtain ⟨entries, rfl, hfound⟩ := h
  obtain ⟨entries', hentries, hfound'⟩ := h'
  obtain rfl := Value.object.inj hentries
  rw [hfound, Option.some.injEq, Value.array.injEq] at hfound'
  rw [← filterMap_text?_map_string names, hfound', filterMap_text?_map_string]

namespace Session

private theorem coerce_versionSchema_eq_ok_iff {document : Value} {c : Coerced} :
    versionSchema.coerce document = .ok c ↔
      ∃ names, ListsNames document names ∧
        c = ⟨[("capabilities", .array (names.map .string))]⟩ := by
  have hpart : ∀ {entries v}, Json.lookupEntry "capabilities" entries = some v →
      IsDeclaredPart versionSchema.fields entries [("capabilities", v)] := by
    intro entries v hfound
    have htakes : SchemaField.Takes ⟨"capabilities", .list .text, true⟩ entries v :=
      ⟨hfound, .inr rfl⟩
    have hkeep : IsDeclaredPart versionSchema.fields entries _ :=
      IsDeclaredPart.nil.keep ⟨"capabilities", .list .text, true⟩
    rwa [htakes.keep_eq] at hkeep
  rw [Schema.coerce_eq_ok_iff]
  constructor
  · rintro ⟨entries, rfl, hsatisfied, hkept⟩
    rcases hsatisfied _ List.mem_cons_self with ⟨hoptional, -⟩ | ⟨v, hfound, htype⟩
    · cases hoptional
    · obtain ⟨names, rfl⟩ := hasType_texts_iff.mp htype
      refine ⟨names, ⟨entries, rfl, hfound⟩, ?_⟩
      exact congrArg Coerced.mk (hkept.unique (hpart hfound))
  · rintro ⟨names, ⟨entries, rfl, hfound⟩, rfl⟩
    refine ⟨entries, rfl, fun field hmem ↦ ?_, hpart hfound⟩
    obtain rfl := List.mem_singleton.mp hmem
    exact .inr ⟨_, hfound, hasType_texts_iff.mpr ⟨names, rfl⟩⟩

/-- Capabilities are read from the documents that list names. -/
theorem capabilitiesOf_eq_ok_iff {document : Value} {c : Capabilities} :
    capabilitiesOf document = .ok c ↔ ∃ names, ListsNames document names ∧ c = .ofList names := by
  unfold capabilitiesOf
  cases hcoerce : versionSchema.coerce document with
  | error e =>
    simp only [reduceCtorEq, false_iff]
    rintro ⟨names, hnames, -⟩
    have := coerce_versionSchema_eq_ok_iff.mpr ⟨names, hnames, rfl⟩
    simp [hcoerce] at this
  | ok coerced =>
    obtain ⟨names, hnames, rfl⟩ := coerce_versionSchema_eq_ok_iff.mp hcoerce
    have htexts : (Coerced.mk [("capabilities", .array (names.map .string))]).texts?
        "capabilities" = some names := Coerced.texts?_of_get? rfl
    simp only [htexts, Option.getD_some, Except.ok.injEq]
    constructor
    · rintro rfl
      exact ⟨names, hnames, rfl⟩
    · rintro ⟨names', hnames', rfl⟩
      rw [hnames.unique hnames']

end Session

end RegionClient

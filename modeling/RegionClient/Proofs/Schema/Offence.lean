import RegionClient.Proofs.Schema.Coercion
import RegionClient.Proofs.Schema.Misfit

/-!
# The first offence

What is reported of a document that does not fit a schema. A field offends if it is missed, or if
what it takes has a misfit, and then the first misfit is reported (`SchemaField.Offends`). Main
statement: a schema reports the first field, in declaration order, that an object does not satisfy,
or that the document is no object (`Schema.coerce_eq_error_iff_pinpoints`).
-/

namespace RegionClient

open Json (Value PathStep lookupEntry pathTo)

variable {document kept : List (String × Value)} {e : SchemaError}

namespace SchemaField

variable {field : SchemaField}

/-- What is reported of a field: that it is missed, or the first misfit of what it takes. -/
inductive Offends (field : SchemaField) (document : List (String × Value)) : SchemaError → Prop
  | missing (hrequired : field.required = true)
      (hfound : lookupEntry field.name document = none) :
      Offends field document (.missing field.name)
  | mismatch {v v' : Value} {steps : List PathStep} {type' : FieldType}
      (htakes : field.Takes document v) (hmisfit : field.type.IsFirstMisfit v steps type' v') :
      Offends field document (.mismatch (pathTo field.name steps) type'.describe v'.typeName)

private theorem Offends.not_isSatisfied (h : field.Offends document e) :
    ¬ field.IsSatisfied document := by
  intro hsatisfied
  cases h with
  | missing hrequired hfound => exact not_isSatisfied_of_missed hrequired hfound hsatisfied
  | mismatch htakes hmisfit =>
    have htype := hmisfit.leads.hasType (htakes.isSatisfied_iff.mp hsatisfied)
    exact hmisfit.misfits (FieldType.hasType_iff.mp htype).1

/-- A field is refused as it offends. -/
theorem coerce_eq_error_iff (h : (Value.object document).IsOrdered) :
    field.coerce document kept = .error e ↔ field.Offends document e := by
  rcases field.isWaived_or_takes document with hwaived | ⟨hrequired, hfound⟩ | ⟨v, htakes⟩
  · rw [coerce_of_isWaivedBy hwaived]
    exact iff_of_false nofun fun hoffends ↦ hoffends.not_isSatisfied (.inl hwaived)
  · rw [coerce_of_missed hrequired hfound]
    constructor
    · intro he
      rw [← Except.error.inj he]
      exact .missing hrequired hfound
    · intro hoffends
      cases hoffends with
      | missing => rfl
      | mismatch htakes => cases hfound.symm.trans htakes.1
  · rw [htakes.coerce_eq, map_eq_error_iff,
      FieldType.check_eq_error_iff (h.of_lookupEntry htakes.1)]
    constructor
    · rintro ⟨steps, type', v', hmisfit, rfl⟩
      exact .mismatch htakes hmisfit
    · intro hoffends
      cases hoffends with
      | missing _ hfound => cases hfound.symm.trans htakes.1
      | @mismatch v₁ v' steps type' htakes' hmisfit =>
        obtain rfl : v₁ = v := Option.some.inj (htakes'.1.symm.trans htakes.1)
        exact ⟨steps, type', v', hmisfit, rfl⟩

end SchemaField

namespace Schema

variable {schema : Schema} {v : Value}

/-- What is reported of a document: that it is no object, or what offends in the first field that it
does not satisfy. -/
inductive Pinpoints (schema : Schema) : Value → SchemaError → Prop
  | notAnObject {v : Value} (h : ∀ document, v ≠ .object document) :
      Pinpoints schema v (.notAnObject v.typeName)
  | field {document : List (String × Value)} {front behind : List SchemaField}
      {field : SchemaField} {e : SchemaError} (hfields : schema.fields = front ++ field :: behind)
      (hfront : ∀ earlier ∈ front, earlier.IsSatisfied document)
      (hfield : ¬ field.IsSatisfied document) (hoffends : field.Offends document e) :
      Pinpoints schema (.object document) e

/-- A schema that refuses a document reports the first offence. The entries of objects are in key
order, as they are in every document that is read (`Json.isOrdered_of_parse`). -/
theorem coerce_eq_error_iff_pinpoints (h : v.IsOrdered) :
    schema.coerce v = .error e ↔ schema.Pinpoints v e := by
  cases v with
  | object document =>
    have hstep : ∀ (kept : List (String × Value)) (field : SchemaField) kept',
        field.coerce document kept = .ok kept' ↔
          field.IsSatisfied document ∧ kept' = SchemaField.keep document kept field :=
      fun _ _ _ ↦ SchemaField.coerce_eq_ok_iff
    have hfails : ∀ (kept : List (String × Value)) (field : SchemaField) e,
        field.coerce document kept = .error e ↔ field.Offends document e :=
      fun _ _ _ ↦ SchemaField.coerce_eq_error_iff h
    rw [coerce_object, map_eq_error_iff, foldlM_eq_error_iff hstep hfails]
    constructor
    · rintro ⟨front, field, behind, hfields, hfront, hoffends⟩
      exact .field hfields hfront hoffends.not_isSatisfied hoffends
    · intro hpinpoints
      cases hpinpoints with
      | notAnObject hno => exact absurd rfl (hno document)
      | @field _ front behind field _ hfields hfront _ hoffends =>
        exact ⟨front, field, behind, hfields, hfront, hoffends⟩
  | _ =>
    constructor
    · intro he
      rw [← Except.error.inj he]
      exact .notAnObject nofun
    · intro hpinpoints
      cases hpinpoints
      rfl

/-- The second entry of the first host is no integer; that the second host is no object does not
come up. -/
theorem pinpoints_entry :
    Schema.Pinpoints ⟨[⟨"zone", .text, false⟩, ⟨"hosts", .list (.map .integer), true⟩]⟩
      (.object [("hosts", .array [.object [("cores", .number (.integer ⟨4, by decide, by decide⟩)),
        ("name", .string "a")], .null])])
      (.mismatch "hosts[0].name" "int" "string") := by
  refine (coerce_eq_error_iff_pinpoints ?_).mp rfl
  have hhost : (Value.object [("cores", .number (.integer ⟨4, by decide, by decide⟩)),
      ("name", .string "a")]).IsOrdered := by
    refine .object (List.pairwise_pair.mpr (by decide)) ?_
    exact List.forall_mem_cons.mpr ⟨.number _, List.forall_mem_singleton.mpr (.string "a")⟩
  refine .object (List.pairwise_singleton _ _) (List.forall_mem_singleton.mpr (.array ?_))
  exact List.forall_mem_cons.mpr ⟨hhost, List.forall_mem_singleton.mpr .null⟩

end Schema

end RegionClient

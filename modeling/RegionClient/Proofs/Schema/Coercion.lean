import RegionClient.Proofs.Schema.Typing

/-!
# Coercion

What a schema asks of documents, and what it keeps of them. A field is waived, missed or taken
(`SchemaField.isWaived_or_takes`), and one field of a fold adds what it takes to what is kept
(`IsDeclaredPart.keep`). Main statements: a document is let through if it satisfies every field, and
what is kept is then its declared part (`Schema.coerce_eq_ok_iff`); the declared part is let through
unchanged, lists of texts are kept whole, and entries that are not declared play no part
(`Schema.coerce_declaredPart`).
-/

namespace RegionClient

open Json (Value InKeyOrder lookupEntry insertEntry)

variable {document kept kept' : List (String × Value)}

namespace SchemaField

variable {field : SchemaField}

/-- The field is optional and its entry absent or null. -/
def IsWaivedBy (field : SchemaField) (document : List (String × Value)) : Prop :=
  field.required = false ∧
    (lookupEntry field.name document = none ∨ lookupEntry field.name document = some .null)

/-- The value is the field's entry, and is not null or the field is required. -/
def Takes (field : SchemaField) (document : List (String × Value)) (v : Value) : Prop :=
  lookupEntry field.name document = some v ∧ (v ≠ .null ∨ field.required = true)

/-- The field is optional and its entry absent or null, or its entry has its type. -/
def IsSatisfied (field : SchemaField) (document : List (String × Value)) : Prop :=
  field.IsWaivedBy document ∨
    ∃ v, lookupEntry field.name document = some v ∧ HasType field.type v

/-- A field is waived, or its entry is missed, or its entry is taken. -/
theorem isWaived_or_takes (field : SchemaField) (document : List (String × Value)) :
    field.IsWaivedBy document ∨
      field.required = true ∧ lookupEntry field.name document = none ∨
      ∃ v, field.Takes document v := by
  cases hfound : lookupEntry field.name document with
  | none =>
    cases hrequired : field.required with
    | false => exact .inl ⟨hrequired, .inl hfound⟩
    | true => exact .inr (.inl ⟨rfl, rfl⟩)
  | some v =>
    cases hrequired : field.required with
    | true => exact .inr (.inr ⟨v, hfound, .inr hrequired⟩)
    | false =>
      cases v with
      | null => exact .inl ⟨hrequired, .inr hfound⟩
      | _ => exact .inr (.inr ⟨_, hfound, .inl nofun⟩)

private theorem Takes.not_isWaivedBy {v : Value} (h : field.Takes document v) :
    ¬ field.IsWaivedBy document := by
  obtain ⟨hfound, hstands⟩ := h
  rintro ⟨hoptional, hnone | hnull⟩
  · cases hfound.symm.trans hnone
  · obtain rfl : v = .null := Option.some.inj (hfound.symm.trans hnull)
    rcases hstands with hne | hrequired
    · exact hne rfl
    · cases hoptional.symm.trans hrequired

/-- A field that is missed is not satisfied. -/
theorem not_isSatisfied_of_missed (hrequired : field.required = true)
    (hfound : lookupEntry field.name document = none) : ¬ field.IsSatisfied document := by
  rintro (⟨hoptional, -⟩ | ⟨v, hsome, -⟩)
  · cases hrequired.symm.trans hoptional
  · cases hfound.symm.trans hsome

/-- A field that takes a value is satisfied if the value has its type. -/
theorem Takes.isSatisfied_iff {v : Value} (h : field.Takes document v) :
    field.IsSatisfied document ↔ HasType field.type v := by
  refine ⟨?_, fun htype ↦ .inr ⟨v, h.1, htype⟩⟩
  rintro (hwaived | ⟨v', hfound, htype⟩)
  · exact absurd hwaived h.not_isWaivedBy
  · obtain rfl : v = v' := Option.some.inj (h.1.symm.trans hfound)
    exact htype

/-! ## One field -/

private theorem isWaived_iff :
    field.isWaived (lookupEntry field.name document) = true ↔ field.IsWaivedBy document := by
  unfold isWaived IsWaivedBy
  cases lookupEntry field.name document with
  | none => simp
  | some v => cases v <;> simp

/-- The entries with that of the field, if it is taken. -/
def keep (document kept : List (String × Value)) (field : SchemaField) : List (String × Value) :=
  match lookupEntry field.name document with
  | none => kept
  | some v => if field.isWaived (some v) then kept else insertEntry field.name v kept

private theorem keep_of_not_takes (h : ∀ v, ¬ field.Takes document v) :
    field.keep document kept = kept := by
  unfold keep
  rcases field.isWaived_or_takes document with hwaived | ⟨-, hfound⟩ | ⟨v, htakes⟩
  · have hwaived := isWaived_iff.mpr hwaived
    split
    · rfl
    · next hfound =>
      rw [hfound] at hwaived
      exact if_pos hwaived
  · rw [hfound]
  · exact absurd htakes (h v)

/-- A field keeps what it takes. -/
theorem Takes.keep_eq {v : Value} (h : field.Takes document v) :
    field.keep document kept = insertEntry field.name v kept := by
  have hwaived := mt isWaived_iff.mp h.not_isWaivedBy
  rw [h.1] at hwaived
  unfold keep
  rw [h.1]
  exact if_neg hwaived

/-- A waived field is let through. -/
theorem coerce_of_isWaivedBy (h : field.IsWaivedBy document) :
    field.coerce document kept = .ok kept :=
  if_pos (isWaived_iff.mpr h)

/-- A required field without an entry is missed. -/
theorem coerce_of_missed (hrequired : field.required = true)
    (hfound : lookupEntry field.name document = none) :
    field.coerce document kept = .error (.missing field.name) := by
  simp only [SchemaField.coerce, hfound, isWaived, hrequired, Bool.not_true, Bool.false_eq_true,
    if_false]

/-- What a field takes is checked and kept. -/
theorem Takes.coerce_eq {v : Value} (h : field.Takes document v) :
    field.coerce document kept =
      (field.type.check field.name v).map fun _ ↦ field.keep document kept := by
  have hwaived := mt isWaived_iff.mp h.not_isWaivedBy
  unfold SchemaField.coerce
  dsimp only
  rw [if_neg hwaived, h.1, h.keep_eq]
  change (field.type.check field.name v >>= fun _ ↦ pure _) = _
  cases field.type.check field.name v <;> rfl

/-- A field lets the documents through that satisfy it. -/
theorem coerce_eq_ok_iff :
    field.coerce document kept = .ok kept' ↔
      field.IsSatisfied document ∧ kept' = field.keep document kept := by
  rcases field.isWaived_or_takes document with hwaived | ⟨hrequired, hfound⟩ | ⟨v, htakes⟩
  · have hkeep : field.keep document kept = kept :=
      keep_of_not_takes fun _ htakes ↦ htakes.not_isWaivedBy hwaived
    rw [coerce_of_isWaivedBy hwaived, hkeep, Except.ok.injEq, eq_comm]
    exact (and_iff_right (.inl hwaived)).symm
  · rw [coerce_of_missed hrequired hfound]
    exact iff_of_false nofun fun h ↦ not_isSatisfied_of_missed hrequired hfound h.1
  · rw [htakes.coerce_eq, map_eq_ok_iff, htakes.isSatisfied_iff, ← FieldType.check_eq_ok_iff]
    exact ⟨fun ⟨_, h⟩ ↦ h, fun h ↦ ⟨(), h⟩⟩

end SchemaField

/-! ## All fields -/

variable {front fields : List SchemaField} {field : SchemaField}

/-- The entries, in key order, are those of the document that some field takes. -/
structure IsDeclaredPart (fields : List SchemaField) (document kept : List (String × Value)) :
    Prop where
  inKeyOrder : InKeyOrder kept
  lookupEntry_iff : ∀ name v, lookupEntry name kept = some v ↔
    ∃ field ∈ fields, field.name = name ∧ field.Takes document v

namespace IsDeclaredPart

/-- No field takes nothing. -/
theorem nil : IsDeclaredPart [] document [] :=
  ⟨.nil, fun _ _ ↦ iff_of_false nofun fun ⟨_, hmem, _⟩ ↦ nomatch hmem⟩

/-- A document has one declared part. -/
theorem unique (h : IsDeclaredPart fields document kept)
    (h' : IsDeclaredPart fields document kept') : kept = kept' := by
  refine h.inKeyOrder.eq_of_lookupEntry h'.inKeyOrder fun name ↦ Option.ext fun v ↦ ?_
  rw [h.lookupEntry_iff, h'.lookupEntry_iff]

private theorem lookupEntry_document (h : IsDeclaredPart fields document kept) {name : String}
    {v : Value} (hfound : lookupEntry name kept = some v) : lookupEntry name document = some v := by
  obtain ⟨field, -, rfl, htakes⟩ := (h.lookupEntry_iff name v).mp hfound
  exact htakes.1

/-- A further field adds to the declared part what it takes. -/
theorem keep (h : IsDeclaredPart front document kept) (field : SchemaField) :
    IsDeclaredPart (front ++ [field]) document (field.keep document kept) := by
  have hlast : ∀ name v,
      (∃ field' ∈ front ++ [field], field'.name = name ∧ field'.Takes document v) ↔
        lookupEntry name kept = some v ∨ field.name = name ∧ field.Takes document v := by
    intro name v
    rw [h.lookupEntry_iff]
    simp only [List.mem_append, List.mem_singleton, or_and_right, exists_or, exists_eq_left]
  by_cases htakes : ∃ v, field.Takes document v
  · obtain ⟨v, htakes⟩ := htakes
    rw [htakes.keep_eq]
    refine ⟨h.inKeyOrder.insertEntry, fun name v' ↦ ?_⟩
    rw [hlast]
    by_cases hname : name = field.name
    · rw [hname, Json.lookupEntry_insertEntry_self, Option.some.injEq]
      constructor
      · rintro rfl
        exact .inr ⟨rfl, htakes⟩
      -- What an earlier field of the name took is the same entry of the document.
      · rintro (hfound | ⟨-, hfound, -⟩)
        · exact Option.some.inj (htakes.1.symm.trans (h.lookupEntry_document hfound))
        · exact Option.some.inj (htakes.1.symm.trans hfound)
    · rw [Json.lookupEntry_insertEntry_of_ne hname]
      exact (or_iff_left fun hsame ↦ hname hsame.1.symm).symm
  · rw [SchemaField.keep_of_not_takes (not_exists.mp htakes)]
    refine ⟨h.inKeyOrder, fun name v ↦ ?_⟩
    rw [hlast]
    exact (or_iff_left fun hsame ↦ htakes ⟨v, hsame.2⟩).symm

private theorem foldl_keep (h : IsDeclaredPart front document kept) :
    IsDeclaredPart (front ++ fields) document
      (fields.foldl (SchemaField.keep document) kept) := by
  induction fields generalizing front kept with
  | nil => rwa [List.append_nil]
  | cons field rest ih =>
    rw [List.foldl_cons, List.append_cons]
    exact ih (h.keep field)

/-- The declared part of a declared part is all of it. -/
theorem of_declaredPart (h : IsDeclaredPart fields document kept) :
    IsDeclaredPart fields kept kept := by
  refine ⟨h.inKeyOrder, fun name v ↦ ⟨fun hfound ↦ ?_, ?_⟩⟩
  · obtain ⟨field, hmem, rfl, -, hstands⟩ := (h.lookupEntry_iff name v).mp hfound
    exact ⟨field, hmem, rfl, hfound, hstands⟩
  · rintro ⟨field, -, rfl, hfound, -⟩
    exact hfound

/-- The declared part satisfies the fields that the document satisfies. -/
theorem isSatisfied (h : IsDeclaredPart fields document kept) (hmem : field ∈ fields)
    (hsatisfied : field.IsSatisfied document) : field.IsSatisfied kept := by
  cases hfound : lookupEntry field.name kept with
  | some v =>
    have hfound' := h.lookupEntry_document hfound
    rcases hsatisfied with ⟨hoptional, hnone | hnull⟩ | ⟨v', hsome, htype⟩
    · cases hfound'.symm.trans hnone
    · exact .inl ⟨hoptional, .inr (hfound.trans (hfound'.symm.trans hnull))⟩
    · exact .inr ⟨v', hfound.trans (hfound'.symm.trans hsome), htype⟩
  | none =>
    -- Nothing is kept under the name, so the document has nothing there or a null passed over.
    have hleft : ∀ v, ¬ field.Takes document v := by
      intro v htakes
      have := (h.lookupEntry_iff field.name v).mpr ⟨field, hmem, rfl, htakes⟩
      cases hfound.symm.trans this
    rcases field.isWaived_or_takes document with ⟨hoptional, -⟩ | ⟨hrequired, hmissed⟩ | ⟨v, htakes⟩
    · exact .inl ⟨hoptional, .inl hfound⟩
    · exact absurd hsatisfied (SchemaField.not_isSatisfied_of_missed hrequired hmissed)
    · exact absurd htakes (hleft v)

end IsDeclaredPart

/-- A list of texts is read whole. -/
theorem Coerced.texts?_of_get? {c : Coerced} {name : String} {texts : List String}
    (h : c.get? name = some (.array (texts.map .string))) : c.texts? name = some texts := by
  unfold texts?
  rw [h]
  exact congrArg some (filterMap_text?_map_string texts)

namespace Schema

variable {schema : Schema} {v : Value} {c : Coerced}

/-- The fields of an object are checked one after the other. -/
theorem coerce_object (schema : Schema) (document : List (String × Value)) :
    schema.coerce (.object document) =
      (schema.fields.foldlM (fun kept (field : SchemaField) ↦ field.coerce document kept) []).map
        Coerced.mk := by
  change (_ >>= fun kept ↦ pure (Coerced.mk kept)) = _
  cases schema.fields.foldlM (fun kept (field : SchemaField) ↦ field.coerce document kept) [] <;> rfl

/-- An object is let through if it satisfies every field, and its declared part is kept. -/
theorem coerce_eq_ok_iff :
    schema.coerce v = .ok c ↔ ∃ document, v = .object document ∧
      (∀ field ∈ schema.fields, field.IsSatisfied document) ∧
        IsDeclaredPart schema.fields document c.entries := by
  cases v with
  | object document =>
    have hpart : IsDeclaredPart schema.fields document
        (schema.fields.foldl (SchemaField.keep document) []) := IsDeclaredPart.nil.foldl_keep
    have hstep : ∀ (kept : List (String × Value)) (field : SchemaField) kept',
        field.coerce document kept = .ok kept' ↔
          field.IsSatisfied document ∧ kept' = SchemaField.keep document kept field :=
      fun _ _ _ ↦ SchemaField.coerce_eq_ok_iff
    rw [coerce_object, map_eq_ok_iff]
    simp only [foldlM_eq_ok_iff hstep]
    constructor
    · rintro ⟨kept, ⟨hsatisfied, rfl⟩, rfl⟩
      exact ⟨document, rfl, hsatisfied, hpart⟩
    · rintro ⟨_, hsame, hsatisfied, hpart'⟩
      cases hsame
      exact ⟨c.entries, ⟨hsatisfied, hpart'.unique hpart⟩, rfl⟩
  | _ => exact iff_of_false nofun fun ⟨_, h, _⟩ ↦ nomatch h

/-- Entries that no field declares play no part. -/
theorem coerce_congr {document document' : List (String × Value)}
    (h : ∀ field ∈ schema.fields,
      lookupEntry field.name document = lookupEntry field.name document') :
    schema.coerce (.object document) = schema.coerce (.object document') := by
  have hsteps : ∀ (sofar : Except SchemaError (List (String × Value))),
      ∀ field ∈ schema.fields,
        (sofar >>= fun kept ↦ SchemaField.coerce field document kept) =
          sofar >>= fun kept ↦ SchemaField.coerce field document' kept := by
    intro sofar field hmem
    have hsame : field.coerce document = field.coerce document' := by
      funext kept
      unfold SchemaField.coerce
      rw [h field hmem]
    rw [hsame]
  rw [coerce_object, coerce_object, List.foldlM_eq_foldl, List.foldlM_eq_foldl,
    List.foldl_ext _ _ _ hsteps]

/-- A schema lets an object through if it satisfies every field. What is kept is the declared part
of the object; it is let through unchanged, and the texts of a list of texts that is taken are all
its elements, in order. Entries that no field declares play no part. -/
theorem coerce_declaredPart (schema : Schema) :
    (∀ v, (∃ c, schema.coerce v = .ok c) ↔
      ∃ document, v = .object document ∧ ∀ field ∈ schema.fields, field.IsSatisfied document) ∧
    (∀ document c, schema.coerce (.object document) = .ok c →
      IsDeclaredPart schema.fields document c.entries ∧
      schema.coerce (.object c.entries) = .ok c ∧
      ∀ field ∈ schema.fields, field.type = .list .text → ∀ v, field.Takes document v →
        ∃ texts : List String, v = .array (texts.map .string) ∧ c.texts? field.name = some texts) ∧
    ∀ document document', (∀ field ∈ schema.fields,
        lookupEntry field.name document = lookupEntry field.name document') →
      schema.coerce (.object document) = schema.coerce (.object document') := by
  refine ⟨fun v ↦ ⟨?_, ?_⟩, fun document c h ↦ ?_, fun _ _ ↦ coerce_congr⟩
  · rintro ⟨c, h⟩
    obtain ⟨document, rfl, hsatisfied, -⟩ := coerce_eq_ok_iff.mp h
    exact ⟨document, rfl, hsatisfied⟩
  · rintro ⟨document, rfl, hsatisfied⟩
    have hpart : IsDeclaredPart schema.fields document
        (schema.fields.foldl (SchemaField.keep document) []) := IsDeclaredPart.nil.foldl_keep
    exact ⟨⟨_⟩, coerce_eq_ok_iff.mpr ⟨document, rfl, hsatisfied, hpart⟩⟩
  · obtain ⟨_, hsame, hsatisfied, hpart⟩ := coerce_eq_ok_iff.mp h
    cases hsame
    refine ⟨hpart, ?_, fun field hmem htexts v htakes ↦ ?_⟩
    · exact coerce_eq_ok_iff.mpr ⟨c.entries, rfl,
        fun field hmem ↦ hpart.isSatisfied hmem (hsatisfied field hmem), hpart.of_declaredPart⟩
    · have htype := htakes.isSatisfied_iff.mp (hsatisfied field hmem)
      rw [htexts] at htype
      obtain ⟨texts, rfl⟩ := hasType_texts_iff.mp htype
      refine ⟨texts, rfl, Coerced.texts?_of_get? ?_⟩
      exact (hpart.lookupEntry_iff _ _).mpr ⟨field, hmem, rfl, htakes⟩

/-- A null that one field of a name passes over and another takes, beside an entry that no field
declares. -/
theorem coerce_declaredPart_twice :
    ∃ c, Schema.coerce
        ⟨[⟨"names", .list .text, true⟩, ⟨"note", .text, false⟩, ⟨"note", .any, true⟩]⟩
        (.object [("extra", .bool true), ("names", .array [.string "a", .string "b"]),
          ("note", .null)]) = .ok c ∧
      c.texts? "names" = some ["a", "b"] ∧ c.get? "note" = some .null ∧ c.get? "extra" = none := by
  obtain ⟨hlets, hkeeps, -⟩ := coerce_declaredPart
    ⟨[⟨"names", .list .text, true⟩, ⟨"note", .text, false⟩, ⟨"note", .any, true⟩]⟩
  have hnames : HasType (.list .text) (.array [.string "a", .string "b"]) :=
    hasType_texts_iff.mpr ⟨["a", "b"], rfl⟩
  obtain ⟨c, hc⟩ := (hlets _).mpr ⟨[("extra", .bool true),
    ("names", .array [.string "a", .string "b"]), ("note", .null)], rfl, by
      simp only [List.forall_mem_cons]
      exact ⟨.inr ⟨_, rfl, hnames⟩, .inl ⟨rfl, .inr rfl⟩, .inr ⟨_, rfl, .any .null⟩, nofun⟩⟩
  obtain ⟨hpart, -, htexts⟩ := hkeeps _ c hc
  refine ⟨c, hc, ?_, ?_, ?_⟩
  · obtain ⟨texts, hsame, hread⟩ := htexts _ List.mem_cons_self rfl _ ⟨rfl, .inr rfl⟩
    rw [hread, ← filterMap_text?_map_string texts, ← Value.array.inj hsame]
    rfl
  · refine (hpart.lookupEntry_iff "note" .null).mpr ⟨⟨"note", .any, true⟩, ?_, rfl, rfl, .inr rfl⟩
    exact List.mem_cons_of_mem _ (List.mem_cons_of_mem _ List.mem_cons_self)
  · cases hextra : c.get? "extra" with
    | none => rfl
    | some v =>
      obtain ⟨field, hmem, hname, -⟩ := (hpart.lookupEntry_iff "extra" v).mp hextra
      have hdeclared : ∀ field ∈ [(⟨"names", .list .text, true⟩ : SchemaField),
          ⟨"note", .text, false⟩, ⟨"note", .any, true⟩], field.name ≠ "extra" := by decide
      exact absurd hname (hdeclared field hmem)

end Schema

end RegionClient

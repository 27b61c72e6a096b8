import RegionClient.Proofs.Schema.Typing

/-!
# The first misfit

Where a value departs from its type. A position is reached in the value and in the type in
parallel, through values that fit (`FieldType.Leads`); the first misfit is the position reached
that does not fit, behind which nothing is left to find, since all that is visited before it has
its type (`FieldType.IsFirstMisfit`). Main statement: a check fails with the first misfit of an
ordered value, its path, the type there and what the value is (`FieldType.check_eq_error_iff`).
-/

namespace RegionClient.FieldType

open Json (Value PathStep Precedes pathTo)

/-- Steps that lead into a value and its type in parallel, through values that fit, to a value and
the type that it is to have. -/
inductive Leads : FieldType → Value → List PathStep → FieldType → Value → Prop
  | here (type : FieldType) (v : Value) : Leads type v [] type v
  | deeper {type element type' : FieldType} {v item v' : Value} {step : PathStep}
      {steps : List PathStep} (hfits : type.Fits v) (helement : type.element? = some element)
      (hplace : (step, item) ∈ v.places) (h : Leads element item steps type' v') :
      Leads type v (step :: steps) type' v'

variable {type type' element : FieldType} {v v' : Value} {steps : List PathStep}

/-- All that is reached in a value that has its type has the type there. -/
theorem Leads.hasType (h : type.Leads v steps type' v') (htype : HasType type v) :
    HasType type' v' := by
  induction h with
  | here => exact htype
  | deeper _ helement hplace _ ih => exact ih ((hasType_iff.mp htype).2 _ helement _ hplace)

/-- The position is the first one, depth first, at which a value does not fit its type: it is
reached, the value there does not fit, and what is reached at an earlier position has its type. -/
structure IsFirstMisfit (type : FieldType) (v : Value) (steps : List PathStep)
    (type' : FieldType) (v' : Value) : Prop where
  leads : type.Leads v steps type' v'
  misfits : ¬ type'.Fits v'
  passed : ∀ p type₁ v₁, Precedes p steps → type.Leads v p type₁ v₁ → HasType type₁ v₁

private theorem isFirstMisfit_iff_of_not_fits (h : ¬ type.Fits v) :
    type.IsFirstMisfit v steps type' v' ↔ steps = [] ∧ type' = type ∧ v' = v := by
  constructor
  · rintro ⟨hleads, -, -⟩
    cases hleads with
    | here => exact ⟨rfl, rfl, rfl⟩
    | deeper hfits => exact absurd hfits h
  · rintro ⟨rfl, rfl, rfl⟩
    exact ⟨.here _ _, h, nofun⟩

private theorem not_isFirstMisfit_of_leaf (h : type.Fits v) (hleaf : type.element? = none) :
    ¬ type.IsFirstMisfit v steps type' v' := by
  rintro ⟨hleads, hmisfits, -⟩
  cases hleads with
  | here => exact hmisfits h
  | deeper _ helement => cases hleaf.symm.trans helement

private theorem isFirstMisfit_iff_of_fits (hordered : v.IsOrdered) (h : type.Fits v)
    (helement : type.element? = some element) :
    type.IsFirstMisfit v steps type' v' ↔
      ∃ front step item behind rest, v.places = front ++ (step, item) :: behind ∧
        steps = step :: rest ∧ (∀ place ∈ front, HasType element place.2) ∧
        element.IsFirstMisfit item rest type' v' := by
  constructor
  · rintro ⟨hleads, hmisfits, hpassed⟩
    cases hleads with
    | here => exact absurd h hmisfits
    | @deeper _ element' _ _ item _ step rest _ helement' hplace hrest =>
      obtain rfl : element = element' := Option.some.inj (helement.symm.trans helement')
      obtain ⟨front, behind, hplaces⟩ := List.append_of_mem hplace
      refine ⟨front, step, item, behind, rest, hplaces, rfl, fun place hfront ↦ ?_, hrest,
        hmisfits, fun p type₁ v₁ hprecedes hp ↦ ?_⟩
      · have hbefore := Value.before_of_mem_front hordered hplaces hfront
        have hmem : place ∈ v.places := hplaces ▸ List.mem_append_left _ hfront
        exact hpassed [place.1] element place.2 (.turn hbefore [] rest)
          (.deeper h helement hmem (.here element place.2))
      · exact hpassed (step :: p) type₁ v₁ (.deeper step hprecedes)
          (.deeper h helement hplace hp)
  · rintro ⟨front, step, item, behind, rest, hplaces, rfl, hfront, hleads, hmisfits, hpassed⟩
    have hplace : (step, item) ∈ v.places := by
      rw [hplaces]
      exact List.mem_append_right front List.mem_cons_self
    refine ⟨.deeper h helement hplace hleads, hmisfits, fun p type₁ v₁ hprecedes hp ↦ ?_⟩
    cases hp with
    | here => cases hprecedes
    | @deeper _ element' _ _ item' _ step' p' _ helement' hplace' hp =>
      obtain rfl : element = element' := Option.some.inj (helement.symm.trans helement')
      -- An earlier position turns off to an item in front, or lies within the same item.
      rcases Json.precedes_cons_iff.mp hprecedes with hbefore | ⟨rfl, hrest⟩
      · exact hp.hasType (hfront _ (Value.mem_front_of_before hordered hplaces hplace' hbefore))
      · obtain rfl : item' = item := Value.place_unique hordered hplace' hplace
        exact hpassed p' type₁ v₁ hrest hp

/-- A check fails with the first misfit. -/
theorem check_eq_error_iff {path : String} {e : SchemaError} (h : v.IsOrdered) :
    type.check path v = .error e ↔ ∃ steps type' v', type.IsFirstMisfit v steps type' v' ∧
      e = .ofMismatch (pathTo path steps) type' v' := by
  -- Lists and objects are checked place by place, and the places of an ordered value are in order:
  -- the first place that fails is that of the first misfit.
  induction type using elementInduction generalizing path v with
  | h type ih =>
    by_cases hfits : type.Fits v
    · cases helement : type.element? with
      | none =>
        rw [check_of_leaf hfits helement]
        refine iff_of_false nofun ?_
        rintro ⟨steps, type', v', hmisfit, -⟩
        exact not_isFirstMisfit_of_leaf hfits helement hmisfit
      | some element =>
        have hstep : ∀ (kept : Unit) (place : PathStep × Value) kept',
            element.check (path ++ place.1.text) place.2 = .ok kept' ↔
              HasType element place.2 ∧ kept' = (fun _ _ ↦ ()) kept place :=
          fun _ _ _ ↦ check_eq_ok_iff.trans (and_iff_left rfl).symm
        rw [check_of_fits hfits helement, foldlM_eq_error_iff hstep fun _ _ _ ↦ Iff.rfl]
        constructor
        · rintro ⟨front, ⟨step, item⟩, behind, hplaces, hfront, hfail⟩
          have hitem : item.IsOrdered :=
            h.of_mem_places (hplaces ▸ List.mem_append_right front List.mem_cons_self)
          obtain ⟨rest, type', v', hmisfit, rfl⟩ := (ih element helement hitem).mp hfail
          refine ⟨step :: rest, type', v', ?_, rfl⟩
          exact (isFirstMisfit_iff_of_fits h hfits helement).mpr
            ⟨front, step, item, behind, rest, hplaces, rfl, hfront, hmisfit⟩
        · rintro ⟨steps, type', v', hmisfit, rfl⟩
          obtain ⟨front, step, item, behind, rest, hplaces, rfl, hfront, hmisfit⟩ :=
            (isFirstMisfit_iff_of_fits h hfits helement).mp hmisfit
          have hitem : item.IsOrdered :=
            h.of_mem_places (hplaces ▸ List.mem_append_right front List.mem_cons_self)
          refine ⟨front, (step, item), behind, hplaces, hfront, ?_⟩
          exact (ih element helement hitem).mpr ⟨rest, type', v', hmisfit, rfl⟩
    · rw [check_of_not_fits hfits]
      constructor
      · intro he
        exact ⟨[], type, v, (isFirstMisfit_iff_of_not_fits hfits).mpr ⟨rfl, rfl, rfl⟩,
          (Except.error.inj he).symm⟩
      · rintro ⟨steps, type', v', hmisfit, rfl⟩
        obtain ⟨rfl, rfl, rfl⟩ := (isFirstMisfit_iff_of_not_fits hfits).mp hmisfit
        rfl

end RegionClient.FieldType

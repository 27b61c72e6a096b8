import Mathlib.Data.Set.List
import RegionClient.Proofs.Json.Position
import RegionClient.Schema

/-!
# Types of values

Which values have a type, told by rules and apart from how types are checked. A check is one look
at the value's outermost, and then the checks of what a list or an object holds, one after the
other (`check_of_fits`, `check_of_not_fits`). Main statement: a check accepts exactly the values of
its type (`check_eq_ok_iff`).
-/

namespace RegionClient

open Json (Value)

/-- The values of a type. -/
inductive HasType : FieldType → Value → Prop
  | any (v : Value) : HasType .any v
  | text (s : String) : HasType .text (.string s)
  | flag (b : Bool) : HasType .flag (.bool b)
  | number (n : Json.Number) : HasType .number (.number n)
  | integer (n : Json.Integer) : HasType .integer (.number (.integer n))
  | list {element : FieldType} {items : List Value} (h : ∀ item ∈ items, HasType element item) :
      HasType (.list element) (.array items)
  | map {element : FieldType} {entries : List (String × Value)}
      (h : ∀ entry ∈ entries, HasType element entry.2) : HasType (.map element) (.object entries)

/-- The lists of texts are the lists that texts make up. -/
theorem hasType_texts_iff {v : Value} :
    HasType (.list .text) v ↔ ∃ texts : List String, v = .array (texts.map .string) := by
  constructor
  · intro h
    cases h with
    | @list _ items h =>
      have hitems : items ∈ Set.range (List.map Value.string) := by
        rw [Set.range_list_map]
        intro item hmem
        cases h item hmem with
        | text s => exact ⟨s, rfl⟩
      obtain ⟨texts, rfl⟩ := hitems
      exact ⟨texts, rfl⟩
  · rintro ⟨texts, rfl⟩
    exact .list (List.forall_mem_map.mpr fun s _ ↦ .text s)

/-- The texts among texts are all of them. -/
theorem filterMap_text?_map_string (texts : List String) :
    (texts.map Value.string).filterMap Value.text? = texts := by
  rw [List.filterMap_map]
  exact List.filterMap_some

/-! ## Steps one after the other -/

section Sequence

variable {α β ε : Type} {step : β → α → Except ε β} {Passes : α → Prop} {next : β → α → β}

/-- What is made of a result fails as the result does. -/
theorem map_eq_error_iff {x : Except ε α} {f : α → β} {e : ε} :
    x.map f = .error e ↔ x = .error e := by
  cases x with
  | error e' => rw [Except.map, Except.error.injEq, Except.error.injEq]
  | ok a => exact iff_of_false nofun nofun

/-- What is made of a result succeeds if the result does. -/
theorem map_eq_ok_iff {x : Except ε α} {f : α → β} {b : β} :
    x.map f = .ok b ↔ ∃ a, x = .ok a ∧ b = f a := by
  cases x with
  | error e => exact iff_of_false nofun fun ⟨_, h, _⟩ ↦ nomatch h
  | ok a => rw [Except.map, Except.ok.injEq]; simp [eq_comm]

/-- Steps succeed if each passes. -/
theorem foldlM_eq_ok_iff
    (hstep : ∀ kept a kept', step kept a = .ok kept' ↔ Passes a ∧ kept' = next kept a)
    {as : List α} {kept kept' : β} :
    as.foldlM step kept = .ok kept' ↔ (∀ a ∈ as, Passes a) ∧ kept' = as.foldl next kept := by
  induction as generalizing kept with
  | nil => simp [pure, Except.pure, eq_comm]
  | cons a rest ih =>
    rw [List.foldlM_cons, List.foldl_cons, List.forall_mem_cons]
    cases ha : step kept a with
    | error e =>
      constructor
      · nofun
      · rintro ⟨⟨hpasses, -⟩, -⟩
        cases ha.symm.trans ((hstep kept a _).mpr ⟨hpasses, rfl⟩)
    | ok kept₁ =>
      obtain ⟨hpasses, rfl⟩ := (hstep kept a kept₁).mp ha
      rw [and_iff_right hpasses]
      exact ih

/-- Steps fail as the first does that does not pass. -/
theorem foldlM_eq_error_iff
    (hstep : ∀ kept a kept', step kept a = .ok kept' ↔ Passes a ∧ kept' = next kept a)
    {Fails : α → ε → Prop} (hfails : ∀ kept a e, step kept a = .error e ↔ Fails a e)
    {as : List α} {kept : β} {e : ε} :
    as.foldlM step kept = .error e ↔
      ∃ front a behind, as = front ++ a :: behind ∧ (∀ b ∈ front, Passes b) ∧ Fails a e := by
  induction as generalizing kept with
  | nil =>
    constructor
    · nofun
    · rintro ⟨front, a, behind, hsame, -⟩
      simp at hsame
  | cons a rest ih =>
    rw [List.foldlM_cons]
    cases ha : step kept a with
    | error e' =>
      constructor
      · intro h
        obtain rfl : e' = e := Except.error.inj h
        exact ⟨[], a, rest, rfl, nofun, (hfails kept a e').mp ha⟩
      · rintro ⟨front, b, behind, hsame, hfront, hfail⟩
        cases front with
        | nil =>
          obtain rfl : a = b := (List.cons.inj hsame).1
          exact congrArg _ (Except.error.inj (ha.symm.trans ((hfails kept a e).mpr hfail)))
        | cons c front =>
          obtain rfl : a = c := (List.cons.inj hsame).1
          have hpasses := hfront a List.mem_cons_self
          cases ha.symm.trans ((hstep kept a _).mpr ⟨hpasses, rfl⟩)
    | ok kept₁ =>
      have hpasses : Passes a := ((hstep kept a kept₁).mp ha).1
      refine ih.trans ⟨?_, ?_⟩
      · rintro ⟨front, b, behind, rfl, hfront, hfail⟩
        refine ⟨a :: front, b, behind, rfl, ?_, hfail⟩
        exact List.forall_mem_cons.mpr ⟨hpasses, hfront⟩
      · rintro ⟨front, b, behind, hsame, hfront, hfail⟩
        cases front with
        | nil =>
          obtain rfl : a = b := (List.cons.inj hsame).1
          cases ha.symm.trans ((hfails kept a e).mpr hfail)
        | cons c front =>
          exact ⟨front, b, behind, (List.cons.inj hsame).2,
            fun d hd ↦ hfront d (List.mem_cons_of_mem c hd), hfail⟩

end Sequence

namespace FieldType

/-- The type of what a list or an object holds. -/
def element? : FieldType → Option FieldType
  | list element => some element
  | map element => some element
  | _ => none

/-- The value is at its outermost what the type asks for; what a list or an object holds does not
count. -/
inductive Fits : FieldType → Value → Prop
  | any (v : Value) : Fits .any v
  | text (s : String) : Fits .text (.string s)
  | flag (b : Bool) : Fits .flag (.bool b)
  | number (n : Json.Number) : Fits .number (.number n)
  | integer (n : Json.Integer) : Fits .integer (.number (.integer n))
  | list (element : FieldType) (items : List Value) : Fits (.list element) (.array items)
  | map (element : FieldType) (entries : List (String × Value)) :
      Fits (.map element) (.object entries)

/-- What holds of a type if it holds of the type of what it holds, holds of all types. -/
theorem elementInduction {P : FieldType → Prop}
    (h : ∀ type, (∀ element, type.element? = some element → P element) → P type)
    (type : FieldType) : P type := by
  induction type with
  | list element ih => exact h _ fun _ helement ↦ Option.some.inj helement ▸ ih
  | map element ih => exact h _ fun _ helement ↦ Option.some.inj helement ▸ ih
  | _ => exact h _ nofun

/-- A value has a type if it fits and all that it holds has the type of what the type holds. -/
theorem hasType_iff {type : FieldType} {v : Value} :
    HasType type v ↔ type.Fits v ∧
      ∀ element, type.element? = some element → ∀ place ∈ v.places, HasType element place.2 := by
  constructor
  · intro h
    cases h with
    | list h =>
      refine ⟨.list _ _, fun _ helement ↦ ?_⟩
      rw [← Option.some.inj helement, ← List.forall_mem_map, Value.map_snd_places_array]
      exact h
    | map h =>
      refine ⟨.map _ _, fun _ helement ↦ ?_⟩
      rw [← Option.some.inj helement, ← List.forall_mem_map, Value.map_snd_places_object,
        List.forall_mem_map]
      exact h
    | any => exact ⟨.any v, nofun⟩
    | text s => exact ⟨.text s, nofun⟩
    | flag b => exact ⟨.flag b, nofun⟩
    | number n => exact ⟨.number n, nofun⟩
    | integer n => exact ⟨.integer n, nofun⟩
  · rintro ⟨hfits, hholds⟩
    cases hfits with
    | list element items =>
      have hitems := hholds element rfl
      rw [← List.forall_mem_map, Value.map_snd_places_array] at hitems
      exact .list hitems
    | map element entries =>
      have hentries := hholds element rfl
      rw [← List.forall_mem_map, Value.map_snd_places_object, List.forall_mem_map] at hentries
      exact .map hentries
    | any => exact .any v
    | text s => exact .text s
    | flag b => exact .flag b
    | number n => exact .number n
    | integer n => exact .integer n

/-! ## Checks -/

private theorem checkElements_eq (check : String → Value → Except SchemaError Unit) (path : String)
    (index : Nat) (items : List Value) :
    checkElements check path index items =
      ((items.zipIdx index).map fun (item, i) ↦ (Json.PathStep.element i, item)).foldlM
        (fun _ place ↦ check (path ++ place.1.text) place.2) () := by
  induction items generalizing index with
  | nil => rfl
  | cons item rest ih =>
    have hpath : elementPath path index = path ++ (Json.PathStep.element index).text := by
      simp only [elementPath, Json.PathStep.text, String.append_assoc]
    rw [checkElements, List.zipIdx_cons, List.map_cons, List.foldlM_cons, hpath, ih]

private theorem checkEntries_eq (check : String → Value → Except SchemaError Unit) (path : String)
    (entries : List (String × Value)) :
    checkEntries check path entries =
      (Value.object entries).places.foldlM
        (fun _ place ↦ check (path ++ place.1.text) place.2) () := by
  induction entries with
  | nil => rfl
  | cons entry rest ih =>
    have hpath : entryPath path entry.1 = path ++ (Json.PathStep.entry entry.1).text := by
      simp only [entryPath, Json.PathStep.text, String.append_assoc]
    rw [checkEntries, hpath, ih]
    rfl

/-- A value that does not fit is refused where it stands. -/
theorem check_of_not_fits {type : FieldType} {v : Value} (h : ¬ type.Fits v) (path : String) :
    type.check path v = .error (.ofMismatch path type v) := by
  unfold check
  split
  · exact absurd (.any v) h
  · exact absurd (.text _) h
  · exact absurd (.flag _) h
  · exact absurd (.number _) h
  · exact absurd (.integer _) h
  · exact absurd (.list _ _) h
  · exact absurd (.map _ _) h
  · rfl

/-- A value that fits a type without elements is accepted. -/
theorem check_of_leaf {type : FieldType} {v : Value} (h : type.Fits v) (hleaf : type.element? = none)
    (path : String) : type.check path v = .ok () := by
  cases h with
  | list => cases hleaf
  | map => cases hleaf
  | _ => rfl

/-- What a list or an object holds is checked one after the other. -/
theorem check_of_fits {type element : FieldType} {v : Value} (h : type.Fits v)
    (helement : type.element? = some element) (path : String) :
    type.check path v =
      v.places.foldlM (fun _ place ↦ element.check (path ++ place.1.text) place.2) () := by
  cases h with
  | list element' items =>
    rw [← Option.some.inj helement]
    exact checkElements_eq _ path 0 items
  | map element' entries =>
    rw [← Option.some.inj helement]
    exact checkEntries_eq _ path entries
  | _ => cases helement

/-- A check accepts exactly the values of its type. -/
theorem check_eq_ok_iff {type : FieldType} {path : String} {v : Value} :
    type.check path v = .ok () ↔ HasType type v := by
  induction type using elementInduction generalizing path v with
  | h type ih =>
    rw [hasType_iff]
    by_cases hfits : type.Fits v
    · rw [and_iff_right hfits]
      cases helement : type.element? with
      | none => exact iff_of_true (check_of_leaf hfits helement path) nofun
      | some element =>
        have hstep : ∀ (kept : Unit) (place : Json.PathStep × Value) kept',
            element.check (path ++ place.1.text) place.2 = .ok kept' ↔
              HasType element place.2 ∧ kept' = (fun _ _ ↦ ()) kept place :=
          fun _ _ _ ↦ (ih element helement).trans (and_iff_left rfl).symm
        rw [check_of_fits hfits helement, foldlM_eq_ok_iff hstep]
        constructor
        · rintro ⟨hplaces, -⟩ element' helement'
          rw [← Option.some.inj helement']
          exact hplaces
        · exact fun hplaces ↦ ⟨hplaces element rfl, rfl⟩
    · rw [check_of_not_fits hfits]
      exact iff_of_false nofun fun h ↦ hfits h.1

end FieldType

end RegionClient

import Mathlib.Data.Finset.Card
import Mathlib.Data.List.Sort
import RegionClient.Capabilities
import RegionClient.Proofs.Json.Grammar

/-!
# Laws of capabilities

What a set collects from a list of names: each of them once, in the order of their bytes, when it is
asked, counted, gone through or printed. Main statements: the set of the names in a list collects
them (`collects_ofList`), and a set that collects names is told by them (`Collects.eq_of_mem_iff`).
-/

namespace RegionClient.Capabilities

open Text

variable {c c' : Capabilities} {name : String} {names names' : List String}

/-- A set collects names: it has just these, each counted once, goes through them in the order of
their bytes, and is printed as a list of them in this order. -/
structure Collects (c : Capabilities) (names : List String) : Prop where
  contains (name : String) : c.contains name ↔ name ∈ names
  size : c.size = names.toFinset.card
  mem (name : String) : name ∈ c.toList ↔ name ∈ names
  increasing : c.toList.Pairwise fun name name' ↦ Utf8.ofString name < Utf8.ofString name'
  text : Json.Spells (Utf8.ofString c.toText) (.array (c.toList.map .string))

/-- A set has the names that it goes through. -/
theorem contains_iff : c.contains name ↔ name ∈ c.toList := List.contains_iff_mem

/-- An inserted name joins the others. -/
theorem mem_insert : name ∈ (c.insert name').toList ↔ name = name' ∨ name ∈ c.toList := mem_place

/-- The set of the names in a list has just these. -/
theorem mem_ofList : name ∈ (ofList names).toList ↔ name ∈ names := by
  have hfold : ∀ c : Capabilities,
      name ∈ (names.foldl insert c).toList ↔ name ∈ names ∨ name ∈ c.toList := by
    induction names with
    | nil => simp
    | cons first names ih =>
      intro c
      rw [List.foldl_cons, ih, mem_insert, List.mem_cons, ← or_assoc, or_comm (a := name ∈ names)]
  rw [ofList, hfold]
  simp [empty]

/-- No name is gone through twice. -/
theorem nodup (c : Capabilities) : c.toList.Nodup :=
  c.sorted.imp Std.ne_of_lt

/-- Names are gone through in the order of their bytes. -/
theorem increasing (c : Capabilities) :
    c.toList.Pairwise fun name name' ↦ Utf8.ofString name < Utf8.ofString name' :=
  c.sorted.imp Utf8.ofString_lt_ofString_iff.mpr

/-- A set is printed as a list of its names. -/
theorem spells_toText (c : Capabilities) :
    Json.Spells (Utf8.ofString c.toText) (.array (c.toList.map .string)) := by
  rw [toText, Utf8.ofString, String.toList_ofList]
  exact Json.spells_printTexts c.toList

/-- Sets of the same names are equal. -/
theorem eq_of_mem_iff (h : ∀ name, name ∈ c.toList ↔ name ∈ c'.toList) : c = c' := by
  obtain ⟨list, hsorted⟩ := c
  obtain ⟨list', hsorted'⟩ := c'
  have : Std.Irrefl fun (a b : String) ↦ a < b := ⟨String.lt_irrefl⟩
  have : Std.Antisymm fun (a b : String) ↦ a < b :=
    ⟨fun _ _ hab hba ↦ absurd hba (String.lt_asymm hab)⟩
  obtain rfl : list = list' := List.Pairwise.eq_of_mem_iff hsorted hsorted' fun name ↦ h name
  rfl

/-- The set of the names in a list collects them. -/
theorem collects_ofList (names : List String) : (ofList names).Collects names where
  contains _ := contains_iff.trans mem_ofList
  size := by
    rw [size, ← List.toFinset_card_of_nodup (nodup _)]
    congr 1
    ext name
    rw [List.mem_toFinset, List.mem_toFinset, mem_ofList]
  mem _ := mem_ofList
  increasing := increasing _
  text := spells_toText _

/-- A set that collects names is told by them, whatever their order and however often each is
listed. -/
theorem Collects.eq_of_mem_iff (h : c.Collects names) (h' : c'.Collects names')
    (hsame : ∀ name, name ∈ names ↔ name ∈ names') : c = c' :=
  Capabilities.eq_of_mem_iff fun name ↦ (h.mem name).trans ((hsame name).trans (h'.mem name).symm)

end RegionClient.Capabilities

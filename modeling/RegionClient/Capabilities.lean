import RegionClient.Json.Record

/-!
# Capabilities

The set of names by which a controller says what it can do. The names are held in strictly
increasing order, so that equal sets have equal lists.
-/

namespace RegionClient

/-- Distinct names in increasing order. Models `CapabilitySet`. -/
structure Capabilities where
  toList : List String := []
  sorted : toList.Pairwise (· < ·) := by simp
  deriving DecidableEq

namespace Capabilities

/-- Puts a name in its place, unless it is there. -/
def place (name : String) : List String → List String
  | [] => [name]
  | x :: rest =>
    if name < x then name :: x :: rest
    else if name = x then x :: rest
    else x :: place name rest

/-- A placed name joins the others. -/
theorem mem_place {name x : String} {names : List String} :
    x ∈ place name names ↔ x = name ∨ x ∈ names := by
  induction names with
  | nil => simp [place]
  | cons y rest ih =>
    simp only [place]
    split
    · simp
    · split
      · next h => subst h; simp
      · simp only [List.mem_cons, ih]
        exact or_left_comm

/-- A name is put in its place. -/
theorem pairwise_place {name : String} {names : List String} (h : names.Pairwise (· < ·)) :
    (place name names).Pairwise (· < ·) := by
  induction names with
  | nil => simp [place]
  | cons y rest ih =>
    obtain ⟨hy, hrest⟩ := List.pairwise_cons.mp h
    simp only [place]
    split
    · next hlt =>
      refine List.pairwise_cons.mpr ⟨fun z hz ↦ ?_, h⟩
      rcases List.mem_cons.mp hz with rfl | hz
      · exact hlt
      · exact String.lt_trans hlt (hy z hz)
    · split
      · exact h
      · next hlt hne =>
        refine List.pairwise_cons.mpr ⟨fun z hz ↦ ?_, ih hrest⟩
        rcases mem_place.mp hz with rfl | hz
        · exact Std.lt_of_le_of_ne (Std.not_lt.mp hlt) (Ne.symm hne)
        · exact hy z hz

/-- The set of no names. Models `CapabilitySet.new`. -/
def empty : Capabilities := {}

/-- The set with one more name. -/
def insert (c : Capabilities) (name : String) : Capabilities :=
  ⟨place name c.toList, pairwise_place c.sorted⟩

/-- The set of the names in a list. Models `CapabilitySet.from_iter`. -/
def ofList (names : List String) : Capabilities := names.foldl insert empty

/-- Whether a name is in the set. Models `CapabilitySet.contains`. -/
def contains (c : Capabilities) (name : String) : Bool := c.toList.contains name

/-- The number of names. Models `CapabilitySet.len`. -/
def size (c : Capabilities) : Nat := c.toList.length

/-- The set that a document lists. Models `CapabilitySet.deserialize`. -/
def parse (document : Bytes) : Except Json.Error Capabilities :=
  ofList <$> Json.parseTexts document

/-- The names as a JSON list. Models `CapabilitySet.serialize`. -/
def toText (c : Capabilities) : String := String.ofList (Json.printTexts c.toList)

/-- The names between quotes. -/
def describe (c : Capabilities) : String :=
  "CapabilitySet(" ++ Text.quoteList "\x7b" "\x7d" c.toList ++ ")"

end Capabilities

end RegionClient

import RegionClient.Proofs.Json.Order
import RegionClient.Text.Numeral

/-!
# Positions in values

The places inside a value, and the order in which they are visited: elements of lists by index,
entries of objects by key, depth first. Main statement: the places of an ordered value stand in
that order (`pairwise_places`), so a step leads to one item only (`place_unique`).
-/

namespace RegionClient.Json

/-- One step into a value: to an element of a list, or to an entry of an object. -/
inductive PathStep where
  | element (index : Nat)
  | entry (key : String)
  deriving DecidableEq

namespace PathStep

/-- The text of a step. -/
def text : PathStep → String
  | element index => "[" ++ String.ofList (Text.Numeral.decimal index) ++ "]"
  | entry key => "." ++ key

/-- One step is visited before another. -/
inductive Before : PathStep → PathStep → Prop
  | element {i j : Nat} (h : i < j) : Before (.element i) (.element j)
  | entry {k k' : String} (h : k < k') : Before (.entry k) (.entry k')

private theorem not_before_self (s : PathStep) : ¬ s.Before s := by
  intro h
  cases h with
  | element h => exact Nat.lt_irrefl _ h
  | entry h => exact String.lt_irrefl _ h

/-- No step is visited both before and after another. -/
theorem Before.asymm {s s' : PathStep} (h : s.Before s') : ¬ s'.Before s := by
  intro h'
  cases h with
  | element h =>
    cases h' with
    | element h' => exact Nat.lt_asymm h h'
  | entry h =>
    cases h' with
    | entry h' => exact String.lt_asymm h h'

end PathStep

/-- The path of a position below a name. -/
def pathTo (name : String) (steps : List PathStep) : String :=
  steps.foldl (fun path step ↦ path ++ step.text) name

/-- A position is done with before another is come to: where the two part, it takes the earlier
step. -/
inductive Precedes : List PathStep → List PathStep → Prop
  | turn {s s' : PathStep} (h : s.Before s') (p p' : List PathStep) : Precedes (s :: p) (s' :: p')
  | deeper (s : PathStep) {p p' : List PathStep} (h : Precedes p p') : Precedes (s :: p) (s :: p')

/-- What a position precedes that begins with a step, it precedes at that step or behind it. -/
theorem precedes_cons_iff {s s' : PathStep} {p p' : List PathStep} :
    Precedes (s :: p) (s' :: p') ↔ s.Before s' ∨ s = s' ∧ Precedes p p' := by
  constructor
  · intro h
    cases h with
    | turn h => exact .inl h
    | deeper _ h => exact .inr ⟨rfl, h⟩
  · rintro (h | ⟨rfl, h⟩)
    · exact .turn h p p'
    · exact .deeper s h

namespace Value

/-- The places of a list or an object, in the order in which they are visited. -/
def places : Value → List (PathStep × Value)
  | array items => items.zipIdx.map fun (item, index) ↦ (.element index, item)
  | object entries => entries.map fun (key, item) ↦ (.entry key, item)
  | _ => []

/-- The elements of a list are at its places. -/
theorem map_snd_places_array (items : List Value) : (array items).places.map (·.2) = items := by
  rw [places, List.map_map]
  exact List.zipIdx_map_fst 0 items

/-- The values of an object are at its places. -/
theorem map_snd_places_object (entries : List (String × Value)) :
    (object entries).places.map (·.2) = entries.map (·.2) := by
  rw [places, List.map_map]
  rfl

/-- The places of an ordered value stand in the order in which they are visited. -/
theorem pairwise_places {v : Value} (h : v.IsOrdered) : v.places.Pairwise (·.1.Before ·.1) := by
  cases h with
  | @array items _ =>
    rw [places, List.pairwise_map]
    have hindex : (items.zipIdx.map Prod.snd).Pairwise (· < ·) := by
      rw [List.zipIdx_map_snd]
      exact List.pairwise_lt_range'
    exact (List.pairwise_map.mp hindex).imp .element
  | object hkeys _ =>
    rw [places, List.pairwise_map]
    exact hkeys.imp .entry
  | _ => exact .nil

/-- The items in an ordered value are ordered. -/
theorem IsOrdered.of_mem_places {v item : Value} {step : PathStep} (h : v.IsOrdered)
    (hplace : (step, item) ∈ v.places) : item.IsOrdered := by
  have hmem : item ∈ v.places.map (·.2) := List.mem_map_of_mem hplace
  cases h with
  | array h =>
    rw [map_snd_places_array] at hmem
    exact h item hmem
  | object _ h =>
    rw [map_snd_places_object] at hmem
    obtain ⟨entry, hentry, rfl⟩ := List.mem_map.mp hmem
    exact h entry hentry
  | _ => cases hplace

section Places

variable {v item : Value} {step : PathStep} {front behind : List (PathStep × Value)}
  {place : PathStep × Value}

/-- What stands in front of a place is visited before it. -/
theorem before_of_mem_front (h : v.IsOrdered) (hplaces : v.places = front ++ (step, item) :: behind)
    (hplace : place ∈ front) : place.1.Before step := by
  have hpairs := pairwise_places h
  rw [hplaces] at hpairs
  exact (List.pairwise_append.mp hpairs).2.2 place hplace _ List.mem_cons_self

private theorem before_of_mem_behind (h : v.IsOrdered)
    (hplaces : v.places = front ++ (step, item) :: behind) (hplace : place ∈ behind) :
    step.Before place.1 := by
  have hpairs := pairwise_places h
  rw [hplaces] at hpairs
  exact (List.pairwise_cons.mp (List.pairwise_append.mp hpairs).2.1).1 place hplace

/-- What is visited before a place stands in front of it. -/
theorem mem_front_of_before (h : v.IsOrdered) (hplaces : v.places = front ++ (step, item) :: behind)
    (hplace : place ∈ v.places) (hbefore : place.1.Before step) : place ∈ front := by
  rw [hplaces] at hplace
  rcases List.mem_append.mp hplace with hfront | hmem
  · exact hfront
  · rcases List.mem_cons.mp hmem with rfl | hbehind
    · exact absurd hbefore step.not_before_self
    · exact absurd hbefore (before_of_mem_behind h hplaces hbehind).asymm

/-- A step leads to one item only. -/
theorem place_unique {item' : Value} (h : v.IsOrdered) (hplace : (step, item) ∈ v.places)
    (hplace' : (step, item') ∈ v.places) : item = item' := by
  obtain ⟨front, behind, hplaces⟩ := List.append_of_mem hplace'
  rw [hplaces] at hplace
  rcases List.mem_append.mp hplace with hfront | hmem
  · exact absurd (before_of_mem_front h hplaces hfront) step.not_before_self
  · rcases List.mem_cons.mp hmem with hsame | hbehind
    · exact (Prod.mk.inj hsame).2
    · exact absurd (before_of_mem_behind h hplaces hbehind) step.not_before_self

end Places

end Value

end RegionClient.Json

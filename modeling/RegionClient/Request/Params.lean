import RegionClient.Text.Form
import RegionClient.Text.Numeral

/-!
# Parameters

The ordered parameters of a request. Keys may repeat. Most values are added only if they say
something: empty texts, the number zero and unset flags are left out.
-/

namespace RegionClient

/-- Pairs of a key and a value, in order. Models `Params`. -/
structure Params where
  toList : List (String × String) := []
  deriving DecidableEq, Repr

namespace Params

/-- No parameters. -/
def empty : Params := {}

/-- Adds a pair at the end. Models `Params.add`. -/
def add (p : Params) (key value : String) : Params := ⟨p.toList ++ [(key, value)]⟩

/-- Adds an integer in decimal digits. -/
def addInteger (p : Params) (key : String) (value : Int) : Params :=
  p.add key (String.ofList (Text.Numeral.signed value))

/-- Adds a text unless it is empty. Models `Params.maybe_add`. -/
def addText (p : Params) (key value : String) : Params :=
  if value.isEmpty then p else p.add key value

/-- Adds the texts in order, each unless it is empty. Models `Params.maybe_add_many`. -/
def addTexts (p : Params) (key : String) (values : List String) : Params :=
  values.foldl (·.addText key ·) p

/-- Adds an integer unless it is zero. Models `Params.maybe_add_int`. -/
def addCount (p : Params) (key : String) (value : Int) : Params :=
  if value = 0 then p else p.addInteger key value

/-- Adds `true` if the flag is set. Models `Params.maybe_add_bool`. -/
def addFlag (p : Params) (key : String) (value : Bool) : Params :=
  if value then p.add key "true" else p

/-- The values of a key, in order. Models `Params.get_all`. -/
def getAll (p : Params) (key : String) : List String :=
  p.toList.filterMap fun (k, v) ↦ if k = key then some v else none

/-- The form-encoded text. Models `Params.encode`. -/
def encode (p : Params) : String := String.ofList (Text.Form.encode p.toList)

/-- The parameters that a form-encoded text spells. Models `Params.decode`. -/
def decode (s : String) : Params := ⟨Text.Form.decode s.toList⟩

/-- Adding a pair appends it. -/
@[simp] theorem toList_add (p : Params) (key value : String) :
    (p.add key value).toList = p.toList ++ [(key, value)] := rfl

/-- Adding a text appends it if it is not empty. -/
theorem toList_addText (p : Params) (key value : String) :
    (p.addText key value).toList =
      p.toList ++ if value.isEmpty then [] else [(key, value)] := by
  unfold addText
  split <;> simp

/-- Adding a flag appends it if it is set. -/
theorem toList_addFlag (p : Params) (key : String) (value : Bool) :
    (p.addFlag key value).toList = p.toList ++ if value then [(key, "true")] else [] := by
  unfold addFlag
  split <;> simp

end Params

end RegionClient

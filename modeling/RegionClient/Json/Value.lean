import RegionClient.Number.Binary64

/-!
# JSON values

Decoded documents. A number is an integer when it was written as one and fits 64 bits, signed or
unsigned, and a binary float otherwise. The entries of an object are sorted by key, and each key
occurs once; `insertEntry` keeps both.
-/

namespace RegionClient.Json

/-- The integers that fit 64 bits, with or without a sign. -/
structure Integer where
  value : Int
  lower : -Nat.pow 2 63 ≤ value := by decide
  upper : value < Nat.pow 2 64 := by decide
  deriving DecidableEq

/-- The integer of a value that fits. -/
def Integer.ofInt? (n : Int) : Option Integer :=
  if h : -Nat.pow 2 63 ≤ n ∧ n < Nat.pow 2 64 then some ⟨n, h.1, h.2⟩ else none

/-- A number as it was written. -/
inductive Number where
  | integer (n : Integer)
  | float (x : Binary64)
  deriving DecidableEq

/-- A decoded document. -/
inductive Value where
  | null
  | bool (b : Bool)
  | number (n : Number)
  | string (s : String)
  | array (items : List Value)
  | object (entries : List (String × Value))

instance : Inhabited Value := ⟨.null⟩

/-- The entries with `value` under `key`, in key order; what stood there is replaced. -/
def insertEntry {α : Type} (key : String) (value : α) :
    List (String × α) → List (String × α)
  | [] => [(key, value)]
  | (k, v) :: rest =>
    if key < k then (key, value) :: (k, v) :: rest
    else if key = k then (key, value) :: rest
    else (k, v) :: insertEntry key value rest

/-- The value stored under `key`. -/
def lookupEntry {α : Type} (key : String) : List (String × α) → Option α
  | [] => none
  | (k, v) :: rest => if key = k then some v else lookupEntry key rest

/-- What was put under a key is found there. -/
theorem lookupEntry_insertEntry_self {α : Type} (key : String) (value : α)
    (entries : List (String × α)) :
    lookupEntry key (insertEntry key value entries) = some value := by
  induction entries with
  | nil => simp [insertEntry, lookupEntry]
  | cons e rest ih =>
    obtain ⟨k, v⟩ := e
    simp only [insertEntry]
    split
    · simp [lookupEntry]
    · split
      · simp [lookupEntry]
      · next hne => simp [lookupEntry, hne, ih]

/-- What stands under another key is not disturbed. -/
theorem lookupEntry_insertEntry_of_ne {α : Type} {key other : String} (h : other ≠ key)
    (value : α) (entries : List (String × α)) :
    lookupEntry other (insertEntry key value entries) = lookupEntry other entries := by
  induction entries with
  | nil => simp [insertEntry, lookupEntry, h]
  | cons e rest ih =>
    obtain ⟨k, v⟩ := e
    simp only [insertEntry]
    split
    · simp [lookupEntry, h]
    · split
      · next heq => subst heq; simp [lookupEntry, h]
      · simp only [lookupEntry, ih]

namespace Value

/-- The name of a value's type in messages. -/
def typeName : Value → String
  | null => "null"
  | bool _ => "bool"
  | number _ => "number"
  | string _ => "string"
  | array _ => "list"
  | object _ => "object"

/-- The text that a value is. -/
def text? : Value → Option String
  | string s => some s
  | _ => none

/-- The integer `n`, for numbers known to fit. -/
def ofNat (n : Nat) : Value :=
  match Integer.ofInt? n with
  | some i => number (.integer i)
  | none => null

end Value

end RegionClient.Json

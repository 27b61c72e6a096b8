import Mathlib.Data.List.DropRight
import RegionClient.Json.Record
import RegionClient.Proofs.Json.Lexemes

/-!
# The grammar of documents

Which bytes are which value, told as a relation between a value, the bytes it stands at the front
of and the bytes behind it. Words, marks and nesting are told here; numbers and strings are what
their readers take. Main statements: the readers of values take just what stands there
(`readersTake`), so that a document is read as the value it spells (`parse_eq_ok_iff`), an object
from its members in the order of the document (`spells_object_iff`), of which the last counts under
each key (`lookupEntry_collect`), and a printed list of strings spells these strings
(`spells_printTexts`).
-/

namespace RegionClient.Json

/-- An element begins at once if it is the first, and behind a comma otherwise. -/
inductive Begins : (first : Bool) → (bytes start : Bytes) → Prop
  | first {bytes : Bytes} : Begins true bytes bytes
  | later {bytes start : Bytes} (hcomma : skipSpace bytes = 0x2C :: start) :
      Begins false bytes start

/-- What members leave of entries and of each other, in the order of the document: each replaces
what stood before under its key. -/
def collect (entries members : List (String × Value)) : List (String × Value) :=
  members.foldl (fun entries member ↦ insertEntry member.1 member.2 entries) entries

mutual

/-- A value stands at the front of the bytes, behind blanks; no more than `depth` lists and objects
are open in it at once. -/
inductive Stands : (depth : Nat) → Value → (bytes rest : Bytes) → Prop
  | null {depth : Nat} {bytes rest : Bytes}
      (h : skipSpace bytes = 0x6E :: (wordNull ++ rest)) : Stands depth .null bytes rest
  | true {depth : Nat} {bytes rest : Bytes}
      (h : skipSpace bytes = 0x74 :: (wordTrue ++ rest)) : Stands depth (.bool true) bytes rest
  | false {depth : Nat} {bytes rest : Bytes}
      (h : skipSpace bytes = 0x66 :: (wordFalse ++ rest)) : Stands depth (.bool false) bytes rest
  | negative {depth : Nat} {n : Number} {bytes behind rest : Bytes}
      (h : skipSpace bytes = 0x2D :: behind) (hread : readNumber true behind = .ok (n, rest)) :
      Stands depth (.number n) bytes rest
  | number {depth : Nat} {n : Number} {b : UInt8} {bytes behind rest : Bytes}
      (h : skipSpace bytes = b :: behind) (hdigit : (digit? b).isSome)
      (hread : readNumber false (b :: behind) = .ok (n, rest)) : Stands depth (.number n) bytes rest
  | string {depth : Nat} {s : String} {bytes behind rest : Bytes}
      (h : skipSpace bytes = 0x22 :: behind) (hread : readString behind = .ok (s, rest)) :
      Stands depth (.string s) bytes rest
  | array {depth : Nat} {items : List Value} {bytes behind rest : Bytes}
      (h : skipSpace bytes = 0x5B :: behind) (hitems : ItemsStand depth true items behind rest) :
      Stands (depth + 1) (.array items) bytes rest
  | object {depth : Nat} {members : List (String × Value)} {bytes behind rest : Bytes}
      (h : skipSpace bytes = 0x7B :: behind)
      (hmembers : MembersStand depth true members behind rest) :
      Stands (depth + 1) (.object (collect [] members)) bytes rest

/-- Items stand at the front of the bytes, up to the closing bracket of their list. -/
inductive ItemsStand : (depth : Nat) → (first : Bool) → List Value → (bytes rest : Bytes) → Prop
  | nil {depth : Nat} {first : Bool} {bytes rest : Bytes} (h : skipSpace bytes = 0x5D :: rest) :
      ItemsStand depth first [] bytes rest
  | cons {depth : Nat} {first : Bool} {v : Value} {items : List Value}
      {bytes start behind rest : Bytes} (hbegins : Begins first bytes start)
      (hvalue : Stands depth v start behind) (hitems : ItemsStand depth false items behind rest) :
      ItemsStand depth first (v :: items) bytes rest

/-- Members stand at the front of the bytes, up to the closing brace of their object. -/
inductive MembersStand :
    (depth : Nat) → (first : Bool) → List (String × Value) → (bytes rest : Bytes) → Prop
  | nil {depth : Nat} {first : Bool} {bytes rest : Bytes} (h : skipSpace bytes = 0x7D :: rest) :
      MembersStand depth first [] bytes rest
  | cons {depth : Nat} {first : Bool} {key : String} {v : Value} {members : List (String × Value)}
      {bytes start quoted colon place behind rest : Bytes} (hbegins : Begins first bytes start)
      (hquote : skipSpace start = 0x22 :: quoted) (hkey : readString quoted = .ok (key, colon))
      (hcolon : skipSpace colon = 0x3A :: place) (hvalue : Stands depth v place behind)
      (hmembers : MembersStand depth false members behind rest) :
      MembersStand depth first ((key, v) :: members) bytes rest

end

variable {steps depth : Nat} {first : Bool} {v : Value} {bytes start behind rest : Bytes}

/-! ## Blanks -/

/-- Blanks are passed over once. -/
@[simp]
theorem skipSpace_skipSpace (bytes : Bytes) : skipSpace (skipSpace bytes) = skipSpace bytes :=
  List.dropWhile_idempotent isSpace _

/-- What stands behind a mark is shorter than what the mark stands in. -/
theorem length_of_skipSpace_eq_cons {b : UInt8} (h : skipSpace bytes = b :: rest) :
    rest.length < bytes.length := by
  have hle := length_skipSpace_le bytes
  rw [h] at hle
  exact hle

private theorem Stands.of_skipSpace_eq {bytes' : Bytes} (hstands : Stands depth v bytes rest)
    (hblanks : skipSpace bytes' = skipSpace bytes) : Stands depth v bytes' rest := by
  cases hstands with
  | null h => exact .null (hblanks.trans h)
  | true h => exact .true (hblanks.trans h)
  | false h => exact .false (hblanks.trans h)
  | negative h hread => exact .negative (hblanks.trans h) hread
  | number h hdigit hread => exact .number (hblanks.trans h) hdigit hread
  | string h hread => exact .string (hblanks.trans h) hread
  | array h hitems => exact .array (hblanks.trans h) hitems
  | object h hmembers => exact .object (hblanks.trans h) hmembers

/-- A value that stands behind blanks stands there without them too. -/
theorem stands_skipSpace_iff : Stands depth v (skipSpace bytes) rest ↔ Stands depth v bytes rest :=
  ⟨fun h ↦ h.of_skipSpace_eq (skipSpace_skipSpace bytes).symm,
    fun h ↦ h.of_skipSpace_eq (skipSpace_skipSpace bytes)⟩

/-! ## Progress -/

/-- Where an element begins, there are no more bytes than before. -/
theorem Begins.length_le (h : Begins first bytes start) : start.length ≤ bytes.length := by
  cases h with
  | first => exact Nat.le_refl _
  | later hcomma => exact Nat.le_of_lt (length_of_skipSpace_eq_cons hcomma)

mutual

/-- A value takes bytes. -/
theorem Stands.length_lt {depth : Nat} {v : Value} {bytes rest : Bytes} :
    Stands depth v bytes rest → rest.length < bytes.length
  | .null h | .true h | .false h => by
    have := length_of_skipSpace_eq_cons h
    simp only [List.length_append] at this
    omega
  | .negative h hread =>
    Nat.lt_trans (length_of_readNumber hread) (length_of_skipSpace_eq_cons h)
  | .number h _ hread =>
    Nat.lt_of_lt_of_le (length_of_readNumber hread) (h ▸ length_skipSpace_le _)
  | .string h hread =>
    Nat.lt_trans (length_of_readString hread) (length_of_skipSpace_eq_cons h)
  | .array h hitems => Nat.lt_trans hitems.length_lt (length_of_skipSpace_eq_cons h)
  | .object h hmembers => Nat.lt_trans hmembers.length_lt (length_of_skipSpace_eq_cons h)

/-- Items take bytes. -/
theorem ItemsStand.length_lt {depth : Nat} {first : Bool} {items : List Value}
    {bytes rest : Bytes} : ItemsStand depth first items bytes rest → rest.length < bytes.length
  | .nil h => length_of_skipSpace_eq_cons h
  | .cons hbegins hvalue hitems =>
    Nat.lt_trans hitems.length_lt (Nat.lt_of_lt_of_le hvalue.length_lt hbegins.length_le)

/-- Members take bytes. -/
theorem MembersStand.length_lt {depth : Nat} {first : Bool} {members : List (String × Value)}
    {bytes rest : Bytes} : MembersStand depth first members bytes rest → rest.length < bytes.length
  | .nil h => length_of_skipSpace_eq_cons h
  | .cons hbegins hquote hkey hcolon hvalue hmembers => by
    have hstart := hbegins.length_le
    have hquoted := length_of_skipSpace_eq_cons hquote
    have hread := length_of_readString hkey
    have hplace := length_of_skipSpace_eq_cons hcolon
    have hbehind := hvalue.length_lt
    have hrest := hmembers.length_lt
    omega

end

/-! ## Marks -/

/-- A value begins with a byte that is no closing bracket. -/
theorem Stands.begins (h : Stands depth v bytes rest) :
    ∃ b behind, skipSpace bytes = b :: behind ∧ b ≠ 0x5D := by
  cases h with
  | number hb hdigit => exact ⟨_, _, hb, ne_of_isDigit hdigit (by decide)⟩
  | null hb | true hb | false hb | negative hb | string hb | array hb | object hb =>
    exact ⟨_, _, hb, by decide⟩

/-- An item is looked for where it begins. -/
theorem nextElement_of_begins {b : UInt8} (hbegins : Begins first bytes start)
    (hstart : skipSpace start = b :: behind) (hb : b ≠ 0x5D) :
    nextElement first bytes = .ok (some (skipSpace start)) := by
  cases hbegins with
  | first => simp [nextElement, hstart, hb]
  | later hcomma => simp [nextElement, hcomma, hstart, hb]

/-- A list ends at its closing bracket. -/
theorem nextElement_of_closed (h : skipSpace bytes = 0x5D :: rest) :
    nextElement first bytes = .ok none := by
  simp [nextElement, h]

private theorem of_nextElement {next : Option Bytes} (h : nextElement first bytes = .ok next) :
    (next = none ∧ ∃ rest, skipSpace bytes = 0x5D :: rest) ∨
      ∃ start, next = some (skipSpace start) ∧ Begins first bytes start := by
  unfold nextElement at h
  split at h
  · cases h
  next b rest hbytes =>
  split at h
  · next hb =>
    cases h
    exact .inl ⟨rfl, rest, hb ▸ hbytes⟩
  split at h
  · next hfirst =>
    cases h
    exact .inr ⟨bytes, congrArg some hbytes.symm, hfirst ▸ .first⟩
  next hfirst =>
  split at h
  · next hb =>
    split at h
    · cases h
    next c behind hbehind =>
    split at h
    · cases h
    cases h
    refine .inr ⟨rest, congrArg some hbehind.symm, ?_⟩
    rw [Bool.eq_false_iff.mpr hfirst]
    exact .later (hb ▸ hbytes)
  · cases h

/-- A key is looked for where its member begins. -/
theorem nextKey_of_begins {quoted : Bytes} (hbegins : Begins first bytes start)
    (hquote : skipSpace start = 0x22 :: quoted) : nextKey first bytes = .ok (some quoted) := by
  cases hbegins with
  | first => simp [nextKey, hquote]
  | later hcomma => simp [nextKey, hcomma, hquote]

/-- An object ends at its closing brace. -/
theorem nextKey_of_closed (h : skipSpace bytes = 0x7D :: rest) :
    nextKey first bytes = .ok none := by
  simp [nextKey, h]

private theorem of_nextKey {next : Option Bytes} (h : nextKey first bytes = .ok next) :
    (next = none ∧ ∃ rest, skipSpace bytes = 0x7D :: rest) ∨
      ∃ start quoted, next = some quoted ∧ Begins first bytes start ∧
        skipSpace start = 0x22 :: quoted := by
  unfold nextKey at h
  split at h
  · cases h
  next b rest hbytes =>
  split at h
  · next hb =>
    cases h
    exact .inl ⟨rfl, rest, hb ▸ hbytes⟩
  split at h
  · next hfirst =>
    split at h
    · next hb =>
      cases h
      exact .inr ⟨bytes, rest, rfl, hfirst ▸ .first, hb ▸ hbytes⟩
    · cases h
  next hfirst =>
  split at h
  · next hb =>
    split at h
    · cases h
    next c behind hbehind =>
    split at h
    · next hc =>
      cases h
      refine .inr ⟨rest, behind, rfl, ?_, hc ▸ hbehind⟩
      rw [Bool.eq_false_iff.mpr hfirst]
      exact .later (hb ▸ hbytes)
    split at h
    · cases h
    · cases h
  · cases h

/-- The colon is read where it stands. -/
theorem readColon_eq_ok_iff {place : Bytes} :
    readColon bytes = .ok place ↔ skipSpace bytes = 0x3A :: place := by
  unfold readColon
  cases skipSpace bytes with
  | nil => simp
  | cons b rest =>
    dsimp only
    split
    · next hb => simp [hb]
    · next hb => simp [hb]

private theorem closeList_closed : closeList (0x5D :: rest) = .ok rest := rfl

private theorem closeObject_closed : closeObject (0x7D :: rest) = .ok rest := rfl

/-! ## Readers -/

private theorem of_bind_eq_ok {ε β γ : Type} {x : Except ε β} {f : β → Except ε γ} {c : γ}
    (h : x >>= f = .ok c) : ∃ b, x = .ok b ∧ f b = .ok c := by
  cases x with
  | error e => cases h
  | ok b => exact ⟨b, rfl, h⟩

/-- Within a bound on their calls, the readers take what stands in all bytes that are short for the
bound. A reader that may open `depth + 1` lists and objects opens no more than `depth` of them. -/
structure ReadersTake (steps : Nat) : Prop where
  -- Two calls for each byte: the reader of items hands its bytes on before any of them is taken.
  value {depth : Nat} {v : Value} {bytes rest : Bytes} (h : 2 * bytes.length + 1 ≤ steps) :
    readValue steps (depth + 1) bytes = .ok (v, rest) ↔ Stands depth v bytes rest
  items {depth : Nat} {first : Bool} {items : List Value} {bytes left : Bytes}
    (h : 2 * bytes.length + 2 ≤ steps) :
    readElements steps (depth + 1) first bytes = .ok (items, left) ↔
      ∃ rest, left = 0x5D :: rest ∧ ItemsStand depth first items bytes rest
  members {depth : Nat} {first : Bool} {entries entries' : List (String × Value)}
    {bytes left : Bytes} (h : 2 * bytes.length + 2 ≤ steps) :
    readEntries steps (depth + 1) first entries bytes = .ok (entries', left) ↔
      ∃ members rest, left = 0x7D :: rest ∧ MembersStand depth first members bytes rest ∧
        entries' = collect entries members

private theorem stands_of_readValue (htake : ReadersTake steps) (hsteps : 2 * bytes.length ≤ steps)
    (h : readValue (steps + 1) (depth + 1) bytes = .ok (v, rest)) : Stands depth v bytes rest := by
  rw [readValue] at h
  split at h
  · cases h
  next b behind hbytes =>
  -- The cases are those of the first byte, in the order in which the reader looks for them.
  have hshort := length_of_skipSpace_eq_cons hbytes
  split at h
  · next hb =>
    obtain ⟨_, hword, h⟩ := of_bind_eq_ok h
    cases h
    exact .null (by rw [hbytes, hb, readWord_eq_ok_iff.mp hword])
  split at h
  · next hb =>
    obtain ⟨_, hword, h⟩ := of_bind_eq_ok h
    cases h
    exact .true (by rw [hbytes, hb, readWord_eq_ok_iff.mp hword])
  split at h
  · next hb =>
    obtain ⟨_, hword, h⟩ := of_bind_eq_ok h
    cases h
    exact .false (by rw [hbytes, hb, readWord_eq_ok_iff.mp hword])
  split at h
  · next hb =>
    obtain ⟨_, hread, h⟩ := of_bind_eq_ok h
    cases h
    exact .negative (hb ▸ hbytes) hread
  split at h
  · next hdigit =>
    obtain ⟨_, hread, h⟩ := of_bind_eq_ok h
    cases h
    exact .number hbytes hdigit hread
  split at h
  · next hb =>
    obtain ⟨_, hread, h⟩ := of_bind_eq_ok h
    cases h
    exact .string (hb ▸ hbytes) hread
  split at h
  · next hb =>
    split at h
    · cases h
    next hdepth =>
    obtain ⟨depth, rfl⟩ : ∃ k, depth = k + 1 := ⟨depth - 1, by omega⟩
    obtain ⟨⟨items, left⟩, hitems, h⟩ := of_bind_eq_ok h
    obtain ⟨_, hclose, h⟩ := of_bind_eq_ok h
    obtain ⟨closed, rfl, hstand⟩ := (htake.items (by omega)).mp hitems
    rw [closeList_closed] at hclose
    cases hclose
    cases h
    exact .array (hb ▸ hbytes) hstand
  split at h
  · next hb =>
    split at h
    · cases h
    next hdepth =>
    obtain ⟨depth, rfl⟩ : ∃ k, depth = k + 1 := ⟨depth - 1, by omega⟩
    obtain ⟨⟨entries, left⟩, hentries, h⟩ := of_bind_eq_ok h
    obtain ⟨_, hclose, h⟩ := of_bind_eq_ok h
    obtain ⟨members, closed, rfl, hstand, rfl⟩ := (htake.members (by omega)).mp hentries
    rw [closeObject_closed] at hclose
    cases hclose
    cases h
    exact .object (hb ▸ hbytes) hstand
  · cases h

private theorem readValue_of_stands (htake : ReadersTake steps) (hsteps : 2 * bytes.length ≤ steps)
    (h : Stands depth v bytes rest) :
    readValue (steps + 1) (depth + 1) bytes = .ok (v, rest) := by
  cases h with
  | null h =>
    simp only [readValue, h, readWord_eq_ok_iff.mpr rfl]
    rfl
  | true h =>
    simp only [readValue, h, readWord_eq_ok_iff.mpr rfl]
    rfl
  | false h =>
    simp only [readValue, h, readWord_eq_ok_iff.mpr rfl]
    rfl
  | negative h hread =>
    simp only [readValue, h, hread]
    rfl
  | @number _ _ b _ _ _ h hdigit hread =>
    -- The marks that are looked for before digits are none.
    have hne : ∀ mark : UInt8, digit? mark = none → b ≠ mark := fun _ ↦ ne_of_isDigit hdigit
    simp only [readValue, h, hread, hne 0x6E (by decide), hne 0x74 (by decide),
      hne 0x66 (by decide), hne 0x2D (by decide), if_false, if_pos hdigit]
    rfl
  | string h hread =>
    simp only [readValue, h, hread]
    rfl
  | array h hitems =>
    have hshort := length_of_skipSpace_eq_cons h
    have hread := (htake.items (by omega)).mpr ⟨_, rfl, hitems⟩
    simp only [readValue, h, Nat.add_sub_cancel, hread]
    rfl
  | object h hmembers =>
    have hshort := length_of_skipSpace_eq_cons h
    have hread : readEntries _ _ true [] _ = _ :=
      (htake.members (by omega)).mpr ⟨_, _, rfl, hmembers, rfl⟩
    simp only [readValue, h, Nat.add_sub_cancel, hread]
    rfl

private theorem readElements_eq_ok_iff (htake : ReadersTake steps)
    (hsteps : 2 * bytes.length + 1 ≤ steps) {items : List Value} {left : Bytes} :
    readElements (steps + 1) (depth + 1) first bytes = .ok (items, left) ↔
      ∃ rest, left = 0x5D :: rest ∧ ItemsStand depth first items bytes rest := by
  rw [readElements]
  constructor
  · intro h
    obtain ⟨next, hnext, h⟩ := of_bind_eq_ok h
    obtain ⟨rfl, rest, hclosed⟩ | ⟨start, rfl, hbegins⟩ := of_nextElement hnext
    · cases h
      exact ⟨rest, hclosed, .nil hclosed⟩
    · obtain ⟨⟨item, behind⟩, hitem, h⟩ := of_bind_eq_ok h
      obtain ⟨⟨items, left⟩, hitems, h⟩ := of_bind_eq_ok h
      cases h
      have hstart := hbegins.length_le
      have hblanks := length_skipSpace_le start
      have hvalue := stands_skipSpace_iff.mp ((htake.value (by omega)).mp hitem)
      have hbehind := hvalue.length_lt
      obtain ⟨rest, hleft, hstand⟩ := (htake.items (by omega)).mp hitems
      exact ⟨rest, hleft, .cons hbegins hvalue hstand⟩
  · rintro ⟨rest, rfl, hstand⟩
    cases hstand with
    | nil h =>
      rw [nextElement_of_closed h, ← h]
      rfl
    | @cons _ _ _ _ _ start _ _ hbegins hvalue hitems =>
      have hstart := hbegins.length_le
      have hblanks := length_skipSpace_le start
      obtain ⟨b, _, hb, hopen⟩ := hvalue.begins
      have hbehind := hvalue.length_lt
      have hread := (htake.value (by omega)).mpr (stands_skipSpace_iff.mpr hvalue)
      have hrest := (htake.items (by omega)).mpr ⟨rest, rfl, hitems⟩
      rw [nextElement_of_begins hbegins hb hopen]
      simp only [bind, Except.bind, hread, hrest]
      rfl

private theorem readEntries_eq_ok_iff (htake : ReadersTake steps)
    (hsteps : 2 * bytes.length + 1 ≤ steps) {entries entries' : List (String × Value)}
    {left : Bytes} :
    readEntries (steps + 1) (depth + 1) first entries bytes = .ok (entries', left) ↔
      ∃ members rest, left = 0x7D :: rest ∧ MembersStand depth first members bytes rest ∧
        entries' = collect entries members := by
  rw [readEntries]
  constructor
  · intro h
    obtain ⟨next, hnext, h⟩ := of_bind_eq_ok h
    obtain ⟨rfl, rest, hclosed⟩ | ⟨start, quoted, rfl, hbegins, hquote⟩ := of_nextKey hnext
    · cases h
      exact ⟨[], rest, hclosed, .nil hclosed, rfl⟩
    · obtain ⟨⟨key, colon⟩, hkey, h⟩ := of_bind_eq_ok h
      obtain ⟨place, hcolon, h⟩ := of_bind_eq_ok h
      obtain ⟨⟨v, behind⟩, hvalue, h⟩ := of_bind_eq_ok h
      have hcolon := readColon_eq_ok_iff.mp hcolon
      have hstart := hbegins.length_le
      have hquoted := length_of_skipSpace_eq_cons hquote
      have hread := length_of_readString hkey
      have hplace := length_of_skipSpace_eq_cons hcolon
      have hvalue := (htake.value (by omega)).mp hvalue
      have hbehind := hvalue.length_lt
      obtain ⟨members, rest, hleft, hstand, rfl⟩ := (htake.members (by omega)).mp h
      exact ⟨(key, v) :: members, rest, hleft,
        .cons hbegins hquote hkey hcolon hvalue hstand, rfl⟩
  · rintro ⟨members, rest, rfl, hstand, rfl⟩
    cases hstand with
    | nil h =>
      rw [nextKey_of_closed h, ← h]
      rfl
    | cons hbegins hquote hkey hcolon hvalue hmembers =>
      have hstart := hbegins.length_le
      have hquoted := length_of_skipSpace_eq_cons hquote
      have hread := length_of_readString hkey
      have hplace := length_of_skipSpace_eq_cons hcolon
      have hbehind := hvalue.length_lt
      have hread := (htake.value (by omega)).mpr hvalue
      rw [nextKey_of_begins hbegins hquote]
      simp only [bind, Except.bind, hkey, readColon_eq_ok_iff.mpr hcolon, hread]
      exact (htake.members (by omega)).mpr ⟨_, rest, rfl, hmembers, rfl⟩

/-- The readers take what stands there, whatever the bound on their calls. -/
theorem readersTake (steps : Nat) : ReadersTake steps := by
  induction steps with
  | zero => exact ⟨fun h ↦ absurd h (by omega), fun h ↦ absurd h (by omega),
      fun h ↦ absurd h (by omega)⟩
  | succ steps ih =>
    refine ⟨fun h ↦ ⟨stands_of_readValue ih (by omega), readValue_of_stands ih (by omega)⟩,
      fun h ↦ readElements_eq_ok_iff ih (by omega), fun h ↦ readEntries_eq_ok_iff ih (by omega)⟩

/-! ## Documents -/

/-- A document spells a value: it stands there, with nothing but blanks behind it. -/
def Spells (document : Bytes) (v : Value) : Prop :=
  ∃ rest, Stands (depthLimit - 1) v document rest ∧ skipSpace rest = []

/-- A document spells an object of these members, which stand in it in this order. -/
def SpellsMembers (document : Bytes) (members : List (String × Value)) : Prop :=
  ∃ behind rest, skipSpace document = 0x7B :: behind ∧
    MembersStand (depthLimit - 2) true members behind rest ∧ skipSpace rest = []

private theorem finish_eq_ok_iff : finish bytes = .ok () ↔ skipSpace bytes = [] := by
  unfold finish
  cases skipSpace bytes <;> simp

private theorem of_mapError_eq_ok {ε ε' α : Type} {f : ε → ε'} {x : Except ε α} {a : α}
    (h : x.mapError f = .ok a) : x = .ok a := by
  cases x with
  | error e => cases h
  | ok b => exact congrArg Except.ok (Except.ok.inj h)

/-- A document is read if its reader leaves nothing but blanks. -/
theorem readDocument_eq_ok {α : Type} {reader : Bytes → Except Fault (α × Bytes)}
    {document : Bytes} {a : α} (hread : reader document = .ok (a, rest))
    (hblank : skipSpace rest = []) : readDocument reader document = .ok a := by
  rw [readDocument, hread]
  simp only [bind, Except.bind, finish_eq_ok_iff.mpr hblank]
  rfl

/-- A document is read as a value just if it spells that value. -/
theorem parse_eq_ok_iff {document : Bytes} :
    Value.parse document = .ok v ↔ Spells document v := by
  have htake : ∀ {v rest}, readValue (2 * document.length + 2) depthLimit document = .ok (v, rest) ↔
      Stands (depthLimit - 1) v document rest :=
    (readersTake _).value (Nat.le_succ _)
  unfold Value.parse
  constructor
  · intro h
    unfold readDocument at h
    obtain ⟨⟨v', rest⟩, hread, h⟩ := of_bind_eq_ok (of_mapError_eq_ok h)
    obtain ⟨_, hfinish, h⟩ := of_bind_eq_ok h
    cases h
    exact ⟨rest, htake.mp hread, finish_eq_ok_iff.mp hfinish⟩
  · rintro ⟨rest, hstands, hblank⟩
    exact readDocument_eq_ok (htake.mpr hstands) hblank

/-- The objects that a document spells are those of the members in it. -/
theorem spells_object_iff {document : Bytes} {entries : List (String × Value)} :
    Spells document (.object entries) ↔
      ∃ members, SpellsMembers document members ∧ entries = collect [] members := by
  constructor
  · rintro ⟨rest, hstands, hblank⟩
    cases hstands with
    | object h hmembers => exact ⟨_, ⟨_, rest, h, hmembers, hblank⟩, rfl⟩
  · rintro ⟨members, ⟨behind, rest, h, hmembers, hblank⟩, rfl⟩
    exact ⟨rest, .object h hmembers, hblank⟩

/-- The last member under a key. -/
def IsLast (key : String) (v : Value) (members : List (String × Value)) : Prop :=
  ∃ before behind, members = before ++ (key, v) :: behind ∧ ∀ member ∈ behind, member.1 ≠ key

variable {key : String} {member : String × Value} {members entries : List (String × Value)}

private theorem isLast_cons_iff :
    IsLast key v (member :: members) ↔
      IsLast key v members ∨ member = (key, v) ∧ ∀ member ∈ members, member.1 ≠ key := by
  constructor
  · rintro ⟨before, behind, hmembers, hother⟩
    cases before with
    | nil =>
      obtain ⟨hmember, rfl⟩ := List.cons.inj hmembers
      exact .inr ⟨hmember, hother⟩
    | cons first before => exact .inl ⟨before, behind, (List.cons.inj hmembers).2, hother⟩
  · rintro (⟨before, behind, rfl, hother⟩ | ⟨rfl, hother⟩)
    · exact ⟨member :: before, behind, rfl, hother⟩
    · exact ⟨[], members, rfl, hother⟩

private theorem lookupEntry_collect_onto :
    lookupEntry key (collect entries members) = some v ↔
      IsLast key v members ∨
        (∀ member ∈ members, member.1 ≠ key) ∧ lookupEntry key entries = some v := by
  induction members generalizing entries with
  | nil => simp [collect, IsLast]
  | cons member members ih =>
    obtain ⟨k, v'⟩ := member
    have hcollect : collect entries ((k, v') :: members) =
        collect (insertEntry k v' entries) members := rfl
    rw [hcollect, ih, isLast_cons_iff, or_assoc, List.forall_mem_cons]
    refine or_congr_right ?_
    by_cases hkey : key = k
    · subst hkey
      simp [lookupEntry_insertEntry_self, and_comm]
    · simp [lookupEntry_insertEntry_of_ne hkey, Ne.symm hkey]

/-- Of the members under a key, the last counts. -/
theorem lookupEntry_collect :
    lookupEntry key (collect [] members) = some v ↔ IsLast key v members := by
  rw [lookupEntry_collect_onto]
  simp [lookupEntry]

/-! ## Printed lists -/

open Text

/-- A printed string stands where it was printed. -/
theorem stands_printString (s : String) (rest : Bytes) :
    Stands depth (.string s) (Utf8.encode (printString s) ++ rest) rest := by
  obtain ⟨behind, hbytes, hread⟩ := readString_printString s
  rw [hbytes]
  exact .string rfl (hread rest)

/-- Printed items stand one by one, each but the first behind a comma. -/
theorem commaSeparated_cons (text : List Char) (texts : List (List Char)) :
    commaSeparated (text :: texts) = text ++ texts.flatMap (',' :: ·) := by
  induction texts generalizing text with
  | nil => simp [commaSeparated]
  | cons next texts ih =>
    have hcons : commaSeparated (text :: next :: texts) =
        text ++ ',' :: commaSeparated (next :: texts) := by simp [commaSeparated]
    rw [hcons, ih, List.flatMap_cons, List.cons_append]

private theorem itemsStand_printed (items : List String) (rest : Bytes) :
    ItemsStand depth false (items.map .string)
      (Utf8.encode ((items.map printString).flatMap (',' :: ·)) ++ 0x5D :: rest) rest := by
  induction items with
  | nil => exact .nil rfl
  | cons s items ih =>
    rw [List.map_cons, List.map_cons, List.flatMap_cons, List.cons_append, Utf8.encode_cons,
      Utf8.encode_append, List.append_assoc, List.append_assoc]
    exact .cons (.later rfl) (stands_printString s _) ih

/-- A printed list of strings stands where it was printed. -/
theorem stands_printTexts (items : List String) (rest : Bytes) :
    Stands (depth + 1) (.array (items.map .string)) (Utf8.encode (printTexts items) ++ rest)
      rest := by
  have hbytes : Utf8.encode (printTexts items) ++ rest =
      0x5B :: (Utf8.encode (commaSeparated (items.map printString)) ++ 0x5D :: rest) := by
    rw [printTexts, Datum.print, List.cons_append, Utf8.encode_cons, Utf8.encode_append,
      List.append_assoc, List.append_assoc]
    rfl
  rw [hbytes]
  refine .array rfl ?_
  cases items with
  | nil => exact .nil rfl
  | cons s items =>
    rw [List.map_cons, List.map_cons, commaSeparated_cons, Utf8.encode_append, List.append_assoc]
    exact .cons .first (stands_printString s _) (itemsStand_printed items rest)

/-- A printed list of strings spells these strings. -/
theorem spells_printTexts (items : List String) :
    Spells (Utf8.encode (printTexts items)) (.array (items.map .string)) :=
  ⟨[], List.append_nil (Utf8.encode (printTexts items)) ▸ stands_printTexts items [], rfl⟩

end RegionClient.Json

import RegionClient.Proofs.Json.Grammar
import RegionClient.Proofs.Json.Numerals

/-!
# Reading the data of fields

The readers of single fields take what stands there, by the grammar of documents. `Kind.Holds` says
which data a kind of field may hold. Main statements: the data of a field are read from the value
that spells them (`readKind_of_stands`), and are printed as that value (`stands_print`).
-/

namespace RegionClient.Json

open Text

/-- What fields of a kind may hold. A number has at most the bits of the field, and at most 64. -/
inductive Kind.Holds : Kind → Datum → Prop
  | text (s : String) : Holds .text (.text s)
  | optionalText (s : Option String) : Holds .optionalText (.optionalText s)
  | texts (items : List String) : Holds .texts (.texts items)
  | flag (b : Bool) : Holds .flag (.flag b)
  | natural {bits n : Nat} (hbits : n < Nat.pow 2 bits) (h : n < Nat.pow 2 64) :
    Holds (.natural bits) (.natural n)

attribute [simp] Kind.Holds.text Kind.Holds.optionalText Kind.Holds.texts Kind.Holds.flag

/-- The numbers of a 32-bit type are held by fields of 32 bits. -/
@[simp]
theorem Kind.holds_uint32 (n : UInt32) : (Kind.natural 32).Holds (.natural n.toNat) :=
  .natural n.toNat_lt (Nat.lt_trans n.toNat_lt (by decide))

/-- The numbers of a 64-bit type are held by fields of 64 bits. -/
@[simp]
theorem Kind.holds_uint64 (n : UInt64) : (Kind.natural 64).Holds (.natural n.toNat) :=
  .natural n.toNat_lt n.toNat_lt

/-- The value that data are printed as. A number that is too large for an integer has none. -/
def Datum.value : Datum → Value
  | text s => .string s
  | optionalText none => .null
  | optionalText (some s) => .string s
  | texts items => .array (items.map .string)
  | flag b => .bool b
  | natural n => if h : n < Nat.pow 2 64 then .number (.integer (.ofNatural n h)) else .null

variable {steps depth : Nat} {first : Bool} {bytes rest : Bytes}

/-! ## Reading -/

/-- A string is read where it stands. -/
theorem readText_of_stands {s : String} (h : Stands depth (.string s) bytes rest) :
    readText bytes = .ok (s, rest) := by
  cases h with
  | string h hread =>
    rw [readText, h]
    exact hread

private theorem readTextElements_of_itemsStand {items : List String} (hsteps : bytes.length < steps)
    (h : ItemsStand depth first (items.map .string) bytes rest) :
    readTextElements steps first bytes = .ok (items, 0x5D :: rest) := by
  induction items generalizing steps first bytes with
  | nil =>
    obtain ⟨steps, rfl⟩ : ∃ k, steps = k + 1 := ⟨steps - 1, by omega⟩
    cases h with
    | nil h =>
      rw [readTextElements, nextElement_of_closed h, ← h]
      rfl
  | cons s items ih =>
    obtain ⟨steps, rfl⟩ : ∃ k, steps = k + 1 := ⟨steps - 1, by omega⟩
    cases h with
    | cons hbegins hvalue hitems =>
      obtain ⟨b, _, hb, hopen⟩ := hvalue.begins
      have hstart := hbegins.length_le
      have hbehind := hvalue.length_lt
      have hread := readText_of_stands (stands_skipSpace_iff.mpr hvalue)
      have hmore : readTextElements steps false _ = _ := ih (by omega) hitems
      rw [readTextElements, nextElement_of_begins hbegins hb hopen]
      simp only [bind, Except.bind, hread, hmore]
      rfl

/-- A list of strings is read where it stands. -/
theorem readTexts_of_stands {items : List String}
    (h : Stands depth (.array (items.map .string)) bytes rest) :
    readTexts bytes = .ok (items, rest) := by
  cases h with
  | @array _ _ _ behind _ h hitems =>
    have hread := readTextElements_of_itemsStand (Nat.lt_succ_self behind.length) hitems
    rw [readTexts, h]
    simp only [bind, Except.bind, hread]
    rfl

/-- The strings of a list are read from a document that spells it. -/
theorem parseTexts_of_spells {items : List String} {document : Bytes}
    (h : Spells document (.array (items.map .string))) : parseTexts document = .ok items := by
  obtain ⟨rest, hstands, hblank⟩ := h
  exact readDocument_eq_ok (readTexts_of_stands hstands) hblank

/-- A flag is read where it stands. -/
theorem readFlag_of_stands {b : Bool} (h : Stands depth (.bool b) bytes rest) :
    readFlag bytes = .ok (b, rest) := by
  cases h with
  | true h =>
    simp only [readFlag, h, readWord_eq_ok_iff.mpr rfl]
    rfl
  | false h =>
    simp only [readFlag, h, readWord_eq_ok_iff.mpr rfl]
    rfl

private theorem toNatural_ofNatural {n bits : Nat} (hbits : n < Nat.pow 2 bits)
    (h : n < Nat.pow 2 64) :
    (Number.integer (.ofNatural n h)).toNatural bits = .ok n := by
  have hbounds : 0 ≤ (n : Int) ∧ (n : Int) < (Nat.pow 2 bits : Nat) :=
    ⟨Int.natCast_nonneg n, Int.ofNat_lt.mpr hbits⟩
  exact if_pos hbounds

/-- A number is read where it stands. -/
theorem readNatural_of_stands {n bits : Nat} (hbits : n < Nat.pow 2 bits) (h : n < Nat.pow 2 64)
    (hstands : Stands depth (.number (.integer (.ofNatural n h))) bytes rest) :
    readNatural bits bytes = .ok (n, rest) := by
  cases hstands with
  | negative hmark hread =>
    rw [readNatural, hmark]
    simp only [if_true, hread, bind, Except.bind, toNatural_ofNatural hbits h]
    rfl
  | @number _ _ b _ _ _ hmark hdigit hread =>
    have hminus : b ≠ 0x2D := ne_of_isDigit hdigit (by decide)
    rw [readNatural, hmark]
    simp only [hminus, if_false, hdigit, if_true, hread, bind, Except.bind,
      toNatural_ofNatural hbits h]
    rfl

/-- The data of a field are read where their value stands. -/
theorem readKind_of_stands {kind : Kind} {datum : Datum} (hkind : kind.Holds datum)
    (h : Stands depth datum.value bytes rest) : readKind kind bytes = .ok (datum, rest) := by
  cases hkind with
  | text s =>
    rw [readKind, readText_of_stands h]
    rfl
  | texts items =>
    rw [readKind, readTexts_of_stands h]
    rfl
  | flag b =>
    rw [readKind, readFlag_of_stands h]
    rfl
  | natural hbits hfits =>
    rw [Datum.value, dif_pos hfits] at h
    rw [readKind, readNatural_of_stands hbits hfits h]
    rfl
  | optionalText s =>
    cases s with
    | none =>
      cases h with
      | null h =>
        simp only [readKind, h, readWord_eq_ok_iff.mpr rfl]
        rfl
    | some s =>
      have hread := readText_of_stands (stands_skipSpace_iff.mpr h)
      cases h with
      | string h _ =>
        rw [h] at hread
        simp only [readKind, h]
        split
        · next hnull => cases hnull
        · rw [hread]
          rfl

/-! ## Printing -/

private theorem stands_print_flag (b : Bool) (rest : Bytes) :
    Stands depth (.bool b) (Utf8.encode (toString b).toList ++ rest) rest := by
  cases b with
  | true => exact .true rfl
  | false => exact .false rfl

private theorem stands_print_natural {n : Nat} (h : n < Nat.pow 2 64) (hrest : EndsNumber rest) :
    Stands depth (.number (.integer (.ofNatural n h)))
      (Utf8.encode (Numeral.decimal n) ++ rest) rest := by
  obtain ⟨b, behind, hbytes, hdigit, hread⟩ := readNumber_decimal h
  have hblank : ¬ isSpace b = true := by
    intro hspace
    simp only [isSpace, Bool.or_eq_true, beq_iff_eq] at hspace
    rcases hspace with ((hspace | hspace) | hspace) | hspace <;>
      exact ne_of_isDigit hdigit (by decide) hspace
  rw [hbytes]
  refine .number ?_ hdigit (hread rest hrest)
  rw [List.cons_append, skipSpace, List.dropWhile_cons_of_neg hblank]

/-- The data of a field are printed as their value, in front of bytes that end numbers. -/
theorem stands_print {kind : Kind} {datum : Datum} (hkind : kind.Holds datum)
    (hrest : EndsNumber rest) :
    Stands (depth + 1) datum.value (Utf8.encode datum.print ++ rest) rest := by
  cases hkind with
  | text s => exact stands_printString s rest
  | texts items => exact stands_printTexts items rest
  | flag b => exact stands_print_flag b rest
  | natural _ h =>
    rw [Datum.value, dif_pos h]
    exact stands_print_natural h hrest
  | optionalText s =>
    cases s with
    | none => exact .null rfl
    | some s => exact stands_printString s rest

end RegionClient.Json

import Mathlib.Data.List.Sort
import RegionClient.Proofs.Json.Grammar

/-!
# The order of entries

Entries in key order, each key once. Main statements: such entries are told by what is found under
each key (`InKeyOrder.eq_of_lookupEntry`), insertion keeps the order (`InKeyOrder.insertEntry`), and
in every document that is read, all objects have their entries in order (`isOrdered_of_parse`).
-/

namespace RegionClient.Json

variable {α : Type} {key : String} {value : α} {entries entries' : List (String × α)}

/-- The entries are in key order, and each key occurs once. -/
def InKeyOrder (entries : List (String × α)) : Prop := entries.Pairwise (·.1 < ·.1)

/-! ## Entries -/

private theorem mem_insertEntry {entry : String × α} (h : entry ∈ insertEntry key value entries) :
    entry = (key, value) ∨ entry ∈ entries := by
  induction entries with
  | nil => exact .inl (List.mem_singleton.mp h)
  | cons first rest ih =>
    rw [insertEntry] at h
    split at h
    · exact List.mem_cons.mp h
    · split at h
      · exact (List.mem_cons.mp h).imp_right (List.mem_cons_of_mem first)
      · rcases List.mem_cons.mp h with rfl | h
        · exact .inr List.mem_cons_self
        · exact (ih h).imp_right (List.mem_cons_of_mem first)

/-- Insertion keeps the order. -/
theorem InKeyOrder.insertEntry (h : InKeyOrder entries) :
    InKeyOrder (insertEntry key value entries) := by
  induction entries with
  | nil => exact List.pairwise_singleton _ _
  | cons first rest ih =>
    obtain ⟨hfirst, hrest⟩ := List.pairwise_cons.mp h
    rw [Json.insertEntry]
    split
    · next hlt =>
      refine List.pairwise_cons.mpr ⟨fun entry hentry ↦ ?_, h⟩
      rcases List.mem_cons.mp hentry with rfl | hentry
      · exact hlt
      · exact String.lt_trans hlt (hfirst entry hentry)
    · split
      · next heq =>
        refine List.pairwise_cons.mpr ⟨fun entry hentry ↦ ?_, hrest⟩
        rw [heq]
        exact hfirst entry hentry
      · next hlt hne =>
        refine List.pairwise_cons.mpr ⟨fun entry hentry ↦ ?_, ih hrest⟩
        rcases mem_insertEntry hentry with rfl | hentry
        · exact Std.lt_of_le_of_ne (Std.not_lt.mp hlt) (Ne.symm hne)
        · exact hfirst entry hentry

private theorem mem_of_lookupEntry (h : lookupEntry key entries = some value) :
    (key, value) ∈ entries := by
  induction entries with
  | nil => cases h
  | cons first rest ih =>
    rw [lookupEntry] at h
    split at h
    · next heq =>
      rw [heq, ← Option.some.inj h]
      exact List.mem_cons_self
    · exact List.mem_cons_of_mem first (ih h)

/-- Where each key occurs once, every entry is found under its key. -/
theorem InKeyOrder.lookupEntry_eq_some_iff (h : InKeyOrder entries) :
    lookupEntry key entries = some value ↔ (key, value) ∈ entries := by
  refine ⟨mem_of_lookupEntry, fun hmem ↦ ?_⟩
  induction entries with
  | nil => cases hmem
  | cons first rest ih =>
    obtain ⟨hfirst, hrest⟩ := List.pairwise_cons.mp h
    rw [lookupEntry]
    rcases List.mem_cons.mp hmem with rfl | hmem
    · exact if_pos rfl
    · have hlt : first.1 < key := hfirst (key, value) hmem
      have hne : key ≠ first.1 := by
        intro heq
        rw [heq] at hlt
        exact String.lt_irrefl _ hlt
      rw [if_neg hne]
      exact ih hrest hmem

/-- Entries in key order are told by what is found under each key. -/
theorem InKeyOrder.eq_of_lookupEntry (h : InKeyOrder entries) (h' : InKeyOrder entries')
    (hsame : ∀ key, lookupEntry key entries = lookupEntry key entries') : entries = entries' := by
  have : Std.Irrefl fun (a b : String × α) ↦ a.1 < b.1 := ⟨fun a ↦ String.lt_irrefl a.1⟩
  have : Std.Antisymm fun (a b : String × α) ↦ a.1 < b.1 :=
    ⟨fun _ _ hab hba ↦ absurd hba (String.lt_asymm hab)⟩
  apply List.Pairwise.eq_of_mem_iff h h'
  rintro ⟨key, value⟩
  rw [← h.lookupEntry_eq_some_iff, hsame, h'.lookupEntry_eq_some_iff]

/-! ## Documents -/

/-- All objects in a value have their entries in key order. -/
inductive Value.IsOrdered : Value → Prop
  | null : IsOrdered .null
  | bool (b : Bool) : IsOrdered (.bool b)
  | number (n : Number) : IsOrdered (.number n)
  | string (s : String) : IsOrdered (.string s)
  | array {items : List Value} (h : ∀ item ∈ items, IsOrdered item) : IsOrdered (.array items)
  | object {entries : List (String × Value)} (hkeys : InKeyOrder entries)
      (h : ∀ entry ∈ entries, IsOrdered entry.2) : IsOrdered (.object entries)

/-- What is found in an ordered object is ordered. -/
theorem Value.IsOrdered.of_lookupEntry {entries : List (String × Value)} {v : Value}
    (h : (Value.object entries).IsOrdered) (hfound : lookupEntry key entries = some v) :
    v.IsOrdered := by
  cases h with
  | object _ hvalues => exact hvalues (key, v) (mem_of_lookupEntry hfound)

/-- An ordered object stays ordered when an ordered value is put in. -/
theorem Value.IsOrdered.insertEntry {entries : List (String × Value)} {v : Value}
    (h : (Value.object entries).IsOrdered) (hv : v.IsOrdered) :
    (Value.object (insertEntry key v entries)).IsOrdered := by
  cases h with
  | object hkeys hvalues =>
    refine .object hkeys.insertEntry fun entry hentry ↦ ?_
    rcases mem_insertEntry hentry with rfl | hentry
    · exact hv
    · exact hvalues entry hentry

private theorem Value.IsOrdered.collect {entries members : List (String × Value)}
    (h : (Value.object entries).IsOrdered) (hmembers : ∀ member ∈ members, member.2.IsOrdered) :
    (Value.object (collect entries members)).IsOrdered := by
  induction members generalizing entries with
  | nil => exact h
  | cons member members ih =>
    obtain ⟨hmember, hmembers⟩ := List.forall_mem_cons.mp hmembers
    exact ih (h.insertEntry hmember) hmembers

mutual

/-- A value that stands in a document is ordered. -/
theorem Stands.isOrdered {depth : Nat} {v : Value} {bytes rest : Bytes} :
    Stands depth v bytes rest → v.IsOrdered
  | .null _ => .null
  | .true _ => .bool true
  | .false _ => .bool false
  | .negative _ _ => .number _
  | .number _ _ _ => .number _
  | .string _ _ => .string _
  | .array _ hitems => .array hitems.isOrdered
  | .object _ hmembers => Value.IsOrdered.collect (.object .nil nofun) hmembers.isOrdered

/-- Items that stand in a list are ordered. -/
theorem ItemsStand.isOrdered {depth : Nat} {first : Bool} {items : List Value}
    {bytes rest : Bytes} : ItemsStand depth first items bytes rest → ∀ item ∈ items, item.IsOrdered
  | .nil _ => nofun
  | .cons _ hvalue hitems => List.forall_mem_cons.mpr ⟨hvalue.isOrdered, hitems.isOrdered⟩

/-- Members that stand in an object have ordered values. -/
theorem MembersStand.isOrdered {depth : Nat} {first : Bool} {members : List (String × Value)}
    {bytes rest : Bytes} :
    MembersStand depth first members bytes rest → ∀ member ∈ members, member.2.IsOrdered
  | .nil _ => nofun
  | .cons _ _ _ _ hvalue hmembers =>
    List.forall_mem_cons.mpr ⟨hvalue.isOrdered, hmembers.isOrdered⟩

end

/-- In every document that is read, all objects have their entries in key order. -/
theorem isOrdered_of_parse {document : Bytes} {v : Value} (h : Value.parse document = .ok v) :
    v.IsOrdered := by
  obtain ⟨_, hstands, -⟩ := parse_eq_ok_iff.mp h
  exact hstands.isOrdered

end RegionClient.Json

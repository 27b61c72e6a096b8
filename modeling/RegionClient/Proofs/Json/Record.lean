import RegionClient.Json.Codec
import RegionClient.Proofs.Json.Datum

/-!
# Records in documents

Which documents describe a record, and what is left of a record that is printed. `Shape.Holds` says
which data fit a shape, `Shape.members` which members they are printed as, and `Shape.kept` what is
read back: a field that is not printed comes back with its fallback. Main statements: a document
that spells the members of a record is read as what is kept of it (`Shape.parse_of_spells`), a
record is printed as such a document (`Shape.spells_print`), and a type whose data fit its shape
is read back from its text as far as its data are kept (`Record.Keeps.parse_toText`).
-/

namespace RegionClient.Json

open Text

/-- A field with its datum. -/
abbrev Entry := Field × Datum

/-- Whether an entry is printed. -/
def Entry.isPrinted (e : Entry) : Bool := e.1.printed

/-- The member that an entry is printed as. -/
def Entry.member (e : Entry) : String × Value := (e.1.name, e.2.value)

/-- What is gathered for an entry. -/
def Entry.gathered (e : Entry) : String × Datum := (e.1.name, e.2)

/-- The text of an entry. -/
def Entry.print (e : Entry) : List Char := printString e.1.name ++ ':' :: e.2.print

/-- The datum that an entry comes back with. -/
def Entry.kept (e : Entry) : Datum := if e.isPrinted then e.2 else e.1.fallback.getD e.2

namespace Shape

/-- The fields of a shape with their data. -/
def entries (shape : Shape) (data : List Datum) : List Entry := shape.fields.zip data

/-- The entries that are printed. -/
def printedEntries (shape : Shape) (data : List Datum) : List Entry :=
  (shape.entries data).filter Entry.isPrinted

/-- The members that data are printed as. -/
def members (shape : Shape) (data : List Datum) : List (String × Value) :=
  (shape.printedEntries data).map Entry.member

/-- The data that come back. -/
def kept (shape : Shape) (data : List Datum) : List Datum := (shape.entries data).map Entry.kept

/-- The fields of a shape have names of their own, and those that are not printed have fallbacks. -/
structure IsSound (shape : Shape) : Prop where
  names : (shape.fields.map (·.name)).Nodup
  fallback : ∀ field ∈ shape.fields, field.printed = false → field.fallback.isSome = true

/-- Data fit a shape: there is one for each field, of its kind. -/
structure Holds (shape : Shape) (data : List Datum) : Prop where
  length_eq : data.length = shape.fields.length
  kinds : ∀ e ∈ shape.entries data, e.1.kind.Holds e.2

end Shape

variable {steps depth : Nat} {first : Bool} {bytes rest : Bytes} {fields : List Field}
  {entries : List Entry}

/-! ## Reading fields -/

private theorem find?_name (hnames : (fields.map (·.name)).Nodup) {field : Field}
    (h : field ∈ fields) :
    fields.find? (·.name = field.name) = some field := by
  induction fields with
  | nil => cases h
  | cons other fields ih =>
    obtain ⟨hother, hnames⟩ := List.nodup_cons.mp hnames
    rcases List.mem_cons.mp h with rfl | h
    · simp
    · have hne : ¬ other.name = field.name := fun hsame ↦
        hother (List.mem_map.mpr ⟨field, h, hsame.symm⟩)
      rw [List.find?_cons_of_neg (by simpa using hne)]
      exact ih hnames h

private theorem lookup_gathered_eq_none {name : String} (h : name ∉ entries.map (·.1.name)) :
    (entries.map Entry.gathered).lookup name = none := by
  rw [List.lookup_eq_none_iff]
  intro pair hpair
  obtain ⟨e, he, rfl⟩ := List.mem_map.mp hpair
  rw [bne_iff_ne]
  exact fun hsame ↦ h (List.mem_map.mpr ⟨e, he, hsame.symm⟩)

private theorem exists_readFields (hnames : (fields.map (·.name)).Nodup) {found : Gathered}
    (hentries : ∀ e ∈ entries, e.1 ∈ fields ∧ e.1.kind.Holds e.2)
    (hdistinct : (entries.map (·.1.name)).Nodup)
    (hnew : ∀ e ∈ entries, found.lookup e.1.name = none) (hsteps : bytes.length < steps)
    (h : MembersStand depth first (entries.map Entry.member) bytes rest) :
    ∃ found', readFields fields steps first found bytes = .ok (found', 0x7D :: rest) ∧
      ∀ name, found'.lookup name =
        ((entries.map Entry.gathered).lookup name).or (found.lookup name) := by
  induction entries generalizing steps first bytes found with
  | nil =>
    obtain ⟨steps, rfl⟩ : ∃ k, steps = k + 1 := ⟨steps - 1, by omega⟩
    cases h with
    | nil h =>
      refine ⟨found, ?_, fun name ↦ rfl⟩
      rw [readFields, nextKey_of_closed h, ← h]
      rfl
  | cons e entries ih =>
    obtain ⟨steps, rfl⟩ : ∃ k, steps = k + 1 := ⟨steps - 1, by omega⟩
    obtain ⟨hfield, hkind⟩ := hentries e List.mem_cons_self
    obtain ⟨hother, hdistinct⟩ := List.nodup_cons.mp hdistinct
    cases h with
    | @cons _ _ _ _ _ _ start quoted colon place behind _ hbegins hquote hkey hcolon hvalue
        hmembers =>
      have hstart := hbegins.length_le
      have hquoted := length_of_skipSpace_eq_cons hquote
      have hread := length_of_readString hkey
      have hplace := length_of_skipSpace_eq_cons hcolon
      have hbehind := hvalue.length_lt
      -- The keys behind are other ones, so that none of them has been found.
      have hfresh : ∀ e' ∈ entries, (e.gathered :: found).lookup e'.1.name = none := by
        intro e' he'
        have hne : (e'.1.name == e.1.name) = false := by
          rw [beq_eq_false_iff_ne]
          exact fun hsame ↦ hother (List.mem_map.mpr ⟨e', he', hsame⟩)
        rw [Entry.gathered, List.lookup_cons, hne]
        exact hnew e' (List.mem_cons_of_mem e he')
      have hshort : behind.length < steps := by omega
      obtain ⟨found', hmore, hfound⟩ := ih
        (fun e' he' ↦ hentries e' (List.mem_cons_of_mem e he')) hdistinct hfresh hshort hmembers
      refine ⟨found', ?_, fun name ↦ ?_⟩
      · rw [readFields, nextKey_of_begins hbegins hquote]
        simp only [bind, Except.bind, hkey, find?_name hnames hfield, hnew e List.mem_cons_self,
          readColon_eq_ok_iff.mpr hcolon, readKind_of_stands hkind hvalue]
        exact hmore
      · rw [hfound, List.map_cons]
        by_cases hname : name = e.1.name
        · -- The key is none of those behind, where nothing is found under it.
          rw [hname, lookup_gathered_eq_none hother]
          simp [Entry.gathered]
        · have hne : (name == e.1.name) = false := by simpa using hname
          simp [Entry.gathered, List.lookup_cons, hne]

/-! ## Gathering -/

private theorem lookup_gathered (hnames : (entries.map (·.1.name)).Nodup) {e : Entry}
    (he : e ∈ entries) :
    ((entries.filter Entry.isPrinted).map Entry.gathered).lookup e.1.name =
      if e.isPrinted then some e.2 else none := by
  induction entries with
  | nil => cases he
  | cons other entries ih =>
    obtain ⟨hother, hnames⟩ := List.nodup_cons.mp hnames
    rcases List.mem_cons.mp he with rfl | he
    · by_cases hprinted : e.isPrinted
      · rw [List.filter_cons_of_pos hprinted, if_pos hprinted]
        simp [Entry.gathered]
      · rw [List.filter_cons_of_neg hprinted, if_neg hprinted]
        apply lookup_gathered_eq_none
        intro hmem
        obtain ⟨e', he', hsame⟩ := List.mem_map.mp hmem
        exact hother (List.mem_map.mpr ⟨e', List.mem_of_mem_filter he', hsame⟩)
    · have hne : (e.1.name == other.1.name) = false := by
        rw [beq_eq_false_iff_ne]
        exact fun hsame ↦ hother (List.mem_map.mpr ⟨e, he, hsame⟩)
      rw [← ih hnames he]
      by_cases hprinted : other.isPrinted
      · rw [List.filter_cons_of_pos hprinted]
        simp [Entry.gathered, List.lookup_cons, hne]
      · rw [List.filter_cons_of_neg hprinted]

private theorem gather_eq_ok {found : Gathered}
    (hfound : ∀ e ∈ entries, found.lookup e.1.name = if e.isPrinted then some e.2 else none)
    (hfallback : ∀ e ∈ entries, e.isPrinted = false → e.1.fallback.isSome = true) :
    gather (entries.map Prod.fst) found = .ok (entries.map Entry.kept) := by
  induction entries with
  | nil => rfl
  | cons e entries ih =>
    have hmore := ih (fun e' he' ↦ hfound e' (List.mem_cons_of_mem e he'))
      (fun e' he' ↦ hfallback e' (List.mem_cons_of_mem e he'))
    have hlookup := hfound e List.mem_cons_self
    have hdefault := hfallback e List.mem_cons_self
    unfold gather at hmore ⊢
    rw [List.map_cons, List.map_cons, List.mapM_cons, hmore]
    by_cases hprinted : e.isPrinted
    · rw [if_pos hprinted] at hlookup
      rw [hlookup, Entry.kept, if_pos hprinted]
      rfl
    · rw [if_neg hprinted] at hlookup
      obtain ⟨datum, hdatum⟩ := Option.isSome_iff_exists.mp (hdefault (by simpa using hprinted))
      rw [hlookup, Entry.kept, if_neg hprinted, hdatum]
      rfl

namespace Shape

variable {shape : Shape} {data : List Datum} {document : Bytes}

private theorem map_fst_entries (h : shape.Holds data) :
    (shape.entries data).map Prod.fst = shape.fields :=
  List.map_fst_zip (Nat.le_of_eq h.length_eq.symm)

private theorem map_name_entries (h : shape.Holds data) :
    (shape.entries data).map (·.1.name) = shape.fields.map (·.name) := by
  rw [← map_fst_entries h, List.map_map]
  rfl

/-- A document that spells the members of a record is read as what is kept of it. -/
theorem parse_of_spells (hshape : shape.IsSound) (h : shape.Holds data)
    (hdocument : SpellsMembers document (shape.members data)) :
    shape.parse document = .ok (shape.kept data) := by
  obtain ⟨behind, rest, hopen, hmembers, hblank⟩ := hdocument
  have hnames : ((shape.entries data).map (·.1.name)).Nodup := map_name_entries h ▸ hshape.names
  have hfields : ∀ e ∈ shape.entries data, e.1 ∈ shape.fields :=
    fun e he ↦ (List.of_mem_zip he).1
  have hentries : ∀ e ∈ shape.printedEntries data, e.1 ∈ shape.fields ∧ e.1.kind.Holds e.2 := by
    intro e he
    have hmem := List.mem_of_mem_filter he
    exact ⟨hfields e hmem, h.kinds e hmem⟩
  have hnothing : ∀ e ∈ shape.printedEntries data, ([] : Gathered).lookup e.1.name = none :=
    fun _ _ ↦ rfl
  obtain ⟨found, hread, hfound⟩ := exists_readFields hshape.names hentries
    (hnames.sublist (List.filter_sublist.map _)) hnothing (Nat.lt_succ_self behind.length) hmembers
  have hgather : gather shape.fields found = .ok (shape.kept data) := by
    rw [← map_fst_entries h]
    refine gather_eq_ok (fun e he ↦ ?_) (fun e he ↦ hshape.fallback e.1 (hfields e he))
    rw [hfound, List.lookup_nil, Option.or_none]
    exact lookup_gathered hnames he
  have hrecord : readRecord shape document = .ok (shape.kept data, rest) := by
    rw [readRecord, hopen]
    simp only [bind, Except.bind, hread, hgather]
    rfl
  exact readDocument_eq_ok hrecord hblank

end Shape

/-! ## Printing -/

private theorem endsNumber_of_mark {b : UInt8} (h : b = 0x2C ∨ b = 0x7D) (rest : Bytes) :
    EndsNumber (b :: rest) := by
  intro c hc
  obtain rfl := Option.some.inj hc
  rcases h with rfl | rfl <;> decide

private theorem membersStand_cons {e : Entry} {members : List (String × Value)} {behind : Bytes}
    (hkind : e.1.kind.Holds e.2) (hbegins : Begins first bytes (Utf8.encode e.print ++ behind))
    (hends : EndsNumber behind) (hmembers : MembersStand (depth + 1) false members behind rest) :
    MembersStand (depth + 1) first (e.member :: members) bytes rest := by
  obtain ⟨quoted, hbytes, hread⟩ := readString_printString e.1.name
  have hprint : Utf8.encode e.print ++ behind =
      0x22 :: (quoted ++ 0x3A :: (Utf8.encode e.2.print ++ behind)) := by
    rw [Entry.print, Utf8.encode_append, Utf8.encode_cons, hbytes, List.append_assoc,
      List.append_assoc]
    rfl
  rw [hprint] at hbegins
  exact .cons hbegins rfl (hread _) rfl (stands_print hkind hends) hmembers

private theorem membersStand_printed (h : ∀ e ∈ entries, e.1.kind.Holds e.2) (rest : Bytes) :
    EndsNumber (Utf8.encode ((entries.map Entry.print).flatMap (',' :: ·)) ++ 0x7D :: rest) ∧
      MembersStand (depth + 1) false (entries.map Entry.member)
        (Utf8.encode ((entries.map Entry.print).flatMap (',' :: ·)) ++ 0x7D :: rest) rest := by
  induction entries with
  | nil => exact ⟨endsNumber_of_mark (.inr rfl) rest, .nil rfl⟩
  | cons e entries ih =>
    obtain ⟨hends, hmore⟩ := ih fun e' he' ↦ h e' (List.mem_cons_of_mem e he')
    rw [List.map_cons, List.map_cons, List.flatMap_cons, List.cons_append, Utf8.encode_cons,
      Utf8.encode_append, List.append_assoc, List.append_assoc]
    exact ⟨endsNumber_of_mark (.inl rfl) _,
      membersStand_cons (h e List.mem_cons_self) (.later rfl) hends hmore⟩

namespace Shape

variable {shape : Shape} {data : List Datum}

private theorem print_eq (shape : Shape) (data : List Datum) :
    shape.print data =
      '\x7b' :: commaSeparated ((shape.printedEntries data).map Entry.print) ++ ['\x7d'] := by
  have hentries : ∀ entries : List Entry,
      (entries.filterMap fun (field, datum) ↦
        if field.printed then some (printString field.name ++ ':' :: datum.print) else none) =
        (entries.filter Entry.isPrinted).map Entry.print := by
    intro entries
    induction entries with
    | nil => rfl
    | cons e entries ih =>
      obtain ⟨field, datum⟩ := e
      rw [List.filterMap_cons, List.filter_cons, Entry.isPrinted, apply_ite (List.map Entry.print),
        List.map_cons, ← ih]
      dsimp only
      cases field.printed <;> rfl
  rw [print, printedEntries, ← hentries]
  rfl

/-- A record is printed as a document that spells its members. -/
theorem spells_print (h : shape.Holds data) :
    SpellsMembers (Utf8.encode (shape.print data)) (shape.members data) := by
  have hkinds : ∀ e ∈ shape.printedEntries data, e.1.kind.Holds e.2 :=
    fun e he ↦ h.kinds e (List.mem_of_mem_filter he)
  have hbytes : Utf8.encode (shape.print data) =
      0x7B :: (Utf8.encode (commaSeparated ((shape.printedEntries data).map Entry.print)) ++
        [0x7D]) := by
    rw [print_eq, List.cons_append, Utf8.encode_cons, Utf8.encode_append]
    rfl
  refine ⟨_, [], congrArg skipSpace hbytes, ?_, rfl⟩
  unfold members
  cases hentries : shape.printedEntries data with
  | nil => exact .nil rfl
  | cons e entries =>
    rw [hentries] at hkinds
    obtain ⟨hends, hmore⟩ := membersStand_printed
      (fun e' he' ↦ hkinds e' (List.mem_cons_of_mem e he')) []
    rw [List.map_cons, List.map_cons, commaSeparated_cons, Utf8.encode_append, List.append_assoc]
    exact membersStand_cons (hkinds e List.mem_cons_self) .first hends hmore

end Shape

/-! ## Types -/

namespace Record

variable {α : Type} [Record α]

/-- The data of a type fit its shape, and what is kept of them makes up a value again. -/
structure Keeps (α : Type) [Record α] (left : α → α) : Prop where
  shape : (shape α).IsSound
  holds (a : α) : (Record.shape α).Holds (toData a)
  ofData?_kept (a : α) : ofData? ((Record.shape α).kept (toData a)) = some (left a)

/-- From its text a value is read as far as its data are kept. -/
theorem Keeps.parse_toText {left : α → α} (h : Keeps α left) (a : α) :
    parse (Utf8.ofString (toText a)) = .ok (left a) := by
  have hdata := Shape.parse_of_spells h.shape (h.holds a) (Shape.spells_print (h.holds a))
  rw [parse, toText, Utf8.ofString, String.toList_ofList, Record.print, hdata, build]
  simp only [bind, Except.bind, h.ofData?_kept a]
  rfl

end Record

end RegionClient.Json

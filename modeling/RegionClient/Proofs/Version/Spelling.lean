import Mathlib.Data.List.TakeWhile
import RegionClient.Proofs.Version

/-!
# Spellings of versions

Which texts are versions, and which one is printed. A spelling has blanks around it, plus signs and
leading zeros as it likes; the plain one has none of them. Main statement: a text is read as a
version if it spells it, any other is not valid, and the plain spelling is the one that is printed,
from which the version is read again (`parse_spells`).
-/

namespace RegionClient

namespace Text

/-! ## Blanks -/

private theorem exists_strip (p : Char → Bool) (cs : List Char) : ∃ front back,
    cs = front ++ strip p cs ++ back ∧ (∀ c ∈ front, p c = true) ∧ ∀ c ∈ back, p c = true := by
  refine ⟨cs.takeWhile p, ((cs.dropWhile p).reverse.takeWhile p).reverse, ?_, ?_, ?_⟩
  · rw [strip, List.append_assoc, ← List.reverse_append, List.takeWhile_append_dropWhile,
      List.reverse_reverse, List.takeWhile_append_dropWhile]
  · exact fun c hc ↦ List.mem_takeWhile_imp hc
  · exact fun c hc ↦ List.mem_takeWhile_imp (List.mem_reverse.mp hc)

private theorem strip_append {p : Char → Bool} {front text back : List Char}
    (hfront : ∀ c ∈ front, p c = true) (htext : ∀ c ∈ text, p c = false)
    (hback : ∀ c ∈ back, p c = true) : strip p (front ++ text ++ back) = text := by
  have hback' : ∀ c ∈ back.reverse, p c = true := fun c hc ↦ hback c (List.mem_reverse.mp hc)
  have htext' : ∀ c ∈ text.reverse, p c = false := fun c hc ↦ htext c (List.mem_reverse.mp hc)
  rw [strip, List.append_assoc, List.dropWhile_append_of_pos hfront]
  cases text with
  | nil =>
    rw [List.nil_append, List.dropWhile_eq_nil_iff.mpr hback]
    rfl
  | cons c rest =>
    have hkept : (c :: rest ++ back).dropWhile p = c :: rest ++ back := by
      rw [List.cons_append, List.dropWhile_cons_of_neg]
      simp [htext c List.mem_cons_self]
    rw [hkept, List.reverse_append, List.dropWhile_append_of_pos hback', dropWhile_eq_self htext',
      List.reverse_reverse]

end Text

namespace Version

open Text

/-! ## Parts -/

/-- One or more decimal digits, perhaps behind a plus sign, spell a part of a version. -/
inductive SpellsPart : List Char → UInt32 → Prop
  | plain {digits : List Char} {n : UInt32} (h : Numeral.Spells digits n.toNat) :
      SpellsPart digits n
  | signed {digits : List Char} {n : UInt32} (h : Numeral.Spells digits n.toNat) :
      SpellsPart ('+' :: digits) n

/-- Two or three parts with dots between them spell a version. -/
inductive SpellsParts : List Char → Version → Prop
  | two {a b : List Char} {major minor : UInt32} (ha : SpellsPart a major)
      (hb : SpellsPart b minor) : SpellsParts (a ++ '.' :: b) ⟨major, minor, 0⟩
  | three {a b c : List Char} {major minor patch : UInt32} (ha : SpellsPart a major)
      (hb : SpellsPart b minor) (hc : SpellsPart c patch) :
      SpellsParts (a ++ '.' :: (b ++ '.' :: c)) ⟨major, minor, patch⟩

/-- A text spells a version by its parts, with blanks around them or not. -/
def Spells (text : String) (v : Version) : Prop :=
  ∃ front parts back, text.toList = front ++ parts ++ back ∧ (∀ c ∈ front, isBlank c = true) ∧
    (∀ c ∈ back, isBlank c = true) ∧ SpellsParts parts v

private theorem SpellsPart.of_mem {cs : List Char} {n : UInt32} (h : SpellsPart cs n) {c : Char}
    (hc : c ∈ cs) : c = '+' ∨ c.isDigit = true := by
  cases h with
  | plain h => exact .inr (h.digits c hc)
  | signed h => exact (List.mem_cons.mp hc).imp_right (h.digits c)

private theorem SpellsPart.dot_notMem {cs : List Char} {n : UInt32} (h : SpellsPart cs n) :
    '.' ∉ cs := by
  intro hmem
  exact absurd (h.of_mem hmem) (by decide)

private theorem SpellsPart.isBlank {cs : List Char} {n : UInt32} (h : SpellsPart cs n) {c : Char}
    (hc : c ∈ cs) : isBlank c = false := by
  rcases h.of_mem hc with rfl | hdigit
  · decide
  · exact IsMark.isBlank (.inl hdigit)

/-- A bounded number is read from digits, perhaps behind a plus sign. -/
theorem readPart?_eq_some_iff {cs : List Char} {n : UInt32} :
    readPart? cs = some n ↔ SpellsPart cs n := by
  -- Digits that spell a number below the bound spell the part with this number.
  have hread : ∀ digits : List Char,
      ((Numeral.read? digits).filter (· < Nat.pow 2 32)).map UInt32.ofNat = some n ↔
        Numeral.Spells digits n.toNat := by
    intro digits
    rw [← Numeral.read?_eq_some_iff]
    simp only [Option.map_eq_some_iff, Option.filter_eq_some_iff, decide_eq_true_eq]
    constructor
    · rintro ⟨m, ⟨hm, hlt⟩, rfl⟩
      rw [hm, UInt32.toNat_ofNat_of_lt' hlt]
    · intro hn
      exact ⟨n.toNat, ⟨hn, n.toNat_lt⟩, UInt32.ofNat_toNat⟩
  unfold readPart? Numeral.readBelow?
  split
  · next rest =>
    rw [hread]
    refine ⟨.signed, fun h ↦ ?_⟩
    cases h with
    | plain h => exact absurd (h.digits '+' List.mem_cons_self) (by decide)
    | signed h => exact h
  · next hsign =>
    rw [hread]
    refine ⟨.plain, fun h ↦ ?_⟩
    cases h with
    | plain h => exact h
    | signed h => exact absurd rfl (hsign _)

/-! ## Texts -/

private theorem SpellsParts.isBlank {cs : List Char} {v : Version} (h : SpellsParts cs v) {c : Char}
    (hc : c ∈ cs) : isBlank c = false := by
  have hdot : Text.isBlank '.' = false := by decide
  cases h with
  | two ha hb =>
    rcases List.mem_append.mp hc with hc | hc
    · exact ha.isBlank hc
    · rcases List.mem_cons.mp hc with rfl | hc
      · exact hdot
      · exact hb.isBlank hc
  | three ha hb hpatch =>
    rcases List.mem_append.mp hc with hc | hc
    · exact ha.isBlank hc
    · rcases List.mem_cons.mp hc with rfl | hc
      · exact hdot
      · rcases List.mem_append.mp hc with hc | hc
        · exact hb.isBlank hc
        · rcases List.mem_cons.mp hc with rfl | hc
          · exact hdot
          · exact hpatch.isBlank hc

private theorem SpellsParts.readPart?_splitOn {cs : List Char} {v : Version}
    (h : SpellsParts cs v) :
    (splitOn '.' cs).map readPart? = [some v.major, some v.minor] ∧ v.patch = 0 ∨
      (splitOn '.' cs).map readPart? = [some v.major, some v.minor, some v.patch] := by
  cases h with
  | two ha hb =>
    left
    rw [splitOn_append_cons ha.dot_notMem, splitOn_of_notMem hb.dot_notMem]
    simp [readPart?_eq_some_iff.mpr ha, readPart?_eq_some_iff.mpr hb]
  | three ha hb hc =>
    right
    rw [splitOn_append_cons ha.dot_notMem, splitOn_append_cons hb.dot_notMem,
      splitOn_of_notMem hc.dot_notMem]
    simp [readPart?_eq_some_iff.mpr ha, readPart?_eq_some_iff.mpr hb,
      readPart?_eq_some_iff.mpr hc]

private theorem spellsParts_of_two {cs : List Char} {major minor : UInt32}
    (h : (splitOn '.' cs).map readPart? = [some major, some minor]) :
    SpellsParts cs ⟨major, minor, 0⟩ := by
  obtain ⟨a, pieces, hpieces, ha, h⟩ := List.map_eq_cons_iff.mp h
  obtain ⟨b, pieces, rfl, hb, h⟩ := List.map_eq_cons_iff.mp h
  obtain rfl := List.map_eq_nil_iff.mp h
  rw [← join_splitOn '.' cs, hpieces]
  exact .two (readPart?_eq_some_iff.mp ha) (readPart?_eq_some_iff.mp hb)

private theorem spellsParts_of_three {cs : List Char} {major minor patch : UInt32}
    (h : (splitOn '.' cs).map readPart? = [some major, some minor, some patch]) :
    SpellsParts cs ⟨major, minor, patch⟩ := by
  obtain ⟨a, pieces, hpieces, ha, h⟩ := List.map_eq_cons_iff.mp h
  obtain ⟨b, pieces, rfl, hb, h⟩ := List.map_eq_cons_iff.mp h
  obtain ⟨c, pieces, rfl, hc, h⟩ := List.map_eq_cons_iff.mp h
  obtain rfl := List.map_eq_nil_iff.mp h
  rw [← join_splitOn '.' cs, hpieces]
  exact .three (readPart?_eq_some_iff.mp ha) (readPart?_eq_some_iff.mp hb)
    (readPart?_eq_some_iff.mp hc)

/-- A version is read from the texts that spell it. -/
theorem parse?_eq_some_iff {text : String} {v : Version} :
    parse? text = some v ↔ Spells text v := by
  constructor
  · intro h
    obtain ⟨front, back, htext, hfront, hback⟩ := exists_strip Text.isBlank text.toList
    refine ⟨front, trim text.toList, back, htext, hfront, hback, ?_⟩
    unfold parse? at h
    split at h
    · next hparts =>
      obtain rfl := Option.some.inj h
      exact spellsParts_of_two hparts
    · next hparts =>
      obtain rfl := Option.some.inj h
      exact spellsParts_of_three hparts
    · cases h
  · rintro ⟨front, parts, back, htext, hfront, hback, hparts⟩
    have htrim : trim text.toList = parts := by
      rw [htext]
      exact strip_append hfront (fun c hc ↦ hparts.isBlank hc) hback
    rw [parse?, htrim]
    rcases hparts.readPart?_splitOn with ⟨hpieces, hpatch⟩ | hpieces
    · rw [hpieces, ← hpatch]
    · rw [hpieces]

/-- A version is read from the texts that spell it. -/
theorem parse_eq_ok_iff {text : String} {v : Version} : parse text = .ok v ↔ Spells text v := by
  rw [← parse?_eq_some_iff, parse]
  cases parse? text <;> simp

/-- A text that spells no version is not valid. -/
theorem parse_of_not_spells {text : String} (h : ∀ v, ¬ Spells text v) :
    parse text = .error (.notValid ("invalid protocol version " ++ Text.quote text)) := by
  unfold parse
  cases hparse : parse? text with
  | none => rfl
  | some v => exact absurd (parse?_eq_some_iff.mp hparse) (h v)

/-! ## The plain spelling -/

/-- Digits that spell a part without a sign and without a leading zero. -/
def SpellsPlainly (cs : List Char) (n : UInt32) : Prop :=
  Numeral.Spells cs n.toNat ∧ (cs = ['0'] ∨ cs.head? ≠ some '0')

/-- The plain spelling of a version: no blanks, no signs, no leading zeros, and no patch of zero. -/
inductive IsPlain : String → Version → Prop
  | two {a b : List Char} {major minor : UInt32} (ha : SpellsPlainly a major)
      (hb : SpellsPlainly b minor) : IsPlain (String.ofList (a ++ '.' :: b)) ⟨major, minor, 0⟩
  | three {a b c : List Char} {major minor patch : UInt32} (ha : SpellsPlainly a major)
      (hb : SpellsPlainly b minor) (hc : SpellsPlainly c patch) (hpatch : patch ≠ 0) :
      IsPlain (String.ofList (a ++ '.' :: (b ++ '.' :: c))) ⟨major, minor, patch⟩

private theorem spellsPlainly_iff {cs : List Char} {n : UInt32} :
    SpellsPlainly cs n ↔ cs = Numeral.decimal n.toNat := by
  constructor
  · rintro ⟨hspells, hzero⟩
    exact hspells.eq_decimal hzero
  · rintro rfl
    exact Numeral.spells_decimal n.toNat

/-- The text of a version is its plain spelling. -/
theorem isPlain_iff {text : String} {v : Version} : IsPlain text v ↔ text = v.toText := by
  unfold toText print
  constructor
  · rintro (⟨ha, hb⟩ | ⟨ha, hb, hc, hpatch⟩)
    · rw [spellsPlainly_iff] at ha hb
      simp [ha, hb]
    · rw [spellsPlainly_iff] at ha hb hc
      simp [ha, hb, hc, hpatch]
  · rintro rfl
    obtain ⟨major, minor, patch⟩ := v
    by_cases hpatch : patch = 0
    · subst hpatch
      simpa using IsPlain.two (spellsPlainly_iff.mpr rfl) (spellsPlainly_iff.mpr rfl)
    · simpa [hpatch] using IsPlain.three (spellsPlainly_iff.mpr rfl) (spellsPlainly_iff.mpr rfl)
        (spellsPlainly_iff.mpr rfl) hpatch

/-- The text of a version is read as the version. -/
theorem parse_toText (v : Version) : parse v.toText = .ok v := by
  rw [parse, parse?_toText]

/-- A version is read from the texts that spell it and from no other. It is printed in its one plain
spelling, which tells it, and which is read and printed again as it is. -/
theorem parse_spells (text : String) :
    (∀ v, parse text = .ok v ↔ Spells text v) ∧
    ((∀ v, ¬ Spells text v) →
      parse text = .error (.notValid ("invalid protocol version " ++ Text.quote text))) ∧
    (∀ v, parse v.toText = .ok v) ∧ Function.Injective toText ∧
    ∀ v, parse text = .ok v →
      (∀ plain, IsPlain plain v ↔ plain = v.toText) ∧
      (parse v.toText).map toText = .ok v.toText := by
  refine ⟨fun v ↦ parse_eq_ok_iff, parse_of_not_spells, parse_toText, fun v v' h ↦ ?_,
    fun v _ ↦ ⟨fun plain ↦ isPlain_iff, ?_⟩⟩
  · exact print_injective (String.ofList_injective h)
  · rw [parse_toText]
    rfl

/-- Blanks, a sign and leading zeros are read over, and one more than the largest part is not
wrapped around. -/
theorem parse_spells_blanks :
    parse " +02.00000000004294967295.0\n" = .ok ⟨2, 4294967295, 0⟩ ∧
      (parse (toText ⟨2, 4294967295, 0⟩)).map toText = .ok "2.4294967295" ∧
      ∀ v, ¬ Spells "2.4294967296" v := by
  have hparse : parse " +02.00000000004294967295.0\n" = .ok ⟨2, 4294967295, 0⟩ := by
    decide +kernel
  obtain ⟨-, -, -, -, hprinted⟩ := parse_spells " +02.00000000004294967295.0\n"
  obtain ⟨hspells, -⟩ := parse_spells "2.4294967296"
  have hlarge : ∀ v, parse "2.4294967296" ≠ .ok v := by
    have : parse? "2.4294967296" = none := by decide +kernel
    intro v h
    rw [parse, this] at h
    cases h
  have htext : toText ⟨2, 4294967295, 0⟩ = "2.4294967295" := by decide +kernel
  refine ⟨hparse, ?_, fun v ↦ mt (hspells v).mpr (hlarge v)⟩
  rw [(hprinted _ hparse).2, htext]

end Version

end RegionClient

import RegionClient.Proofs.Text.Numeral
import RegionClient.Proofs.Text.Split
import RegionClient.Version

/-!
# Laws of versions

The text of a version is made of digits and dots. Main statement: it reads back
(`Version.parse?_toText`), so that it tells the version (`Version.print_injective`).
-/

namespace RegionClient

open Text

namespace Text

/-- Nothing is dropped from a text without characters of the class. -/
theorem dropWhile_eq_self {p : Char → Bool} {cs : List Char} (h : ∀ c ∈ cs, p c = false) :
    cs.dropWhile p = cs := by
  cases cs with
  | nil => rfl
  | cons c rest => simp [h c List.mem_cons_self]

private theorem strip_eq_self {p : Char → Bool} {cs : List Char} (h : ∀ c ∈ cs, p c = false) :
    strip p cs = cs := by
  rw [strip, dropWhile_eq_self h, dropWhile_eq_self fun c hc ↦ h c (List.mem_reverse.mp hc),
    List.reverse_reverse]

end Text

namespace Version

/-- A digit or a dot. -/
def IsMark (c : Char) : Prop := c.isDigit = true ∨ c = '.'

/-- The text of a version is made of digits and dots. -/
theorem isMark_of_mem_print {v : Version} {c : Char} (h : c ∈ v.print) : IsMark c := by
  have hnumber : ∀ n : Nat, c ∈ Numeral.decimal n → IsMark c :=
    fun n hmem ↦ .inl (Numeral.isDigit_of_mem_decimal hmem)
  unfold print at h
  simp only [List.mem_append, List.mem_cons] at h
  rcases h with (h | rfl | h) | h
  · exact hnumber _ h
  · exact .inr rfl
  · exact hnumber _ h
  · split at h
    · exact absurd h List.not_mem_nil
    · rcases List.mem_cons.mp h with rfl | h
      · exact .inr rfl
      · exact hnumber _ h

/-- The text of a version begins with a digit. -/
theorem exists_print (v : Version) : ∃ c rest, v.print = c :: rest ∧ c.isDigit = true := by
  have hne : Numeral.decimal v.major.toNat ≠ [] := Nat.toDigits_ne_nil
  obtain ⟨c, rest, hcons⟩ := List.exists_cons_of_ne_nil hne
  unfold print
  dsimp only
  rw [hcons]
  exact ⟨c, _, rfl, Numeral.isDigit_of_mem_decimal (hcons ▸ List.mem_cons_self)⟩

/-- Marks are no blanks. -/
theorem IsMark.isBlank {c : Char} (h : IsMark c) : isBlank c = false := by
  rcases h with h | rfl
  · have hbounds : 48 ≤ c.toNat ∧ c.toNat ≤ 57 := Char.isDigit_iff_toNat.mp h
    simp only [Text.isBlank, Bool.or_eq_false_iff, Bool.and_eq_false_iff, decide_eq_false_iff_not,
      beq_eq_false_iff_ne]
    omega
  · decide

private theorem readPart?_decimal (n : UInt32) : readPart? (Numeral.decimal n.toNat) = some n := by
  rw [readPart?, Numeral.readBelow?_decimal n.toNat_lt_size]
  simp

private theorem splitOn_print (v : Version) :
    splitOn '.' v.print = [Numeral.decimal v.major.toNat, Numeral.decimal v.minor.toNat] ++
      if v.patch = 0 then [] else [Numeral.decimal v.patch.toNat] := by
  have hnumber : ∀ n : Nat, '.' ∉ Numeral.decimal n := by
    intro n hmem
    exact absurd (Numeral.isDigit_of_mem_decimal hmem) (by decide)
  unfold print
  dsimp only
  rw [List.append_assoc, List.cons_append, splitOn_append_cons (hnumber _)]
  split
  · rw [List.append_nil, splitOn_of_notMem (hnumber _)]
    rfl
  · rw [splitOn_append_cons (hnumber _), splitOn_of_notMem (hnumber _)]
    rfl

/-- The text of a version reads back. -/
theorem parse?_toText (v : Version) : parse? v.toText = some v := by
  have htrim : trim v.print = v.print :=
    strip_eq_self fun c hc ↦ (isMark_of_mem_print hc).isBlank
  rw [parse?, toText, String.toList_ofList, htrim, splitOn_print]
  by_cases hpatch : v.patch = 0
  · simp only [if_pos hpatch, List.append_nil, List.map_cons, List.map_nil, readPart?_decimal]
    rw [← hpatch]
  · simp only [if_neg hpatch, List.cons_append, List.nil_append, List.map_cons, List.map_nil,
      readPart?_decimal]

/-- The text of a version tells the version. -/
theorem print_injective {v v' : Version} (h : v.print = v'.print) : v = v' := by
  have hread := parse?_toText v
  rw [toText, h, ← toText, parse?_toText] at hread
  exact (Option.some.inj hread).symm

end Version

end RegionClient

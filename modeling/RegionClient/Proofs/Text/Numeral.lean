import Mathlib.Data.List.Basic
import Mathlib.Data.List.Induction
import RegionClient.Text.Numeral

/-!
# Laws of numerals

What printed numbers are made of, and which digits spell a number. Main statements: a number below
a bound reads back (`readBelow?_decimal`), numbers are read from the digits that spell them
(`read?_eq_some_iff`), and of these only the printed ones have no leading zero
(`Spells.eq_decimal`, `spells_decimal`).
-/

namespace RegionClient.Text.Numeral

/-- Numerals are made of digits. -/
theorem isDigit_of_mem_decimal {n : Nat} {c : Char} (h : c ∈ decimal n) :
    c.isDigit = true :=
  Nat.isDigit_of_mem_toDigits (by decide) (by decide) h

/-- A numeral below the bound reads back. -/
theorem readBelow?_decimal {n bound : Nat} (h : n < bound) :
    readBelow? bound (decimal n) = some n := by
  have hplus : '+' ∉ decimal n := by
    intro hmem
    exact absurd (isDigit_of_mem_decimal hmem) (by decide)
  unfold readBelow?
  dsimp only
  split
  · next rest hrest =>
    rw [hrest] at hplus
    exact absurd List.mem_cons_self hplus
  · rw [read?_decimal]
    simp [h]

/-- One or more decimal digits spell a number. -/
structure Spells (cs : List Char) (n : Nat) : Prop where
  ne_nil : cs ≠ []
  digits : ∀ c ∈ cs, c.isDigit = true
  value : Nat.ofDigitChars 10 cs 0 = n

/-- A number is read from the digits that spell it. -/
theorem read?_eq_some_iff {cs : List Char} {n : Nat} : read? cs = some n ↔ Spells cs n := by
  unfold read?
  split
  · next h =>
    have hdigits : ∀ c ∈ cs, c.isDigit = true := List.all_eq_true.mp h.2
    exact ⟨fun hvalue ↦ ⟨h.1, hdigits, Option.some.inj hvalue⟩,
      fun hspells ↦ congrArg some hspells.value⟩
  · next h =>
    exact iff_of_false nofun fun hspells ↦
      h ⟨hspells.ne_nil, List.all_eq_true.mpr hspells.digits⟩

private theorem digitChar_of_isDigit {c : Char} (h : c.isDigit = true) :
    c.toNat - 48 < 10 ∧ (c.toNat - 48).digitChar = c := by
  obtain ⟨hlow, hhigh⟩ : 48 ≤ c.toNat ∧ c.toNat ≤ 57 := Char.isDigit_iff_toNat.mp h
  have hdigit : ∀ n < 10, n.digitChar = Char.ofNat (n + 48) := by decide
  refine ⟨by omega, ?_⟩
  rw [hdigit _ (by omega), Nat.sub_add_cancel hlow, Char.ofNat_toNat]

private theorem Spells.pos {cs : List Char} {n : Nat} (h : Spells cs n)
    (hzero : cs.head? ≠ some '0') :
    0 < n := by
  obtain ⟨c, rest, rfl⟩ := List.exists_cons_of_ne_nil h.ne_nil
  have hdigit := digitChar_of_isDigit (h.digits c List.mem_cons_self)
  have hpos : 0 < c.toNat - 48 := by
    refine Nat.pos_of_ne_zero fun hnil ↦ hzero ?_
    rw [hnil] at hdigit
    exact congrArg some hdigit.2.symm
  have hvalue := h.value
  rw [Nat.ofDigitChars_cons, Nat.ofDigitChars_eq_ofDigitChars_zero] at hvalue
  rw [← hvalue]
  exact Nat.add_pos_left (Nat.mul_pos (Nat.pow_pos (by decide)) (by simpa using hpos)) _

/-- Of the digits that spell a number only the printed ones have no leading zero. -/
theorem Spells.eq_decimal {cs : List Char} {n : Nat} (h : Spells cs n)
    (hzero : cs = ['0'] ∨ cs.head? ≠ some '0') : cs = decimal n := by
  induction cs using List.reverseRecOn generalizing n with
  | nil => exact absurd rfl h.ne_nil
  | append_singleton front c ih =>
    obtain ⟨hlt, hchar⟩ := digitChar_of_isDigit (h.digits c (by simp))
    have hvalue := h.value
    rw [Nat.ofDigitChars_append, Nat.ofDigitChars_cons, Nat.ofDigitChars_nil] at hvalue
    by_cases hnil : front = []
    · subst hnil
      have hn : c.toNat - 48 = n := by simpa using hvalue
      rw [List.nil_append, decimal, Nat.toDigits_of_lt_base (hn ▸ hlt), ← hn, hchar]
    · -- What stands in front of the last digit has no leading zero either.
      have hhead : front.head? ≠ some '0' := by
        rw [← List.head?_append_of_ne_nil front hnil]
        refine hzero.resolve_left fun hsingle ↦ hnil ?_
        exact (List.append_eq_singleton_iff.mp hsingle).elim And.left fun hboth ↦ by simp at hboth
      have hfront : Spells front (Nat.ofDigitChars 10 front 0) :=
        ⟨hnil, fun d hd ↦ h.digits d (List.mem_append_left _ hd), rfl⟩
      have hlast : Nat.toDigits 10 (c.toNat - 48) = [c] := by
        rw [Nat.toDigits_of_lt_base hlt, hchar]
      rw [ih hfront (.inr hhead), decimal, decimal, ← hlast,
        Nat.toDigits_append_toDigits (by decide) (hfront.pos hhead) hlt]
      exact congrArg _ hvalue

/-- A number is spelled by what is printed, which has no leading zero unless it is zero. -/
theorem spells_decimal (n : Nat) :
    Spells (decimal n) n ∧ (decimal n = ['0'] ∨ (decimal n).head? ≠ some '0') := by
  refine ⟨read?_eq_some_iff.mp (read?_decimal n), ?_⟩
  induction n using Nat.strongRecOn with
  | ind n ih =>
    by_cases hlt : n < 10
    · have hdigit : ∀ n < 10, decimal n = ['0'] ∨ (decimal n).head? ≠ some '0' := by decide
      exact hdigit n hlt
    · right
      have hpos : n / 10 ≠ 0 := by omega
      rw [decimal, Nat.toDigits_of_base_le (by decide) (by omega),
        List.head?_append_of_ne_nil _ Nat.toDigits_ne_nil]
      refine (ih (n / 10) (by omega)).resolve_left fun hzero ↦ hpos ?_
      have hvalue : Nat.ofDigitChars 10 (decimal (n / 10)) 0 = n / 10 :=
        Nat.ofDigitChars_ten_toDigits
      rw [hzero] at hvalue
      exact hvalue.symm

end RegionClient.Text.Numeral

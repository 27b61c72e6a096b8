import RegionClient.Proofs.Json.Lexemes
import RegionClient.Proofs.Text.Numeral

/-!
# Printed integers

What the reader of numbers makes of digits. A number goes on as long as digits, a point or an
exponent stand there, so it is read as it was printed only in front of something else. Main
statement: an integer of 64 bits that is printed is read as it was, in front of bytes that end it
(`readNumber_decimal`).
-/

namespace RegionClient.Json

open Text

/-- A number ends in front of these bytes: they begin with no digit, no point and no exponent. -/
def EndsNumber (rest : Bytes) : Prop :=
  ∀ b ∈ rest.head?, digit? b = none ∧ b ≠ 0x2E ∧ isExponentMark b = false

/-- The integer of a natural number of 64 bits. -/
def Integer.ofNatural (n : Nat) (h : n < Nat.pow 2 64) : Integer where
  value := n
  lower := by
    have hlow : -(Nat.pow 2 63 : Int) ≤ 0 := by decide
    omega
  upper := Int.ofNat_lt.mpr h

private theorem Integer.ofInt?_natCast {n : Nat} (h : n < Nat.pow 2 64) :
    Integer.ofInt? (n : Int) = some (.ofNatural n h) :=
  dif_pos ⟨(Integer.ofNatural n h).lower, (Integer.ofNatural n h).upper⟩

variable {rest : Bytes} {cs : List Char} {c : Char} {n value count : Nat}

private theorem encodeChar_of_isDigit (h : c.isDigit = true) :
    ∃ b, Utf8.encodeChar c = [b] ∧ digit? b = some (c.toNat - 48) := by
  obtain ⟨hlow, hhigh⟩ : 48 ≤ c.toNat ∧ c.toNat ≤ 57 := Char.isDigit_iff_toNat.mp h
  refine ⟨UInt8.ofNat c.toNat, Utf8.encodeChar_of_ascii (by omega), ?_⟩
  rw [digit?, Utf8.toNat_ofNat (by omega), if_pos ⟨hlow, hhigh⟩]

private theorem le_ofDigitChars (cs : List Char) (value : Nat) :
    value ≤ Nat.ofDigitChars 10 cs value := by
  rw [Nat.ofDigitChars_eq_ofDigitChars_zero]
  exact Nat.le_add_right_of_le (Nat.le_mul_of_pos_left value (Nat.pow_pos (by decide)))

private theorem takeDigits_of_endsNumber (h : EndsNumber rest) (value count : Nat) :
    takeDigits value count rest = (value, count, rest) := by
  cases rest with
  | nil => rfl
  | cons b rest => rw [takeDigits, (h b rfl).1]

private theorem takeDigits_encode (hdigits : ∀ c ∈ cs, c.isDigit = true) (hrest : EndsNumber rest)
    (hfits : Nat.ofDigitChars 10 cs value < Nat.pow 2 64) :
    takeDigits value count (Utf8.encode cs ++ rest) =
      (Nat.ofDigitChars 10 cs value, count + cs.length, rest) := by
  induction cs generalizing value count with
  | nil => exact takeDigits_of_endsNumber hrest value count
  | cons c cs ih =>
    obtain ⟨b, hbytes, hdigit⟩ := encodeChar_of_isDigit (hdigits c List.mem_cons_self)
    have hstep : Nat.ofDigitChars 10 (c :: cs) value =
        Nat.ofDigitChars 10 cs (value * 10 + (c.toNat - 48)) := by
      rw [Nat.ofDigitChars_cons, Nat.mul_comm]
      rfl
    rw [hstep] at hfits ⊢
    have hmore : value * 10 + (c.toNat - 48) < Nat.pow 2 64 :=
      Nat.lt_of_le_of_lt (le_ofDigitChars cs _) hfits
    rw [Utf8.encode_cons, hbytes, List.cons_append, List.nil_append, List.cons_append, takeDigits,
      hdigit]
    dsimp only
    rw [if_pos hmore, ih (fun d hd ↦ hdigits d (List.mem_cons_of_mem c hd)) hfits,
      List.length_cons, Nat.add_right_comm, Nat.add_assoc]

private theorem afterInteger_of_endsNumber (hrest : EndsNumber rest) (h : n < Nat.pow 2 64) :
    afterInteger false n rest = .ok (.integer (.ofNatural n h), rest) := by
  have hinteger : finishInteger false n = .integer (.ofNatural n h) := by
    simp [finishInteger, Integer.ofInt?_natCast h]
  cases rest with
  | nil =>
    rw [← hinteger]
    rfl
  | cons b rest =>
    obtain ⟨hdigit, hpoint, hmark⟩ := hrest b rfl
    have hcount : countDigits (b :: rest) = 0 := by simp [countDigits, hdigit]
    have hdrop : dropDigits (b :: rest) = b :: rest := by simp [dropDigits, hdigit]
    unfold afterInteger
    rw [hcount, hdrop]
    dsimp only
    split
    · next hcons => exact absurd (List.cons.inj hcons).1 hpoint
    · next hcons =>
      obtain ⟨rfl, rfl⟩ := List.cons.inj hcons
      rw [hmark, if_neg Bool.false_ne_true, if_pos rfl, hinteger]
    · next hcons => cases hcons

private theorem countDigits_of_endsNumber (hrest : EndsNumber rest) : countDigits rest = 0 := by
  cases rest with
  | nil => rfl
  | cons b rest => simp [countDigits, (hrest b rfl).1]

private theorem readNumber_digits {b : UInt8} {d : Nat} (hdigit : digit? b = some d) (hd : d ≠ 0)
    (hdigits : ∀ c ∈ cs, c.isDigit = true) (hvalue : Nat.ofDigitChars 10 cs d = n)
    (h : n < Nat.pow 2 64) (hrest : EndsNumber rest) :
    readNumber false (b :: (Utf8.encode cs ++ rest)) = .ok (.integer (.ofNatural n h), rest) := by
  rw [readNumber, hdigit]
  split
  · next hnone => cases hnone
  · next hzero => exact absurd (Option.some.inj hzero) hd
  · next d' _ hsome =>
    obtain rfl := Option.some.inj hsome
    rw [takeDigits_encode hdigits hrest (hvalue ▸ h), hvalue]
    exact afterInteger_of_endsNumber hrest h

/-- An integer that is printed begins with a digit, and is read as it was in front of bytes that
end it. -/
theorem readNumber_decimal (h : n < Nat.pow 2 64) :
    ∃ b behind, Utf8.encode (Numeral.decimal n) = b :: behind ∧ (digit? b).isSome ∧
      ∀ rest, EndsNumber rest →
        readNumber false (b :: (behind ++ rest)) = .ok (.integer (.ofNatural n h), rest) := by
  obtain ⟨⟨hne, hdigits, hvalue⟩, hzero⟩ := Numeral.spells_decimal n
  obtain ⟨c, cs, hcs⟩ := List.exists_cons_of_ne_nil hne
  rw [hcs] at hdigits hvalue hzero
  obtain ⟨b, hbytes, hdigit⟩ := encodeChar_of_isDigit (hdigits c List.mem_cons_self)
  refine ⟨b, Utf8.encode cs, ?_, by rw [hdigit]; rfl, fun rest hrest ↦ ?_⟩
  · rw [hcs, Utf8.encode_cons, hbytes]
    rfl
  by_cases hc : c = '0'
  · -- Zero is printed as a single digit, behind which no other may stand.
    obtain rfl : cs = [] :=
      (List.cons.inj (hzero.resolve_right fun hhead ↦ hhead (congrArg some hc))).2
    obtain rfl : 0 = n := by rw [← hvalue, hc]; rfl
    have hsome : digit? b = some 0 := by rw [hdigit, hc]; rfl
    rw [readNumber, hsome]
    dsimp only
    rw [Utf8.encode, List.flatMap_nil, List.nil_append, countDigits_of_endsNumber hrest,
      if_neg (Nat.lt_irrefl 0)]
    exact afterInteger_of_endsNumber hrest h
  · have hlow : 48 ≤ c.toNat := (Char.isDigit_iff_toNat.mp (hdigits c List.mem_cons_self)).1
    have hpos : c.toNat - 48 ≠ 0 := by
      intro hsame
      exact hc (Char.toNat_inj.mp (Nat.le_antisymm (Nat.sub_eq_zero_iff_le.mp hsame) hlow))
    rw [Nat.ofDigitChars_cons, Nat.mul_zero, Nat.zero_add] at hvalue
    exact readNumber_digits hdigit hpos (fun d hd ↦ hdigits d (List.mem_cons_of_mem c hd)) hvalue h
      hrest

end RegionClient.Json

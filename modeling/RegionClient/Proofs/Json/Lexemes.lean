import RegionClient.Json.Printer
import RegionClient.Json.Reader
import RegionClient.Proofs.Text.Utf8

/-!
# Words, numbers and strings

What the readers of single lexemes take. Main statements: a word is read letter by letter
(`readWord_eq_ok_iff`), numbers and strings take bytes (`length_of_readNumber`,
`length_of_readString`), and a string that is printed is read as it was, whatever follows it
(`readString_printString`).
-/

namespace RegionClient.Json

open Text

/-! ## Words -/

/-- A word is read where its letters stand. -/
theorem readWord_eq_ok_iff {letters : List UInt8} {bytes rest : Bytes} :
    readWord letters bytes = .ok rest ↔ bytes = letters ++ rest := by
  induction letters generalizing bytes with
  | nil => simp [readWord]
  | cons letter letters ih =>
    cases bytes with
    | nil => simp [readWord]
    | cons b bytes =>
      rw [readWord]
      split
      · next hletter => simp [hletter, ih]
      · next hletter => simp [hletter]

/-- Passing over blanks adds no bytes. -/
theorem length_skipSpace_le (bytes : Bytes) : (skipSpace bytes).length ≤ bytes.length :=
  (List.dropWhile_sublist isSpace).length_le

/-! ## Numbers -/

/-- A digit is none of the bytes that are no digits. -/
theorem ne_of_isDigit {b mark : UInt8} (h : (digit? b).isSome) (hmark : digit? mark = none) :
    b ≠ mark := by
  rintro rfl
  rw [hmark] at h
  cases h

private theorem length_takeDigits_le (value count : Nat) (bytes : Bytes) :
    (takeDigits value count bytes).2.2.length ≤ bytes.length := by
  fun_induction takeDigits value count bytes with
  | case2 value count b rest d hdigit hfits ih => exact Nat.le_succ_of_le ih
  | case1 | case3 | case4 => exact Nat.le_refl _

private theorem length_dropDigits_le (bytes : Bytes) : (dropDigits bytes).length ≤ bytes.length :=
  (List.dropWhile_sublist _).length_le

private theorem length_takeExponent_le (value : Nat) (bytes : Bytes) :
    (takeExponent value bytes).2.length ≤ bytes.length := by
  fun_induction takeExponent value bytes with
  | case2 value b rest d hdigit hfits ih => exact Nat.le_succ_of_le ih
  | case3 value b rest d hdigit hfar => exact Nat.le_succ _
  | case1 | case4 => exact Nat.le_refl _

variable {negative : Bool} {significand : Nat} {n : Number} {bytes rest : Bytes}

private theorem rest_of_finishFloat {exponent : Int} {behind : Bytes}
    (h : finishFloat negative significand exponent behind = .ok (n, rest)) : rest = behind := by
  unfold finishFloat at h
  split at h
  · exact (Prod.mk.inj (Except.ok.inj h)).2.symm
  · cases h

private theorem length_of_readExponent {start : Int}
    (h : readExponent negative significand start bytes = .ok (n, rest)) :
    rest.length ≤ bytes.length := by
  unfold readExponent at h
  split at h
  next raises signless hsign =>
  have hsigned : signless.length ≤ bytes.length := by
    split at hsign
    all_goals
      obtain ⟨-, rfl⟩ := Prod.mk.inj hsign
      simp
  refine Nat.le_trans ?_ hsigned
  split at h
  · cases h
  split at h
  · cases h
  · next b behind _ d _ =>
    have htaken := length_takeExponent_le d behind
    split at h
    · next e left htake =>
      rw [htake] at htaken
      rw [rest_of_finishFloat h]
      exact Nat.le_succ_of_le htaken
    · next left htake =>
      rw [htake] at htaken
      split at h
      · cases h
      · obtain rfl := (Prod.mk.inj (Except.ok.inj h)).2
        exact Nat.le_succ_of_le (Nat.le_trans (length_dropDigits_le left) htaken)

private theorem length_of_finishDecimal {exponent : Int}
    (h : finishDecimal negative significand exponent bytes = .ok (n, rest)) :
    rest.length ≤ bytes.length := by
  unfold finishDecimal at h
  split at h
  · split at h
    · exact Nat.le_succ_of_le (length_of_readExponent h)
    · exact (rest_of_finishFloat h) ▸ Nat.le_refl _
  · exact (rest_of_finishFloat h) ▸ Nat.le_refl _

private theorem length_of_readFraction {start : Int}
    (h : readFraction negative significand start bytes = .ok (n, rest)) :
    rest.length ≤ bytes.length := by
  have htake := length_takeDigits_le significand 0 bytes
  unfold readFraction at h
  dsimp only at h
  split at h
  · exact Nat.le_trans (length_of_finishDecimal h) (Nat.le_trans (length_dropDigits_le _) htake)
  · split at h
    · cases h
    · exact Nat.le_trans (length_of_finishDecimal h) htake

private theorem length_of_afterInteger
    (h : afterInteger negative significand bytes = .ok (n, rest)) :
    rest.length ≤ bytes.length := by
  have hdrop := length_dropDigits_le bytes
  unfold afterInteger at h
  dsimp only at h
  split at h
  · next left hleft =>
    rw [hleft] at hdrop
    exact Nat.le_trans (Nat.le_succ_of_le (length_of_readFraction h)) hdrop
  · next b left hno hleft =>
    rw [hleft] at hdrop
    split at h
    · exact Nat.le_trans (Nat.le_succ_of_le (length_of_readExponent h)) hdrop
    · split at h
      · exact (Prod.mk.inj (Except.ok.inj h)).2 ▸ hdrop
      · exact (rest_of_finishFloat h) ▸ hdrop
  · next hleft =>
    rw [hleft] at hdrop
    split at h
    · exact (Prod.mk.inj (Except.ok.inj h)).2 ▸ hdrop
    · exact (rest_of_finishFloat h) ▸ hdrop

/-- A number takes bytes. -/
theorem length_of_readNumber (h : readNumber negative bytes = .ok (n, rest)) :
    rest.length < bytes.length := by
  unfold readNumber at h
  split at h
  · cases h
  · next b behind =>
    split at h
    · cases h
    · split at h
      · cases h
      · exact Nat.lt_succ_of_le (length_of_afterInteger h)
    · exact Nat.lt_succ_of_le (Nat.le_trans (length_of_afterInteger h) (length_takeDigits_le _ _ _))

/-! ## Strings -/

private theorem length_of_readContent {broken : Option Nat} {cs : List Char}
    (h : readContent broken bytes = .ok (cs, rest)) : rest.length < bytes.length := by
  fun_induction readContent broken bytes generalizing cs with
  | case1 | case3 | case4 | case5 | case7 | case8 => cases h
  | case2 => cases h; exact Nat.lt_succ_self _
  | case6 broken behind c next hescape cs' left hread hquote hshorter ih =>
    cases h
    exact Nat.lt_trans (ih hread) hshorter
  | case9 =>
    rename_i hshorter _ cs' left hread ih
    cases h
    exact Nat.lt_trans (ih hread) hshorter

/-- A string takes bytes. -/
theorem length_of_readString {s : String} (h : readString bytes = .ok (s, rest)) :
    rest.length < bytes.length := by
  unfold readString at h
  split at h
  · cases h
  · next cs left hread =>
    cases h
    exact length_of_readContent hread

/-- What is read behind a character, with the character in front. -/
def consContent (c : Char) (result : Except Fault (List Char × Bytes)) :
    Except Fault (List Char × Bytes) := result.map fun (cs, rest) ↦ (c :: cs, rest)

private theorem readContent_escape {c : Char} {escape : Bytes}
    (h : readEscape (escape ++ rest) = .ok (c, rest)) :
    readContent none (0x5C :: (escape ++ rest)) = consContent c (readContent none rest) := by
  rw [readContent, if_neg (by decide), if_pos rfl]
  split
  · next fault hfault =>
    rw [h] at hfault
    cases hfault
  · next c' next hread =>
    obtain ⟨rfl, rfl⟩ := Prod.mk.inj (Except.ok.inj (h.symm.trans hread))
    cases readContent none rest <;> rfl

private theorem readContent_encodeChar {c : Char} (hquote : c ≠ '\x22') (hescape : c ≠ '\\')
    (hcontrol : ¬ c.toNat < 0x20) :
    readContent none (Utf8.encodeChar c ++ rest) = consContent c (readContent none rest) := by
  obtain ⟨b, bytes, hbytes, hread⟩ := Utf8.readChar_encodeChar c rest
  -- The first byte is that of no mark and of no control character.
  have hchar : b.toNat < 0x80 → c = Char.ofNat b.toNat :=
    Utf8.eq_of_mem_encodeChar (hbytes ▸ List.mem_cons_self)
  have hquote' : b ≠ 0x22 := by
    rintro rfl
    exact hquote (hchar (by decide))
  have hescape' : b ≠ 0x5C := by
    rintro rfl
    exact hescape (hchar (by decide))
  have hcontrol' : ¬ b.toNat < 0x20 := by
    intro hlow
    have hnat : ∀ n < 0x20, (Char.ofNat n).toNat < 0x20 := by decide
    exact hcontrol (hchar (by omega) ▸ hnat _ hlow)
  rw [hbytes, List.cons_append, readContent, if_neg hquote', if_neg hescape', if_neg hcontrol']
  split
  next c' next hread' =>
  obtain ⟨rfl, rfl⟩ := Prod.mk.inj (hread.symm.trans hread')
  cases h : readContent none rest <;> simp [h, consContent, Except.map]

private theorem encodeChar_lower {n : Nat} (h : n < 16) :
    ∃ b, Utf8.encodeChar (Hex.lower n) = [b] ∧ Hex.value? (Char.ofNat b.toNat) = some n := by
  have hascii : (Hex.lower n).toNat < 0x80 :=
    (by decide : ∀ m ∈ List.range 16, (Hex.lower m).toNat < 0x80) n (List.mem_range.mpr h)
  refine ⟨_, Utf8.encodeChar_of_ascii hascii, ?_⟩
  rw [Utf8.toNat_ofNat (by omega), Char.ofNat_toNat, Hex.value?_lower h]

private theorem readEscape_lower {high low : Nat} (hhigh : high < 16) (hlow : low < 16) :
    ∃ escape, Utf8.encode ['\\', 'u', '0', '0', Hex.lower high, Hex.lower low] = 0x5C :: escape ∧
      ∀ rest, readEscape (escape ++ rest) = .ok (Char.ofNat (high * 16 + low), rest) := by
  obtain ⟨b, hb, hb'⟩ := encodeChar_lower hhigh
  obtain ⟨d, hd, hd'⟩ := encodeChar_lower hlow
  refine ⟨[0x75, 0x30, 0x30, b, d], ?_, fun rest ↦ ?_⟩
  · simp only [Utf8.encode_cons, hb, hd]
    rfl
  · have hzero : Hex.value? (Char.ofNat 48) = some 0 := by decide
    have hunit : readUnit (0x30 :: 0x30 :: b :: d :: rest) = .ok (high * 16 + low, rest) := by
      simp [readUnit, hzero, hb', hd']
    have hshort : shortEscape? 0x75 = none := by decide
    simp only [readEscape, List.cons_append, List.nil_append, hshort, readUnits, hunit]
    rw [if_pos trivial, if_neg (by omega), if_neg (by omega)]

private theorem readContent_escapeChar (c : Char) :
    readContent none (Utf8.encode (escapeChar c) ++ rest) =
      consContent c (readContent none rest) := by
  have hself : Char.ofNat c.toNat = c := Char.ofNat_toNat c
  -- An escape of two characters, by its second.
  have hshort : ∀ letter : Char, ∀ escape : UInt8,
      Utf8.encode ['\\', letter] = [0x5C, escape] → shortEscape? escape = some c →
      readContent none (Utf8.encode ['\\', letter] ++ rest) =
        consContent c (readContent none rest) := by
    intro letter escape hbytes hescape
    have hread : readEscape ([escape] ++ rest) = .ok (c, rest) := by simp [readEscape, hescape]
    rw [hbytes]
    exact readContent_escape hread
  unfold escapeChar
  split
  · next h => exact hshort 'b' 0x62 (by decide) (by rw [← hself, h]; rfl)
  · next h => exact hshort 't' 0x74 (by decide) (by rw [← hself, h]; rfl)
  · next h => exact hshort 'n' 0x6E (by decide) (by rw [← hself, h]; rfl)
  · next h => exact hshort 'f' 0x66 (by decide) (by rw [← hself, h]; rfl)
  · next h => exact hshort 'r' 0x72 (by decide) (by rw [← hself, h]; rfl)
  · next h => exact hshort '\x22' 0x22 (by decide) (by rw [← hself, h]; rfl)
  · next h => exact hshort '\\' 0x5C (by decide) (by rw [← hself, h]; rfl)
  · next hquote hescape =>
    split
    · next hcontrol =>
      have hhigh : c.toNat / 16 < 16 := by omega
      have hlow : c.toNat % 16 < 16 := by omega
      have hjoin : c.toNat / 16 * 16 + c.toNat % 16 = c.toNat := by omega
      obtain ⟨escape, hbytes, hread⟩ := readEscape_lower hhigh hlow
      rw [hjoin, hself] at hread
      rw [hbytes]
      exact readContent_escape (hread rest)
    · next hcontrol =>
      have hbytes : Utf8.encode [c] = Utf8.encodeChar c := List.flatMap_singleton _ c
      rw [hbytes]
      refine readContent_encodeChar ?_ ?_ hcontrol
      · rintro rfl
        exact hquote rfl
      · rintro rfl
        exact hescape rfl

/-- A string that is printed is read as it was, whatever follows it. -/
theorem readString_printString (s : String) :
    ∃ behind, Utf8.encode (printString s) = 0x22 :: behind ∧
      ∀ rest, readString (behind ++ rest) = .ok (s, rest) := by
  have hcontent : ∀ (cs : List Char) (rest : Bytes),
      readContent none (Utf8.encode (cs.flatMap escapeChar) ++ (0x22 :: rest)) = .ok (cs, rest) := by
    intro cs rest
    induction cs with
    | nil => rw [List.flatMap_nil, Utf8.encode, List.flatMap_nil, List.nil_append, readContent]; rfl
    | cons c cs ih =>
      rw [List.flatMap_cons, Utf8.encode_append, List.append_assoc, readContent_escapeChar, ih]
      rfl
  refine ⟨Utf8.encode (s.toList.flatMap escapeChar) ++ [0x22], ?_, fun rest ↦ ?_⟩
  · rw [printString, List.cons_append, Utf8.encode_cons, Utf8.encode_append]
    rfl
  · rw [readString, List.append_assoc, List.singleton_append, hcontent]
    simp only [String.ofList_toList]

end RegionClient.Json

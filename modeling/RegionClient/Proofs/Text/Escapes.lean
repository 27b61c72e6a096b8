import RegionClient.Text.Percent

/-!
# Laws of escapes

What escaped text tells of the text behind it. Main statements: the bytes of a text tell the text
(`Utf8.encode_injective`), every ASCII byte of a text is one of its characters
(`Utf8.mem_of_decode?`), a character that is always escaped does not stand in escaped text
(`Percent.notMem_encode`), every spelling of a dot is one (`Percent.decode_escapedDot`), and no
escape reaches over a character that is no digit (`Percent.decode_append`).
-/

namespace RegionClient.Text

/-- The bytes of a text tell the text. -/
theorem Utf8.encode_injective {cs cs' : List Char} (h : encode cs = encode cs') : cs = cs' := by
  have hbytes : cs.utf8Encode = cs'.utf8Encode := by
    unfold List.utf8Encode
    exact congrArg List.toByteArray h
  rw [← String.toByteArray_ofList, ← String.toByteArray_ofList, String.toByteArray_inj] at hbytes
  exact String.ofList_injective hbytes

/-- Only capital letters have another lower case. -/
theorem toNat_toLower (c : Char) :
    c.toLower.toNat = if 65 ≤ c.toNat ∧ c.toNat ≤ 90 then c.toNat + 32 else c.toNat := by
  have hcapital : (c.val ≥ 'A'.val ∧ c.val ≤ 'Z'.val) ↔ (65 ≤ c.toNat ∧ c.toNat ≤ 90) := by
    simp only [ge_iff_le, UInt32.le_iff_toNat_le]
    exact Iff.rfl
  unfold Char.toLower
  split
  · next h =>
    have h' := hcapital.mp h
    rw [if_pos h']
    show (c.val + ('a'.val - 'A'.val)).toNat = c.toNat + 32
    have hval : c.toNat = c.val.toNat := rfl
    have hstep : ('a'.val - 'A'.val).toNat = 32 := by decide
    rw [UInt32.toNat_add]
    omega
  · next h =>
    rw [if_neg]
    intro h'
    exact h (hcapital.mpr h')

/-- A character that is no small letter is the lower case of itself only. -/
theorem eq_of_toLower_eq {c d : Char} (h : c.toLower = d)
    (hd : ¬ (97 ≤ d.toNat ∧ d.toNat ≤ 122)) : c = d := by
  have hnat := toNat_toLower c
  rw [h] at hnat
  apply Char.toNat_inj.mp
  split at hnat <;> omega

private theorem eq_or_eq_of_toLower_eq_e {c : Char} (h : c.toLower = 'e') : c = 'e' ∨ c = 'E' := by
  have hnat := toNat_toLower c
  rw [h] at hnat
  have he : 'e'.toNat = 101 := rfl
  have hE : 'E'.toNat = 69 := rfl
  rw [he] at hnat
  split at hnat
  · right
    apply Char.toNat_inj.mp
    omega
  · left
    apply Char.toNat_inj.mp
    omega

/-- An ASCII character is its byte. -/
theorem Utf8.encodeChar_of_ascii {c : Char} (h : c.toNat < 0x80) :
    encodeChar c = [UInt8.ofNat c.toNat] :=
  if_pos (Nat.le_of_lt_succ h)

private theorem Utf8.mem_of_readTails {count low high value n : Nat} {bytes rest : Bytes}
    {b : UInt8} (hlow : 0x80 ≤ low) (h : readTails count low high value bytes = (some n, rest))
    (hb : b ∈ bytes) (hascii : b.toNat < 0x80) : b ∈ rest := by
  induction count generalizing low high value bytes with
  | zero =>
    rw [readTails] at h
    rw [← (Prod.mk.inj h).2]
    exact hb
  | succ count ih =>
    cases bytes with
    | nil => cases hb
    | cons b' bytes =>
      rw [readTails] at h
      split at h
      · next hbounds =>
        have hne : b ≠ b' := by
          rintro rfl
          omega
        have hbehind : b ∈ bytes := (List.mem_cons.mp hb).resolve_left hne
        exact ih (by omega) h hbehind
      · cases h

private theorem Utf8.low_of_lead? {b : UInt8} {l : Lead} (h : lead? b = some l) : 0x80 ≤ l.low := by
  unfold lead? at h
  dsimp only at h
  repeat' split at h
  all_goals cases h
  all_goals dsimp only
  all_goals omega

private theorem Utf8.mem_of_readChar {b b' : UInt8} {c : Char} {bytes rest : Bytes}
    (h : readChar b bytes = (some c, rest)) (hb : b' ∈ b :: bytes) (hascii : b'.toNat < 0x80) :
    c = Char.ofNat b'.toNat ∨ b' ∈ rest := by
  unfold readChar at h
  split at h
  · obtain ⟨hc, rfl⟩ := Prod.mk.inj h
    rcases List.mem_cons.mp hb with rfl | hb
    · exact .inl (Option.some.inj hc).symm
    · exact .inr hb
  · next hfirst =>
    have hne : b' ≠ b := by
      rintro rfl
      exact hfirst hascii
    have hbehind : b' ∈ bytes := (List.mem_cons.mp hb).resolve_left hne
    split at h
    · cases h
    · next l hlead =>
      right
      obtain ⟨hc, hrest⟩ := Prod.mk.inj h
      obtain ⟨n, hn, -⟩ := Option.map_eq_some_iff.mp hc
      exact mem_of_readTails (low_of_lead? hlead) (Prod.ext hn hrest) hbehind hascii

/-- Every ASCII byte of a text is one of its characters. -/
theorem Utf8.mem_of_decode? {bytes : Bytes} {cs : List Char} (h : decode? bytes = some cs)
    {b : UInt8} (hb : b ∈ bytes) (hascii : b.toNat < 0x80) : Char.ofNat b.toNat ∈ cs := by
  have hfront : decodeFront bytes = (cs, []) := by
    unfold decode? at h
    split at h
    · next hfront => rw [hfront, Option.some.inj h]
    · cases h
  clear h
  fun_induction decodeFront bytes generalizing cs with
  | case1 => cases hb
  | case2 b' rest c next hread hlt r =>
    rename_i ih
    obtain ⟨rfl, hnext⟩ := Prod.mk.inj hfront
    rcases mem_of_readChar hread hb hascii with rfl | hb
    · exact List.mem_cons_self
    · exact List.mem_cons_of_mem c (ih hb (Prod.ext rfl hnext))
  | case3 => cases hfront

namespace Percent

/-- Escaping is done character by character. -/
theorem encode_append (escaped : Char → Bool) (cs cs' : List Char) :
    encode escaped (cs ++ cs') = encode escaped cs ++ encode escaped cs' :=
  List.flatMap_append

/-- ASCII text outside the set is not escaped. -/
theorem encode_eq_self {escaped : Char → Bool} {cs : List Char}
    (h : ∀ c ∈ cs, c.toNat < 0x80 ∧ escaped c = false) : encode escaped cs = cs := by
  induction cs with
  | nil => rfl
  | cons c rest ih =>
    have hc : encodeChar escaped c = [c] := if_pos (h c List.mem_cons_self)
    have hrest := ih fun c' hc' ↦ h c' (List.mem_cons_of_mem c hc')
    rw [encode, List.flatMap_cons, hc, ← encode, hrest]
    rfl

/-- An escaped text is empty only if the text is. -/
theorem encode_ne_nil {escaped : Char → Bool} {cs : List Char} (h : cs ≠ []) :
    encode escaped cs ≠ [] := by
  obtain ⟨c, rest, rfl⟩ := List.exists_cons_of_ne_nil h
  have hbytes : Utf8.encodeChar c ≠ [] := by
    have hlength : 0 < (Utf8.encodeChar c).length := by
      rw [Utf8.encodeChar, String.length_utf8EncodeChar]
      exact c.utf8Size_pos
    exact List.ne_nil_of_length_pos hlength
  have hchar : encodeChar escaped c ≠ [] := by
    unfold encodeChar
    split
    · exact List.cons_ne_nil c []
    · obtain ⟨b, bytes, hcons⟩ := List.exists_cons_of_ne_nil hbytes
      rw [escape, hcons]
      exact List.cons_ne_nil _ _
  rw [encode, List.flatMap_cons]
  exact List.append_ne_nil_of_left_ne_nil hchar _

/-- Escaped text is made of plain characters outside the set, and of escapes. -/
theorem mem_encode {escaped : Char → Bool} {c : Char} {cs : List Char}
    (h : c ∈ encode escaped cs) :
    (c ∈ cs ∧ escaped c = false) ∨ c = '%' ∨ ∃ n < 16, c = Hex.upper n := by
  obtain ⟨d, hd, hmem⟩ := List.mem_flatMap.mp h
  unfold encodeChar at hmem
  split at hmem
  · next hplain =>
    obtain rfl := List.mem_singleton.mp hmem
    exact .inl ⟨hd, hplain.2⟩
  · obtain ⟨b, -, hmem⟩ := List.mem_flatMap.mp hmem
    have hb : b.toNat < 256 := b.toNat_lt_size
    simp only [escapeByte, List.mem_cons, List.not_mem_nil, or_false] at hmem
    rcases hmem with hc | hc | hc
    · exact .inr (.inl hc)
    · exact .inr (.inr ⟨_, by omega, hc⟩)
    · exact .inr (.inr ⟨_, by omega, hc⟩)

/-- Escaped text is ASCII. -/
theorem ascii_of_mem_encode {escaped : Char → Bool} {c : Char} {cs : List Char}
    (h : c ∈ encode escaped cs) : c.toNat < 0x80 := by
  obtain ⟨d, -, hmem⟩ := List.mem_flatMap.mp h
  unfold encodeChar at hmem
  split at hmem
  · next hplain =>
    obtain rfl := List.mem_singleton.mp hmem
    exact hplain.1
  · obtain ⟨b, -, hmem⟩ := List.mem_flatMap.mp hmem
    have hb : b.toNat < 256 := b.toNat_lt_size
    have hdigit : ∀ n < 16, (Hex.upper n).toNat < 0x80 := by decide
    simp only [escapeByte, List.mem_cons, List.not_mem_nil, or_false] at hmem
    rcases hmem with rfl | rfl | rfl
    · decide
    · exact hdigit _ (by omega)
    · exact hdigit _ (by omega)

/-- A character of the set does not stand in escaped text, unless escapes are written with it. -/
theorem notMem_encode {escaped : Char → Bool} {c : Char} (h : escaped c = true) (hmark : c ≠ '%')
    (hdigit : ∀ n < 16, c ≠ Hex.upper n) (cs : List Char) : c ∉ encode escaped cs := by
  intro hmem
  rcases mem_encode hmem with ⟨-, hplain⟩ | hc | ⟨n, hn, hc⟩
  · rw [h] at hplain
    cases hplain
  · exact hmark hc
  · exact hdigit n hn hc

/-- A slash stands in escaped text only if it stood in the text. -/
theorem slash_notMem_encode {escaped : Char → Bool} {cs : List Char} (h : '/' ∉ cs) :
    '/' ∉ encode escaped cs := by
  intro hmem
  rcases mem_encode hmem with ⟨hmem, -⟩ | hc | ⟨n, hn, hc⟩
  · exact h hmem
  · exact absurd hc (by decide)
  · exact absurd hc ((by decide : ∀ n < 16, '/' ≠ Hex.upper n) n hn)

/-- A dot is its byte. -/
theorem decode_dot (rest : List Char) : decode ('.' :: rest) = 0x2E :: decode rest :=
  decode_cons_of_ne (by decide) rest

/-- An escaped dot is its byte, whatever the case of its digits. -/
theorem decode_escapedDot {mark high low : Char} (hmark : mark.toLower = '%')
    (hhigh : high.toLower = '2') (hlow : low.toLower = 'e') (rest : List Char) :
    decode (mark :: high :: low :: rest) = 0x2E :: decode rest := by
  obtain rfl := eq_of_toLower_eq hmark (by decide)
  obtain rfl := eq_of_toLower_eq hhigh (by decide)
  rcases eq_or_eq_of_toLower_eq_e hlow with rfl | rfl
  · rfl
  · rfl

private theorem decode_mark {high low : Char}
    (h : ∀ n m, Hex.value? high = some n → Hex.value? low = some m → False) (rest : List Char) :
    decode ('%' :: high :: low :: rest) = Utf8.encodeChar '%' ++ decode (high :: low :: rest) := by
  rw [decode]
  split
  · next n m hhigh hlow => exact absurd hlow fun hlow ↦ h n m hhigh hlow
  · rfl

/-- No escape reaches over a character that is no digit. -/
theorem decode_append {c : Char} (h : Hex.value? c = none) (cs rest : List Char) :
    decode (cs ++ c :: rest) = decode cs ++ decode (c :: rest) := by
  fun_induction decode cs with
  | case1 => rfl
  | case2 high low behind n m hhigh hlow ih =>
    rw [List.cons_append, List.cons_append, List.cons_append, decode, hhigh, hlow]
    dsimp only
    rw [ih, List.cons_append]
  | case3 high low behind hnone ih =>
    rw [List.cons_append, List.cons_append, List.cons_append, decode_mark hnone, List.append_assoc]
    exact congrArg _ ih
  | case4 c' behind hnone ih =>
    rw [List.append_assoc, ← ih]
    by_cases hmark : c' = '%'
    · subst hmark
      -- What is left behind the mark is too short for an escape, and the next character ends it.
      cases behind with
      | nil =>
        cases rest with
        | nil => rfl
        | cons low rest =>
          refine decode_mark (fun n _ hn _ ↦ ?_) rest
          rw [h] at hn
          cases hn
      | cons high behind =>
        cases behind with
        | nil =>
          refine decode_mark (fun _ m _ hm ↦ ?_) rest
          rw [h] at hm
          cases hm
        | cons low behind => exact absurd rfl (hnone high low behind rfl)
    · exact decode_cons_of_ne hmark _

/-- An ASCII character that no escape is made of is one of the characters that the text around it
spells. -/
theorem mem_of_decode? {c : Char} {cs spelled : List Char} (hascii : c.toNat < 0x80)
    (hmark : c ≠ '%') (hdigit : Hex.value? c = none) (hmem : c ∈ cs)
    (h : Utf8.decode? (decode cs) = some spelled) : c ∈ spelled := by
  obtain ⟨front, rest, rfl⟩ := List.append_of_mem hmem
  rw [decode_append hdigit, decode_cons_of_ne hmark, Utf8.encodeChar_of_ascii hascii] at h
  have hbyte : (UInt8.ofNat c.toNat).toNat = c.toNat := by
    rw [UInt8.toNat_ofNat']
    omega
  have hspelled := Utf8.mem_of_decode? h (b := UInt8.ofNat c.toNat) (by simp) (by omega)
  rwa [hbyte, Char.ofNat_toNat] at hspelled

end Percent

end RegionClient.Text

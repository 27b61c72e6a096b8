import RegionClient.Proofs.Text.Escapes
import RegionClient.Proofs.Text.Split

/-!
# Laws of UTF-8

Reading what was written. Main statements: the bytes of a character are read as that character,
whatever follows them (`readChar_encodeChar`), so that the bytes of a text spell that text
(`decode?_encode`, `decodeReplacing_encode`), the bytes of a text that begins in ASCII stand in the
bytes of another only where the text stands in the other (`infix_of_encode`), and strings are
ordered as their bytes are (`ofString_lt_ofString_iff`).
-/

namespace RegionClient.Text.Utf8

/-- A small number is the value of its byte. -/
theorem toNat_ofNat {n : Nat} (h : n < 256) : (UInt8.ofNat n).toNat = n := by
  rw [UInt8.toNat_ofNat']
  omega

private theorem readTails_succ {low high bits : Nat} (hlow : low ≤ bits + 128)
    (hhigh : bits + 128 ≤ high) (hbits : bits < 64) (count value : Nat) (rest : Bytes) :
    readTails (count + 1) low high value (UInt8.ofNat (bits + 128) :: rest) =
      readTails count 0x80 0xBF (value * 64 + bits) rest := by
  have hbyte : (UInt8.ofNat (bits + 128)).toNat = bits + 128 := toNat_ofNat (by omega)
  have hmod : (bits + 128) % 64 = bits := by omega
  rw [readTails, hbyte, if_pos ⟨hlow, hhigh⟩, hmod]

private theorem lead?_two {n : Nat} (h : 2 ≤ n) (h' : n < 32) :
    lead? (UInt8.ofNat (n + 192)) = some ⟨1, 0x80, 0xBF, n⟩ := by
  have hbyte : (UInt8.ofNat (n + 192)).toNat = n + 192 := toNat_ofNat (by omega)
  rw [lead?, hbyte, if_pos (by omega)]
  simp

private theorem lead?_three {n : Nat} (h : n < 16) :
    lead? (UInt8.ofNat (n + 224)) =
      some ⟨2, if n = 0 then 0xA0 else 0x80, if n = 13 then 0x9F else 0xBF, n⟩ := by
  have hbyte : (UInt8.ofNat (n + 224)).toNat = n + 224 := toNat_ofNat (by omega)
  simp only [lead?, hbyte]
  grind

private theorem lead?_four {n : Nat} (h : n < 5) :
    lead? (UInt8.ofNat (n + 240)) =
      some ⟨3, if n = 0 then 0x90 else 0x80, if n = 4 then 0x8F else 0xBF, n⟩ := by
  have hbyte : (UInt8.ofNat (n + 240)).toNat = n + 240 := toNat_ofNat (by omega)
  simp only [lead?, hbyte]
  grind

/-- The bytes of a character are read as that character, whatever follows them. -/
theorem readChar_encodeChar (c : Char) (rest : Bytes) :
    ∃ b bytes, encodeChar c = b :: bytes ∧ readChar b (bytes ++ rest) = (some c, rest) := by
  have hvalid : c.toNat < 0xD800 ∨ 0xDFFF < c.toNat ∧ c.toNat < 0x110000 := c.valid
  have hself : Char.ofNat c.toNat = c := Char.ofNat_toNat c
  have hnat : c.val.toNat = c.toNat := rfl
  unfold encodeChar String.utf8EncodeChar
  rw [hnat]
  generalize c.toNat = v at hvalid hself
  dsimp only
  have hlong : ∀ n, 128 ≤ n → n < 256 → ¬ (UInt8.ofNat n).toNat < 0x80 := by
    intro n hn hn'
    rw [toNat_ofNat hn']
    omega
  -- One case for each number of bytes; the first byte is above ASCII in all but the first.
  by_cases h1 : v ≤ 127
  · rw [if_pos h1]
    refine ⟨_, [], rfl, ?_⟩
    have hbyte : (UInt8.ofNat v).toNat = v := toNat_ofNat (by omega)
    rw [readChar, hbyte, if_pos (by omega), hself]
    rfl
  rw [if_neg h1]
  by_cases h2 : v ≤ 2047
  · rw [if_pos h2]
    refine ⟨_, _, rfl, ?_⟩
    rw [readChar, if_neg (hlong _ (by omega) (by omega)), lead?_two (by omega) (by omega)]
    simp only [List.cons_append, List.nil_append]
    rw [readTails_succ (by omega) (by omega) (by omega), readTails]
    have hv : v / 64 % 32 * 64 + v % 64 = v := by omega
    rw [hv, Option.map_some, hself]
  rw [if_neg h2]
  by_cases h3 : v ≤ 65535
  · rw [if_pos h3]
    refine ⟨_, _, rfl, ?_⟩
    rw [readChar, if_neg (hlong _ (by omega) (by omega)), lead?_three (by omega)]
    simp only [List.cons_append, List.nil_append]
    rw [readTails_succ (by split <;> omega) (by split <;> omega) (by omega),
      readTails_succ (by omega) (by omega) (by omega), readTails]
    have hv : (v / 4096 % 16 * 64 + v / 64 % 64) * 64 + v % 64 = v := by omega
    rw [hv, Option.map_some, hself]
  · rw [if_neg h3]
    refine ⟨_, _, rfl, ?_⟩
    rw [readChar, if_neg (hlong _ (by omega) (by omega)), lead?_four (by omega)]
    simp only [List.cons_append, List.nil_append]
    rw [readTails_succ (by split <;> omega) (by split <;> omega) (by omega),
      readTails_succ (by omega) (by omega) (by omega),
      readTails_succ (by omega) (by omega) (by omega), readTails]
    have hv : ((v / 262144 % 8 * 64 + v / 4096 % 64) * 64 + v / 64 % 64) * 64 + v % 64 = v := by
      omega
    rw [hv, Option.map_some, hself]

private theorem decodeReplacing_cons (b : UInt8) (rest : Bytes) :
    decodeReplacing (b :: rest) =
      (readChar b rest).1.getD '\uFFFD' :: decodeReplacing (readChar b rest).2 := by
  rw [decodeReplacing]

/-- The bytes of a text spell that text, and nothing of it is replaced. -/
theorem decodeReplacing_encode (cs : List Char) : decodeReplacing (encode cs) = cs := by
  induction cs with
  | nil => rw [encode, List.flatMap_nil, decodeReplacing]
  | cons c cs ih =>
    obtain ⟨b, bytes, hbytes, hread⟩ := readChar_encodeChar c (encode cs)
    rw [encode, List.flatMap_cons, hbytes, List.cons_append, decodeReplacing_cons, ← encode,
      hread, ih]
    rfl

/-- The well-formed front of the bytes of a text is all of it. -/
theorem decodeFront_encode (cs : List Char) : decodeFront (encode cs) = (cs, []) := by
  induction cs with
  | nil => rw [encode, List.flatMap_nil, decodeFront]
  | cons c cs ih =>
    obtain ⟨b, bytes, hbytes, hread⟩ := readChar_encodeChar c (encode cs)
    rw [encode, List.flatMap_cons, hbytes, List.cons_append, ← encode, decodeFront]
    split
    · next c' next hread' =>
      obtain ⟨hc, rfl⟩ := Prod.mk.inj (hread.symm.trans hread')
      rw [ih, Option.some.inj hc]
    · next hread' =>
      rw [hread] at hread'
      cases hread'

/-- The bytes of a text spell that text. -/
theorem decode?_encode (cs : List Char) : decode? (encode cs) = some cs := by
  rw [decode?, decodeFront_encode]

/-- The bytes of a string spell that string. -/
theorem toStringReplacing_ofString (s : String) : toStringReplacing (ofString s) = s := by
  rw [toStringReplacing, ofString, decodeReplacing_encode, String.ofList_toList]

/-! ## Texts inside texts -/

/-- The bytes of a text come character by character. -/
theorem encode_cons (c : Char) (cs : List Char) : encode (c :: cs) = encodeChar c ++ encode cs :=
  List.flatMap_cons

/-- The bytes of two texts are those of the one and then of the other. -/
theorem encode_append (cs cs' : List Char) : encode (cs ++ cs') = encode cs ++ encode cs' :=
  List.flatMap_append

/-- An ASCII byte of a character is all of it. -/
theorem eq_of_mem_encodeChar {b : UInt8} {c : Char} (hb : b ∈ encodeChar c)
    (hascii : b.toNat < 0x80) : c = Char.ofNat b.toNat := by
  have hbytes : encode [c] = encodeChar c :=
    List.flatMap_singleton encodeChar c
  have hmem := mem_of_decode? (decode?_encode [c]) (hbytes.symm ▸ hb) hascii
  exact (List.mem_singleton.mp hmem).symm

/-- The bytes of a text begin those of another only if the text begins the other. -/
theorem prefix_of_encode {cs cs' : List Char} (h : encode cs <+: encode cs') : cs <+: cs' := by
  induction cs generalizing cs' with
  | nil => exact List.nil_prefix
  | cons c cs ih =>
    obtain ⟨tail, htail⟩ := h
    obtain ⟨b, bytes, hbytes, hread⟩ := readChar_encodeChar c (encode cs ++ tail)
    rw [encode_cons, hbytes, List.append_assoc, List.cons_append] at htail
    cases cs' with
    | nil => cases htail
    | cons c' cs' =>
      obtain ⟨b', bytes', hbytes', hread'⟩ := readChar_encodeChar c' (encode cs')
      rw [encode_cons, hbytes', List.cons_append] at htail
      obtain ⟨rfl, hrest⟩ := List.cons.inj htail
      rw [hrest, hread'] at hread
      obtain ⟨hc, hcs⟩ := Prod.mk.inj hread
      obtain rfl := Option.some.inj hc
      exact List.cons_prefix_cons.mpr ⟨rfl, ih ⟨tail, hcs.symm⟩⟩

/-- The bytes of a text that begins in ASCII stand in the bytes of another only where the text
stands in the other. -/
theorem infix_of_encode {c : Char} {cs text : List Char} (hascii : c.toNat < 0x80)
    (h : encode (c :: cs) <:+: encode text) : c :: cs <:+: text := by
  have hbyte : (UInt8.ofNat c.toNat).toNat = c.toNat := toNat_ofNat (by omega)
  induction text with
  | nil =>
    have hlength := h.length_le
    rw [encode_cons, encodeChar_of_ascii hascii] at hlength
    exact absurd hlength (Nat.not_succ_le_zero _)
  | cons c' text ih =>
    apply List.infix_cons_iff.mpr
    by_cases hc : c' = c
    · subst hc
      have h' := h
      rw [encode_cons c' text, encodeChar_of_ascii hascii, List.singleton_append,
        List.infix_cons_iff] at h
      rcases h with hprefix | hstands
      · left
        apply prefix_of_encode
        rw [encode_cons c' text, encodeChar_of_ascii hascii]
        exact hprefix
      · exact .inr (ih hstands)
    · right
      apply ih
      rw [encode_cons c, encodeChar_of_ascii hascii, encode_cons] at h
      rw [encode_cons, encodeChar_of_ascii hascii]
      refine infix_of_infix_append (fun hmem ↦ hc ?_) h
      rw [eq_of_mem_encodeChar hmem (by omega), hbyte, Char.ofNat_toNat]

/-! ## The order of texts -/

private theorem ofNat_cons_lt_iff {m n : Nat} {bytes bytes' : Bytes} (hm : m < 256) (hn : n < 256) :
    UInt8.ofNat m :: bytes < UInt8.ofNat n :: bytes' ↔ m < n ∨ m = n ∧ bytes < bytes' := by
  rw [List.cons_lt_cons_iff, UInt8.lt_iff_toNat_lt, ← UInt8.toNat_inj, toNat_ofNat hm,
    toNat_ofNat hn]

private theorem encodeChar_lt {c c' : Char} (h : c < c') (rest rest' : Bytes) :
    encodeChar c ++ rest < encodeChar c' ++ rest' := by
  have hvalid : c'.toNat < 0x110000 := by
    have : c'.toNat < 0xD800 ∨ 0xDFFF < c'.toNat ∧ c'.toNat < 0x110000 := c'.valid
    omega
  have hlt : c.toNat < c'.toNat := h
  -- The digits of a character are taken one behind the other.
  have htwo : ∀ n, n / 4096 = n / 64 / 64 := fun n ↦ (Nat.div_div_eq_div_mul n 64 64).symm
  have hthree : ∀ n, n / 262144 = n / 64 / 64 / 64 := by omega
  have hnat : ∀ c : Char, c.val.toNat = c.toNat := fun _ ↦ rfl
  unfold encodeChar String.utf8EncodeChar
  simp only [hnat, htwo, hthree]
  generalize c.toNat = v at hlt
  generalize c'.toNat = v' at hlt hvalid
  -- The more bytes a character has, the larger is the first; of equally many bytes, the first that
  -- differ are ordered as the digits in them.
  repeat' split
  all_goals
    simp (disch := omega) only [List.cons_append, List.nil_append, ofNat_cons_lt_iff]
    omega

/-- Texts are ordered as their bytes are. -/
theorem encode_lt_encode {cs cs' : List Char} (h : cs < cs') : encode cs < encode cs' := by
  induction cs generalizing cs' with
  | nil =>
    cases cs' with
    | nil => exact absurd h (List.lt_irrefl [])
    | cons c cs' =>
      obtain ⟨b, bytes, hbytes, -⟩ := readChar_encodeChar c []
      rw [encode_cons, hbytes]
      exact List.nil_lt_cons b _
  | cons c cs ih =>
    cases cs' with
    | nil => exact absurd h (List.not_lt_nil _)
    | cons c' cs' =>
      rw [encode_cons, encode_cons]
      rcases List.cons_lt_cons_iff.mp h with hlt | ⟨rfl, hlt⟩
      · exact encodeChar_lt hlt _ _
      · exact List.append_left_lt (ih hlt)

/-- Strings are ordered as their bytes are. -/
theorem ofString_lt_ofString_iff {s t : String} : ofString s < ofString t ↔ s < t := by
  refine ⟨fun h ↦ ?_, encode_lt_encode⟩
  by_contra hnot
  rcases Std.le_iff_lt_or_eq.mp (Std.not_lt.mp hnot) with hlt | rfl
  · exact List.lt_asymm h (encode_lt_encode hlt)
  · exact List.lt_irrefl _ h

end RegionClient.Text.Utf8

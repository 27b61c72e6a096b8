import RegionClient.Proofs.Text.Split
import RegionClient.Proofs.Text.Utf8
import RegionClient.Text.Form

/-!
# Laws of form encoding

Reading back what form encoding writes. Main statements: a text between `&` and a text is read as
what the two spell (`decode_append`), and the pairs that were written are read, in order, whatever
they hold (`decode_encode`).
-/

namespace RegionClient.Text.Form

/-! ## Names and values -/

private theorem isPlain_upper {n : Nat} (h : n < 16) : isPlain (Hex.upper n) = true :=
  (by decide : ∀ m < 16, isPlain (Hex.upper m) = true) n h

/-- Encoded text is made of plain characters, plus signs and percent signs. -/
theorem of_mem_encodeText {c : Char} {cs : List Char} (h : c ∈ encodeText cs) :
    isPlain c = true ∨ c = '+' ∨ c = '%' := by
  obtain ⟨d, -, hmem⟩ := List.mem_flatMap.mp h
  unfold encodeChar at hmem
  split at hmem
  · exact .inr (.inl (List.mem_singleton.mp hmem))
  · split at hmem
    · next hplain =>
      rw [List.mem_singleton.mp hmem]
      exact .inl hplain
    · obtain ⟨b, -, hmem⟩ := List.mem_flatMap.mp hmem
      have hb : b.toNat < 256 := b.toNat_lt_size
      simp only [Percent.escapeByte, List.mem_cons, List.not_mem_nil, or_false] at hmem
      rcases hmem with rfl | rfl | rfl
      · exact .inr (.inr rfl)
      · exact .inl (isPlain_upper (by omega))
      · exact .inl (isPlain_upper (by omega))

private theorem mark_notMem_encodeText {c : Char} (h : c = '&' ∨ c = '=') (cs : List Char) :
    c ∉ encodeText cs := by
  intro hmem
  rcases h with rfl | rfl <;> exact absurd (of_mem_encodeText hmem) (by decide)

/-- The space that a plus sign is, and any other character as it is. -/
def plusToSpace (c : Char) : Char := if c = '+' then ' ' else c

private theorem map_plusToSpace_escape (c : Char) :
    (Percent.escape c).map plusToSpace = Percent.escape c := by
  have hmark : plusToSpace '%' = '%' := by decide
  have hdigit : ∀ n < 16, plusToSpace (Hex.upper n) = Hex.upper n := by decide
  have hbyte : ∀ b : UInt8, (Percent.escapeByte b).map plusToSpace = Percent.escapeByte b := by
    intro b
    have hb : b.toNat < 256 := b.toNat_lt_size
    rw [Percent.escapeByte, List.map_cons, List.map_cons, List.map_singleton, hmark,
      hdigit _ (by omega), hdigit _ (by omega)]
  rw [Percent.escape, List.map_flatMap]
  simp only [hbyte]

private theorem decode_encodeChar (c : Char) (rest : List Char) :
    Percent.decode ((encodeChar c).map plusToSpace ++ rest) =
      Utf8.encodeChar c ++ Percent.decode rest := by
  unfold encodeChar
  split
  · next hspace =>
    subst hspace
    exact Percent.decode_cons_of_ne (by decide) rest
  · split
    · next hplain =>
      have hmark : c ≠ '%' := by
        rintro rfl
        exact absurd hplain (by decide)
      have hself : plusToSpace c = c := by
        refine if_neg ?_
        rintro rfl
        exact absurd hplain (by decide)
      rw [List.map_singleton, hself, List.singleton_append, Percent.decode_cons_of_ne hmark]
    · rw [map_plusToSpace_escape, Percent.escape, Percent.decode_flatMap_escapeByte]

/-- A name or a value that is written is read as it was. -/
theorem decodeText_encodeText (cs : List Char) : decodeText (encodeText cs) = String.ofList cs := by
  have hbytes : Percent.decode ((encodeText cs).map plusToSpace) = Utf8.encode cs := by
    induction cs with
    | nil => rfl
    | cons c cs ih =>
      rw [encodeText, List.flatMap_cons, List.map_append, decode_encodeChar, ← encodeText, ih]
      rfl
  show Utf8.toStringReplacing (Percent.decode ((encodeText cs).map plusToSpace)) = _
  rw [hbytes, Utf8.toStringReplacing, Utf8.decodeReplacing_encode]

/-! ## Pairs -/

private theorem ampersand_notMem_encodePair (p : String × String) : '&' ∉ encodePair p := by
  intro hmem
  rcases List.mem_append.mp hmem with hmem | hmem
  · exact mark_notMem_encodeText (.inl rfl) _ hmem
  · rcases List.mem_cons.mp hmem with hmem | hmem
    · exact absurd hmem (by decide)
    · exact mark_notMem_encodeText (.inl rfl) _ hmem

/-- A pair that is written is read as it was. -/
theorem decodePair_encodePair (p : String × String) : decodePair (encodePair p) = p := by
  have hname : '=' ∉ encodeText p.1.toList := mark_notMem_encodeText (.inr rfl) _
  rw [decodePair, encodePair, splitFirst_append_cons hname]
  simp only [Option.getD_some, decodeText_encodeText, String.ofList_toList]

/-- Text is read piece by piece. -/
theorem decode_append (cs cs' : List Char) :
    decode (cs ++ '&' :: cs') = decode cs ++ decode cs' := by
  rw [decode, splitOn_append_separator, List.filter_append, List.map_append]
  rfl

private theorem decode_encodePair (p : String × String) : decode (encodePair p) = [p] := by
  have hne : encodePair p ≠ [] := by simp [encodePair]
  rw [decode, splitOn_of_notMem (ampersand_notMem_encodePair p)]
  simp [hne, decodePair_encodePair]

/-- Pairs that are written are read as they were, in order. -/
theorem decode_encode (pairs : List (String × String)) : decode (encode pairs) = pairs := by
  induction pairs with
  | nil => rfl
  | cons p pairs ih =>
    cases pairs with
    | nil => exact decode_encodePair p
    | cons q pairs =>
      have hcons : encode (p :: q :: pairs) = encodePair p ++ '&' :: encode (q :: pairs) := rfl
      rw [hcons, decode_append, decode_encodePair, ih, List.singleton_append]

/-! ## Encoded text -/

/-- Encoded text is made of plain characters, plus signs, percent signs and the two marks. -/
theorem of_mem_encode {c : Char} {pairs : List (String × String)} (h : c ∈ encode pairs) :
    isPlain c = true ∨ c = '+' ∨ c = '%' ∨ c = '&' ∨ c = '=' := by
  have htext : ∀ {cs : List Char}, c ∈ encodeText cs →
      isPlain c = true ∨ c = '+' ∨ c = '%' ∨ c = '&' ∨ c = '=' := fun hc ↦
    (of_mem_encodeText hc).imp_right fun hc ↦ hc.imp_right .inl
  rcases mem_join h with hc | ⟨piece, hpiece, hc⟩
  · exact .inr (.inr (.inr (.inl hc)))
  · obtain ⟨pair, -, rfl⟩ := List.mem_map.mp hpiece
    rcases List.mem_append.mp hc with hname | hc
    · exact htext hname
    · rcases List.mem_cons.mp hc with hmark | hvalue
      · exact .inr (.inr (.inr (.inr hmark)))
      · exact htext hvalue

/-- Pairs that follow others are written behind them, with the mark between. -/
theorem encode_append {pairs pairs' : List (String × String)} (h : pairs ≠ []) (h' : pairs' ≠ []) :
    encode (pairs ++ pairs') = encode pairs ++ '&' :: encode pairs' := by
  have hmap : ∀ {pairs : List (String × String)}, pairs ≠ [] → pairs.map encodePair ≠ [] :=
    fun hne ↦ mt List.map_eq_nil_iff.mp hne
  rw [encode, List.map_append, join_append (hmap h) (hmap h')]
  rfl

end RegionClient.Text.Form

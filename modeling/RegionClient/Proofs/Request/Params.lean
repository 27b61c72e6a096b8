import RegionClient.Proofs.Text.Form
import RegionClient.Request.Params

/-!
# Parameters as text

The form-encoded text of parameters, and back. Main statement: the text tells the parameters, in
order and with all repetitions; it is made of a small alphabet, and longer texts are put together
and read at the mark between pairs (`encode_tells`).
-/

namespace RegionClient.Params

open Text

/-- The characters of form-encoded text. -/
def IsFormChar (c : Char) : Prop := c.isAlphanum = true ∨ c ∈ "*-._+%&=".toList

private theorem isFormChar_of_mem_encode {p : Params} {c : Char} (h : c ∈ p.encode.toList) :
    IsFormChar c := by
  rw [encode, String.toList_ofList] at h
  have hmark : ∀ {c' : Char}, c' ∈ "*-._+%&=".toList → c = c' → IsFormChar c := by
    rintro c' hmem rfl
    exact .inr hmem
  rcases Form.of_mem_encode h with hplain | hc | hc | hc | hc
  · simp only [Form.isPlain, Bool.or_eq_true, beq_iff_eq] at hplain
    rcases hplain with (((hletter | hc) | hc) | hc) | hc
    · exact .inl hletter
    all_goals exact hmark (by decide) hc
  all_goals exact hmark (by decide) hc

/-- Encoded parameters are read as they were. -/
theorem decode_encode (p : Params) : decode p.encode = p := by
  rw [decode, encode, String.toList_ofList, Form.decode_encode]

/-- Texts with the mark between them are read one after the other. -/
theorem toList_decode_append (a b : String) :
    (decode (a ++ "&" ++ b)).toList = (decode a).toList ++ (decode b).toList := by
  have htext : (a ++ "&" ++ b).toList = a.toList ++ '&' :: b.toList := by
    rw [String.toList_append, String.toList_append, List.append_assoc]
    rfl
  show Form.decode (a ++ "&" ++ b).toList = _
  rw [htext, Form.decode_append]
  rfl

/-- The text of two lists is that of the one, the mark, and that of the other, just if none of them
is empty. -/
theorem encode_append_iff (p q : Params) :
    encode ⟨p.toList ++ q.toList⟩ = p.encode ++ "&" ++ q.encode ↔
      p.toList ≠ [] ∧ q.toList ≠ [] := by
  have htext : (p.encode ++ "&" ++ q.encode).toList =
      Form.encode p.toList ++ '&' :: Form.encode q.toList := by
    have hmark : "&".toList = ['&'] := rfl
    simp only [String.toList_append, encode, String.toList_ofList, List.append_assoc, hmark,
      List.singleton_append]
  have hnil : Form.encode [] = [] := rfl
  rw [← String.toList_inj, htext, encode, String.toList_ofList]
  show Form.encode (p.toList ++ q.toList) = Form.encode p.toList ++ '&' :: Form.encode q.toList ↔ _
  constructor
  · intro hsame
    -- Without pairs on one side, the mark alone makes the right text longer.
    have hlength := congrArg List.length hsame
    constructor
    · intro hp
      rw [hp, List.nil_append, hnil, List.nil_append, List.length_cons] at hlength
      omega
    · intro hq
      rw [hq, List.append_nil, hnil, List.length_append, List.length_singleton] at hlength
      omega
  · rintro ⟨hp, hq⟩
    exact Form.encode_append hp hq

/-- The text of parameters tells them and is made of a small alphabet. Texts are read piece by
piece between the marks, and put together there unless there is nothing to put together. -/
theorem encode_tells (p q : Params) (a b : String) :
    decode p.encode = p ∧
      (∀ c ∈ p.encode.toList, IsFormChar c) ∧
      (decode (a ++ "&" ++ b)).toList = (decode a).toList ++ (decode b).toList ∧
      (p.encode = q.encode ↔ p = q) ∧
      (encode ⟨p.toList ++ q.toList⟩ = p.encode ++ "&" ++ q.encode ↔
        p.toList ≠ [] ∧ q.toList ≠ []) := by
  refine ⟨decode_encode p, fun c hc ↦ isFormChar_of_mem_encode hc, toList_decode_append a b, ?_,
    encode_append_iff p q⟩
  constructor
  · intro hsame
    rw [← decode_encode p, hsame, decode_encode]
  · rintro rfl
    rfl

/-- Separators, repeated names, empty pairs and characters outside ASCII are told, and every
character of their text is of the alphabet. -/
theorem encode_tells_separators :
    let p : Params := ⟨[("k&", "é=+%"), ("", ""), ("k&", "")]⟩
    let q : Params := ⟨[("", "€ 𝄞")]⟩
    '%' ∈ p.encode.toList ∧ IsFormChar '%' ∧ decode p.encode = p ∧ p.encode ≠ q.encode ∧
      encode ⟨p.toList ++ q.toList⟩ = p.encode ++ "&" ++ q.encode := by
  intro p q
  obtain ⟨hread, halphabet, -, hinjective, happend⟩ := encode_tells p q "" ""
  have hmark : '%' ∈ p.encode.toList := by decide +kernel
  have hne : p ≠ q := by decide
  exact ⟨hmark, halphabet '%' hmark, hread, mt hinjective.mp hne, happend.mpr (by decide)⟩

end RegionClient.Params

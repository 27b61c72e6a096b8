import Mathlib.Data.List.Basic
import RegionClient.Text.Split

/-!
# Laws of splitting

The pieces of a text that is put together from parts. Main statements: joining two texts joins the
last piece of the one with the first piece of the other (`splitOn_append`), the last piece is empty
only behind a separator (`last_eq_nil_iff`), the pieces are one more than the separators
(`length_splitOn`), joined pieces are found again (`splitOn_join`), and a sequence is cut at a mark
that does not stand in front of it (`dropInfix?_append_mark`).
-/

namespace RegionClient.Text

variable {separator : Char} {cs cs' : List Char}

/-- A text without the separator is its only piece. -/
theorem splitOn_of_notMem (h : separator ∉ cs) : splitOn separator cs = [cs] := by
  induction cs with
  | nil => rfl
  | cons c cs ih =>
    have hc : ¬ c = separator := fun e ↦ h (e ▸ List.mem_cons_self)
    have hcs : separator ∉ cs := fun hmem ↦ h (List.mem_cons_of_mem c hmem)
    simp [splitOn, hc, ih hcs]

/-- There is a last piece. -/
theorem exists_last_piece (separator : Char) (cs : List Char) :
    ∃ front last, splitOn separator cs = front ++ [last] :=
  ⟨_, _, (List.dropLast_concat_getLast (splitOn_ne_nil separator cs)).symm⟩

/-- Where two texts meet, the last piece of the one and the first of the other are one piece. -/
theorem splitOn_append {front rest : List (List Char)} {last first : List Char}
    (h : splitOn separator cs = front ++ [last]) (h' : splitOn separator cs' = first :: rest) :
    splitOn separator (cs ++ cs') = front ++ (last ++ first) :: rest := by
  induction cs generalizing front last with
  | nil =>
    cases front with
    | nil =>
      obtain rfl : [] = last := by simpa [splitOn] using h
      exact h'
    | cons piece front => simp [splitOn] at h
  | cons c cs ih =>
    rw [List.cons_append, splitOn]
    rw [splitOn] at h
    by_cases hc : c = separator
    · rw [if_pos hc] at h ⊢
      cases front with
      | nil =>
        -- A separator leaves an empty first piece, and at least one more.
        have hnil : splitOn separator cs = [] := (List.cons.inj h).2
        exact absurd hnil (splitOn_ne_nil separator cs)
      | cons piece front =>
        obtain ⟨rfl, hcs⟩ := List.cons.inj h
        rw [ih hcs]
        rfl
    · rw [if_neg hc] at h ⊢
      cases hcs : splitOn separator cs with
      | nil => exact absurd hcs (splitOn_ne_nil separator cs)
      | cons piece pieces =>
        rw [hcs] at h
        cases front with
        | nil =>
          obtain ⟨rfl, rfl⟩ := List.cons.inj h
          rw [@ih [] _ hcs]
          rfl
        | cons piece' front =>
          obtain ⟨rfl, hpieces⟩ := List.cons.inj h
          have hpiece : splitOn separator cs = (piece :: front) ++ [last] := by
            rw [hcs, hpieces]
            rfl
          rw [ih hpiece]
          rfl

/-- The last piece is empty if nothing stands behind the last separator. -/
theorem last_eq_nil_iff {front : List (List Char)} {last : List Char}
    (h : splitOn separator cs = front ++ [last]) :
    last = [] ↔ cs = [] ∨ cs.getLast? = some separator := by
  rcases List.eq_nil_or_concat cs with rfl | ⟨cs, c, rfl⟩
  · obtain ⟨-, rfl⟩ : front = [] ∧ [] = last := by
      cases front with
      | nil => simpa [splitOn] using h
      | cons piece front => simp [splitOn] at h
    simp
  · obtain ⟨front', last', hcs⟩ := exists_last_piece separator cs
    rw [List.concat_eq_append] at h ⊢
    by_cases hc : c = separator
    · have hlast : front' ++ [last', []] = front ++ [last] := by
        have hsingle : splitOn separator [c] = [] :: [[]] := by simp [splitOn, hc]
        rw [← h, splitOn_append hcs hsingle]
        simp
      have hnil : last = [] := by
        simpa using (congrArg List.getLast? hlast).symm
      simp [hnil, hc]
    · have hlast : front' ++ [last' ++ [c]] = front ++ [last] := by
        rw [← h, splitOn_append hcs (splitOn_of_notMem (by simpa using Ne.symm hc))]
      have hne : last = last' ++ [c] := by
        simpa using (congrArg List.getLast? hlast).symm
      simp [hne, hc]

/-- Two texts with a separator between them have the pieces of the one and then of the other. -/
theorem splitOn_append_separator (cs cs' : List Char) :
    splitOn separator (cs ++ separator :: cs') = splitOn separator cs ++ splitOn separator cs' := by
  obtain ⟨front, last, hcs⟩ := exists_last_piece separator cs
  have hrest : splitOn separator (separator :: cs') = [] :: splitOn separator cs' := by
    rw [splitOn, if_pos rfl]
  rw [splitOn_append hcs hrest, hcs]
  simp

/-- The text up to the first separator is the first piece. -/
theorem splitOn_append_cons (h : separator ∉ cs) (rest : List Char) :
    splitOn separator (cs ++ separator :: rest) = cs :: splitOn separator rest := by
  rw [splitOn_append_separator, splitOn_of_notMem h, List.singleton_append]

/-- The pieces of a text are one more than its separators. -/
theorem length_splitOn (separator : Char) (cs : List Char) :
    (splitOn separator cs).length = cs.count separator + 1 := by
  induction cs with
  | nil => rfl
  | cons c cs ih =>
    rw [splitOn, List.count_cons]
    by_cases hc : c = separator
    · rw [if_pos hc, List.length_cons, ih]
      simp [hc]
    · rw [if_neg hc]
      cases hcs : splitOn separator cs with
      | nil => exact absurd hcs (splitOn_ne_nil separator cs)
      | cons piece pieces =>
        rw [hcs] at ih
        simpa [hc] using ih

/-! ## Joining -/

private theorem join_cons (piece : List Char) {pieces : List (List Char)} (h : pieces ≠ []) :
    join separator (piece :: pieces) = piece ++ separator :: join separator pieces := by
  cases pieces with
  | nil => exact absurd rfl h
  | cons piece' pieces => rfl

/-- Pieces stand in front of pieces with the separator between. -/
theorem join_append {pieces pieces' : List (List Char)} (h : pieces ≠ []) (h' : pieces' ≠ []) :
    join separator (pieces ++ pieces') =
      join separator pieces ++ separator :: join separator pieces' := by
  induction pieces with
  | nil => exact absurd rfl h
  | cons piece pieces ih =>
    cases pieces with
    | nil => exact join_cons piece h'
    | cons piece' pieces =>
      have hne : piece' :: pieces ≠ [] := List.cons_ne_nil piece' pieces
      rw [List.cons_append, join_cons piece (List.append_ne_nil_of_left_ne_nil hne pieces'),
        ih hne, join_cons piece hne, List.append_assoc, List.cons_append]

/-- What stands in joined pieces is the separator or stands in a piece. -/
theorem mem_join {c : Char} {pieces : List (List Char)} (h : c ∈ join separator pieces) :
    c = separator ∨ ∃ piece ∈ pieces, c ∈ piece := by
  induction pieces with
  | nil => cases h
  | cons piece pieces ih =>
    cases pieces with
    | nil => exact .inr ⟨piece, List.mem_cons_self, h⟩
    | cons piece' pieces =>
      rw [join_cons piece (List.cons_ne_nil piece' pieces)] at h
      rcases List.mem_append.mp h with hc | hc
      · exact .inr ⟨piece, List.mem_cons_self, hc⟩
      · rcases List.mem_cons.mp hc with hc | hc
        · exact .inl hc
        · exact (ih hc).imp_right fun ⟨q, hq, hc⟩ ↦ ⟨q, List.mem_cons_of_mem piece hq, hc⟩

/-- Pieces without the separator are found again where they were joined. -/
theorem splitOn_join {pieces : List (List Char)} (hne : pieces ≠ [])
    (h : ∀ piece ∈ pieces, separator ∉ piece) : splitOn separator (join separator pieces) = pieces := by
  induction pieces with
  | nil => exact absurd rfl hne
  | cons piece pieces ih =>
    have hpiece : separator ∉ piece := h piece List.mem_cons_self
    cases pieces with
    | nil => exact splitOn_of_notMem hpiece
    | cons piece' pieces =>
      have hcons : piece' :: pieces ≠ [] := List.cons_ne_nil piece' pieces
      rw [join_cons piece hcons, splitOn_append_cons hpiece,
        ih hcons fun q hq ↦ h q (List.mem_cons_of_mem piece hq)]

/-! ## The first separator -/

/-- A text without the separator is all in front of it. -/
theorem splitFirst_of_notMem (h : separator ∉ cs) : splitFirst separator cs = (cs, none) := by
  induction cs with
  | nil => rfl
  | cons c cs ih =>
    have hne : ¬ c = separator := fun e ↦ h (e ▸ List.mem_cons_self)
    rw [splitFirst, if_neg hne, ih fun hmem ↦ h (List.mem_cons_of_mem c hmem)]

/-- Text in front of the first separator is not changed by text behind it. -/
theorem splitFirst_append (h : separator ∈ cs) : ∃ behind, ∀ tail,
    splitFirst separator (cs ++ tail) = ((splitFirst separator cs).1, some (behind ++ tail)) := by
  induction cs with
  | nil => exact absurd h List.not_mem_nil
  | cons c cs ih =>
    by_cases heq : c = separator
    · exact ⟨cs, fun tail ↦ by simp [splitFirst, heq]⟩
    · obtain ⟨behind, htail⟩ := ih ((List.mem_cons.mp h).resolve_left (Ne.symm heq))
      refine ⟨behind, fun tail ↦ ?_⟩
      rw [List.cons_append, splitFirst, splitFirst, if_neg heq, if_neg heq, htail]

/-- A text is cut at the first separator. -/
theorem splitFirst_append_cons (h : separator ∉ cs) (rest : List Char) :
    splitFirst separator (cs ++ separator :: rest) = (cs, some rest) := by
  induction cs with
  | nil => rw [List.nil_append, splitFirst, if_pos rfl]
  | cons c cs ih =>
    have hne : ¬ c = separator := fun e ↦ h (e ▸ List.mem_cons_self)
    rw [List.cons_append, splitFirst, if_neg hne, ih fun hmem ↦ h (List.mem_cons_of_mem c hmem)]

/-- Texts that end at their first separator are told from what stands behind it. -/
theorem append_separator_inj {rest rest' : List Char} (h : separator ∉ cs) (h' : separator ∉ cs')
    (heq : cs ++ separator :: rest = cs' ++ separator :: rest') : cs = cs' ∧ rest = rest' := by
  have hcut := congrArg (splitFirst separator) heq
  rw [splitFirst_append_cons h, splitFirst_append_cons h', Prod.mk.injEq, Option.some.injEq] at hcut
  exact hcut

/-! ## Marks -/

section Mark

variable {α : Type} {x : α} {mark front rest : List α}

/-- A mark does not begin in a sequence without its first member. -/
theorem infix_of_infix_append (hx : x ∉ front) (h : x :: mark <:+: front ++ rest) :
    x :: mark <:+: rest := by
  induction front with
  | nil => exact h
  | cons y front ih =>
    rw [List.cons_append, List.infix_cons_iff] at h
    rcases h with hprefix | hstands
    · have hxy : x = y := (List.cons_prefix_cons.mp hprefix).1
      exact absurd (hxy ▸ List.mem_cons_self) hx
    · exact ih (fun hmem ↦ hx (List.mem_cons_of_mem y hmem)) hstands

variable [BEq α] [LawfulBEq α]

/-- A mark in front of a sequence is dropped. -/
theorem dropPrefix?_append (mark rest : List α) : (mark ++ rest).dropPrefix? mark = some rest :=
  List.dropPrefix?_append_of_beq rest BEq.rfl

/-- A sequence without the mark is not cut. -/
theorem dropInfix?_eq_none (h : ¬ mark <:+: front) : front.dropInfix? mark = none := by
  cases hcut : front.dropInfix? mark with
  | none => rfl
  | some cut =>
    obtain ⟨⟨mark', happend, hmark⟩, -⟩ := List.dropInfix?_eq_some_iff.mp hcut
    obtain rfl := eq_of_beq hmark
    exact absurd ⟨_, _, happend.symm⟩ h

/-- A sequence is cut at a mark that does not stand in front of it. A mark whose first member does
not come again cannot reach over the front either. -/
theorem dropInfix?_append_mark (hx : x ∉ mark) (h : ¬ x :: mark <:+: front) :
    (front ++ (x :: mark ++ rest)).dropInfix? (x :: mark) = some (front, rest) := by
  apply List.dropInfix?_eq_some_iff.mpr
  refine ⟨⟨x :: mark, by simp, BEq.rfl⟩, ?_⟩
  intro before mark' behind happend hmark
  obtain rfl := eq_of_beq hmark
  by_contra hshort
  rw [List.append_assoc] at happend
  rcases List.append_eq_append_iff.mp happend with ⟨between, hbefore, -⟩ | ⟨between, hfront, hrest⟩
  · rw [hbefore, List.length_append] at hshort
    omega
  rcases List.append_eq_append_iff.mp hrest with ⟨tail, hbetween, -⟩ | ⟨tail, hreach, htail⟩
  · exact h ⟨before, tail, by rw [hfront, hbetween, List.append_assoc]⟩
  cases between with
  | nil =>
    rw [hfront, List.append_nil] at hshort
    omega
  | cons y between =>
    cases tail with
    | nil => exact h ⟨before, [], by rw [hfront, hreach]; simp⟩
    | cons z tail =>
      obtain ⟨rfl, -⟩ := List.cons.inj htail
      have hagain : mark = between ++ x :: tail := (List.cons.inj hreach).2
      exact hx (by rw [hagain]; simp)

end Mark

end RegionClient.Text

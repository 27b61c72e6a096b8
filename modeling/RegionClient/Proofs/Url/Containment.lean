import RegionClient.Proofs.Http.Exchange
import RegionClient.Proofs.Url.Paths

/-!
# Paths below a root

Whether the URL of a path lies below the root that the path is put behind. A path is a list of
moves: each segment stays, goes up, or puts a name. A segment goes up if it is left with two dots
once tabs and line ends are dropped, so a path can climb out of a root before it puts a name.
Main statements: what is put behind a root stays behind it (`exists_walk_append`), a root of two
segments or more is left for good by a climb (`walk_of_climb`), and a URL lies below the root
unless its path climbs out of it and does not come back (`isBelow_iff`).
-/

namespace RegionClient

open Text Http

namespace Url

/-- A URL lies below a root: it differs in its path only, which goes on behind that of the root. -/
structure IsBelow (root url : Url) : Prop where
  scheme : url.scheme = root.scheme
  authority : url.authority = root.authority
  query : url.query = root.query
  fragment : url.fragment = root.fragment
  path : withoutSlash root.path.print ++ ['/'] <+: url.path.print

/-! ## Moves -/

/-- What a segment does to the path that it is put behind. -/
inductive Move where
  | stay
  | up
  | put (name : String)
  deriving DecidableEq

/-- The move of a segment. -/
def moveOf (special : Bool) (segment : List Char) : Move :=
  if segment = ['.'] ∨ segment = ['.', '.'] then .stay
  else if keptOf segment = ['.', '.'] then .up
  else if keptOf segment = ['.'] then .put ""
  else .put (String.ofList (Percent.encode (escapedInSegment special) (keptOf segment)))

/-- The path after a move. -/
def Move.apply (path : List String) : Move → List String
  | stay => path
  | up => shorten (segmentBase path) ++ [""]
  | put name => segmentBase path ++ [name]

/-- The path after moves. -/
def walk (moves : List Move) (path : List String) : List String := moves.foldl Move.apply path

/-- The moves behind the first that goes up, if nothing is put before. -/
def climb? : List Move → Option (List Move)
  | [] => none
  | .stay :: rest => climb? rest
  | .up :: rest => some rest
  | .put _ :: _ => none

/-- Moves that start from a path come to be behind a path. -/
def LeadsBehind (path : List String) (moves : List Move) (start : List String) : Prop :=
  ∃ behind, behind ≠ [] ∧ walk moves start = path ++ behind

/-- A path can be left by going up: it ends in a name that is no drive letter. -/
def CanBeLeft (path : List String) : Prop :=
  ∃ front name, path = front ++ [name] ∧ name ≠ "" ∧ isDriveLetter name.toList = false

/-- From the top of the host, moves come back to a path behind one name. -/
inductive ComesBack (name : String) : List Move → Prop
  | stay {rest : List Move} (h : ComesBack name rest) : ComesBack name (.stay :: rest)
  | up {rest : List Move} (h : ComesBack name rest) : ComesBack name (.up :: rest)
  | blank {rest : List Move} (h : ComesBack name rest) : ComesBack name (.put "" :: rest)
  | enter {rest : List Move} (h : climb? rest = none) : ComesBack name (.put name :: rest)
  | again {name' : String} {rest after : List Move} (hleave : CanBeLeft [name'])
      (hclimb : climb? rest = some after) (h : ComesBack name after) :
      ComesBack name (.put name' :: rest)

private theorem appendSegment_eq_apply (special : Bool) (path : List String) (segment : List Char) :
    appendSegment special false path segment = (moveOf special segment).apply path := by
  rw [appendSegment_eq, moveOf]
  split
  · rfl
  · split
    · rfl
    · split <;> rfl

/-- Segments make their moves one after the other. -/
theorem foldl_appendSegment (special : Bool) (path : List String) (segments : List (List Char)) :
    segments.foldl (appendSegment special false) path =
      walk (segments.map (moveOf special)) path := by
  rw [walk, List.foldl_map]
  congr 1
  funext path segment
  exact appendSegment_eq_apply special path segment

private theorem walk_cons (move : Move) (moves : List Move) (path : List String) :
    walk (move :: moves) path = walk moves (move.apply path) := rfl

private theorem walk_append (moves moves' : List Move) (path : List String) :
    walk (moves ++ moves') path = walk moves' (walk moves path) := List.foldl_append

private theorem segmentBase_append_of_ne_nil {path behind : List String} (h : path ≠ [])
    (hbehind : behind ≠ []) : segmentBase (path ++ behind) = path ++ behind := by
  apply segmentBase_of_long
  have hpath := List.length_pos_iff.mpr h
  have hlength := List.length_pos_iff.mpr hbehind
  rw [List.length_append]
  omega

/-! ## Behind a path -/

private theorem exists_shorten_append (path : List String) {behind : List String}
    (h : behind ≠ []) :
    ∃ behind', shorten (path ++ behind) = path ++ behind' := by
  obtain ⟨front, last, rfl⟩ := (List.eq_nil_or_concat behind).resolve_left h
  rw [List.concat_eq_append]
  unfold shorten
  rw [← List.append_assoc, List.getLast?_concat]
  dsimp only
  split
  · exact ⟨front ++ [last], List.append_assoc path front [last]⟩
  · exact ⟨front, List.dropLast_concat⟩

private theorem exists_apply_append {path behind : List String} (h : path ≠ [])
    (hbehind : behind ≠ []) (move : Move) :
    ∃ behind', behind' ≠ [] ∧ move.apply (path ++ behind) = path ++ behind' := by
  have hbase := segmentBase_append_of_ne_nil h hbehind
  cases move with
  | stay => exact ⟨behind, hbehind, rfl⟩
  | up =>
    obtain ⟨behind', hshorten⟩ := exists_shorten_append path hbehind
    refine ⟨behind' ++ [""], by simp, ?_⟩
    rw [Move.apply, hbase, hshorten, List.append_assoc]
  | put name =>
    refine ⟨behind ++ [name], by simp, ?_⟩
    rw [Move.apply, hbase, List.append_assoc]

/-- What is put behind a path stays behind it, whatever moves are made. -/
theorem exists_walk_append {path behind : List String} (h : path ≠ []) (hbehind : behind ≠ [])
    (moves : List Move) :
    ∃ behind', behind' ≠ [] ∧ walk moves (path ++ behind) = path ++ behind' := by
  induction moves generalizing behind with
  | nil => exact ⟨behind, hbehind, rfl⟩
  | cons move rest ih =>
    obtain ⟨behind', hbehind', happly⟩ := exists_apply_append h hbehind move
    rw [walk_cons, happly]
    exact ih hbehind'

private theorem exists_walk {path : List String} (h : path ≠ []) (hslashes : path ≠ [""])
    (hleave : ¬ CanBeLeft path) (moves : List Move) :
    ∃ behind, walk moves path = path ++ behind := by
  induction moves with
  | nil => exact ⟨[], (List.append_nil path).symm⟩
  | cons move rest ih =>
    have hbase : segmentBase path = path := if_neg hslashes
    cases move with
    | stay => exact ih
    | put name =>
      obtain ⟨behind, -, hwalk⟩ := exists_walk_append h (List.cons_ne_nil name []) rest
      exact ⟨behind, by rw [walk_cons, Move.apply, hbase, hwalk]⟩
    | up =>
      obtain ⟨front, last, rfl⟩ := (List.eq_nil_or_concat path).resolve_left h
      rw [List.concat_eq_append] at *
      rw [walk_cons, Move.apply, hbase]
      by_cases hempty : last = ""
      · -- Going up from an empty name leaves an empty name.
        rw [hempty] at ih ⊢
        rw [shorten_append (by decide)]
        exact ih
      · have hdrive : isDriveLetter last.toList = true := by
          cases hletter : isDriveLetter last.toList with
          | true => rfl
          | false => exact absurd ⟨front, last, rfl, hempty, hletter⟩ hleave
        have hstays : shorten (front ++ [last]) = front ++ [last] := by
          rw [shorten, List.getLast?_concat]
          exact if_pos hdrive
        rw [hstays]
        obtain ⟨behind, -, hwalk⟩ := exists_walk_append h (List.cons_ne_nil "" []) rest
        exact ⟨behind, hwalk⟩

/-! ## Climbing -/

/-- A climb takes the last name away. -/
theorem walk_of_climb (front : List String) {name : String} (hname : name ≠ "")
    (hdrive : isDriveLetter name.toList = false) {moves after : List Move}
    (h : climb? moves = some after) :
    walk moves (front ++ [name]) = walk after (front ++ [""]) := by
  induction moves with
  | nil => cases h
  | cons move rest ih =>
    cases move with
    | stay => exact ih h
    | put _ => cases h
    | up =>
      obtain rfl := Option.some.inj h
      rw [walk_cons, Move.apply, segmentBase_append hname, shorten_append hdrive]

/-- Moves that end in putting something put it behind the path, if they do not climb. -/
theorem exists_walk_of_climb_eq_none {path : List String} (h : path ≠ []) (hslashes : path ≠ [""])
    {moves : List Move} {name : String} (hlast : moves.getLast? = some (.put name))
    (hclimb : climb? moves = none) : LeadsBehind path moves path := by
  induction moves with
  | nil => cases hlast
  | cons move rest ih =>
    cases move with
    | stay =>
      cases rest with
      | nil => cases hlast
      | cons move' rest => exact ih hlast hclimb
    | up => cases hclimb
    | put name' =>
      have hbase : segmentBase path = path := if_neg hslashes
      rw [LeadsBehind, walk_cons, Move.apply, hbase]
      exact exists_walk_append h (List.cons_ne_nil name' []) rest

private theorem eq_append_of_climb {moves after : List Move} (h : climb? moves = some after) :
    ∃ front, moves = front ++ .up :: after := by
  induction moves with
  | nil => cases h
  | cons move rest ih =>
    cases move with
    | stay =>
      obtain ⟨front, rfl⟩ := ih h
      exact ⟨.stay :: front, rfl⟩
    | put _ => cases h
    | up =>
      obtain rfl := Option.some.inj h
      exact ⟨[], rfl⟩

private theorem canBeLeft_singleton {name : String} :
    CanBeLeft [name] ↔ name ≠ "" ∧ isDriveLetter name.toList = false := by
  constructor
  · rintro ⟨front, name', h, hname, hdrive⟩
    obtain ⟨-, rfl⟩ : front = [] ∧ name = name' := by
      cases front with
      | nil => exact ⟨rfl, List.singleton_inj.mp h⟩
      | cons _ _ => simp at h
    exact ⟨hname, hdrive⟩
  · rintro ⟨hname, hdrive⟩
    exact ⟨[], name, rfl, hname, hdrive⟩

/-- The end of a list ends as the list does. -/
private theorem getLast?_of_append {α : Type} (front : List α) {behind : List α} {last : α}
    (h : (front ++ behind).getLast? = some last) : behind = [] ∨ behind.getLast? = some last := by
  cases behind with
  | nil => exact .inl rfl
  | cons a rest =>
    right
    rw [List.getLast?_append, List.getLast?_cons, Option.some_or] at h
    rw [List.getLast?_cons, h]

private theorem getLast?_of_climb {moves after : List Move} (h : climb? moves = some after)
    (hlast : moves.getLast? = some (.put "")) :
    after = [] ∨ after.getLast? = some (.put "") := by
  obtain ⟨front, rfl⟩ := eq_append_of_climb h
  apply getLast?_of_append (front ++ [.up])
  rw [List.append_assoc]
  exact hlast

private theorem comesBack_put_iff {name name' : String} (hblank : name' ≠ "") {rest : List Move}
    (hlast : rest.getLast? = some (.put ""))
    (hdrive : isDriveLetter name.toList = false)
    (hafter : ∀ after, climb? rest = some after →
      (LeadsBehind [name] after [""] ↔ ComesBack name after)) :
    LeadsBehind [name] rest [name'] ↔ ComesBack name (.put name' :: rest) := by
  have hslashes : [name'] ≠ [""] := fun h ↦ hblank (List.singleton_inj.mp h)
  cases hletter : isDriveLetter name'.toList with
  | true =>
    -- A drive letter stays, and it is not the name.
    have hstays : ¬ CanBeLeft [name'] := by
      rw [canBeLeft_singleton, hletter]
      exact fun h ↦ Bool.noConfusion h.2
    have hother : name' ≠ name := by
      rintro rfl
      exact Bool.noConfusion (hletter.symm.trans hdrive)
    obtain ⟨behind, hwalk⟩ := exists_walk (List.cons_ne_nil name' []) hslashes hstays rest
    constructor
    · rintro ⟨behind', -, hsame⟩
      exact absurd (List.cons.inj (hwalk.symm.trans hsame)).1 hother
    · intro h
      cases h with
      | blank _ => exact absurd rfl hblank
      | enter _ => exact absurd rfl hother
      | again hleave _ _ => exact absurd hleave hstays
  | false =>
    cases hclimb : climb? rest with
    | none =>
      obtain ⟨behind, hbehind, hwalk⟩ :=
        exists_walk_of_climb_eq_none (List.cons_ne_nil name' []) hslashes hlast hclimb
      constructor
      · rintro ⟨behind', -, hsame⟩
        obtain rfl : name' = name := (List.cons.inj (hwalk.symm.trans hsame)).1
        exact .enter hclimb
      · intro h
        cases h with
        | blank _ => exact absurd rfl hblank
        | enter _ => exact ⟨behind, hbehind, hwalk⟩
        | again _ hclimb' _ => cases hclimb.symm.trans hclimb'
    | some after =>
      have hwalk : walk rest [name'] = walk after [""] := walk_of_climb [] hblank hletter hclimb
      rw [LeadsBehind, hwalk]
      constructor
      · intro h
        exact .again (canBeLeft_singleton.mpr ⟨hblank, hletter⟩) hclimb ((hafter after hclimb).mp h)
      · intro h
        cases h with
        | blank _ => exact absurd rfl hblank
        | enter hclimb' => cases hclimb.symm.trans hclimb'
        | again _ hclimb' h =>
          obtain rfl := Option.some.inj (hclimb.symm.trans hclimb')
          exact (hafter after hclimb).mpr h

/-- From the top of the host, moves come to be behind a name just if they come back. -/
theorem comesBack_iff {name : String} (hname : CanBeLeft [name]) {moves : List Move}
    (hlast : moves = [] ∨ moves.getLast? = some (.put "")) :
    LeadsBehind [name] moves [""] ↔ ComesBack name moves := by
  obtain ⟨hne, hdrive⟩ := canBeLeft_singleton.mp hname
  -- What is left behind a climb may be shorter by more than one move.
  induction hlength : moves.length using Nat.strongRecOn generalizing moves with
  | ind n ih =>
    cases moves with
    | nil =>
      constructor
      · rintro ⟨behind, hbehind, hwalk⟩
        exact absurd (List.cons.inj hwalk).2.symm hbehind
      · nofun
    | cons move rest =>
      have hends : (move :: rest).getLast? = some (.put "") :=
        hlast.resolve_left (List.cons_ne_nil move rest)
      have hrest := getLast?_of_append [move] hends
      have hfrom : LeadsBehind [name] rest [""] ↔ ComesBack name rest := by
        refine ih rest.length ?_ hrest rfl
        rw [← hlength, List.length_cons]
        omega
      cases move with
      | stay =>
        constructor
        · exact fun h ↦ .stay (hfrom.mp h)
        · rintro (h | _)
          exact hfrom.mpr h
      | up =>
        constructor
        · exact fun h ↦ .up (hfrom.mp h)
        · rintro (_ | h)
          exact hfrom.mpr h
      | put name' =>
        by_cases hblank : name' = ""
        · rw [hblank]
          constructor
          · exact fun h ↦ .blank (hfrom.mp h)
          · intro h
            cases h with
            | blank h => exact hfrom.mpr h
            | enter _ => exact absurd rfl hne
            | again hleave _ _ => exact absurd rfl (canBeLeft_singleton.mp hleave).1
        · have hput : rest.getLast? = some (.put "") := by
            rcases hrest with rfl | h
            · exact absurd (Move.put.inj (Option.some.inj hends)) hblank
            · exact h
          refine comesBack_put_iff hblank hput hdrive fun after hclimb ↦ ?_
          refine ih after.length ?_ (getLast?_of_climb hclimb hput) rfl
          obtain ⟨front, rfl⟩ := eq_append_of_climb hclimb
          rw [← hlength, List.length_cons, List.length_append, List.length_cons]
          omega

/-! ## Leading behind the trunk -/

private theorem walk_concat_put (moves : List Move) (name : String) (path : List String) :
    walk (moves ++ [.put name]) path = segmentBase (walk moves path) ++ [name] :=
  walk_append moves [.put name] path

/-- A path is no empty name with something behind it. -/
def IsFilled (path : List String) : Prop := ∀ behind, path = "" :: behind → behind = []

private theorem IsFilled.head?_segmentBase {path : List String} (h : IsFilled path) :
    (segmentBase path).head? ≠ some "" := by
  intro hhead
  unfold segmentBase at hhead
  split at hhead
  · cases hhead
  · next hne =>
    cases path with
    | nil => cases hhead
    | cons name behind =>
      obtain rfl : name = "" := Option.some.inj hhead
      rw [h behind rfl] at hne
      exact hne rfl

private theorem isFilled_append {path : List String} (h : path.head? ≠ some "") (name : String) :
    IsFilled (path ++ [name]) := by
  intro behind hsame
  cases path with
  | nil => exact (List.cons.inj hsame).2.symm
  | cons first rest =>
    exact absurd (congrArg some (List.cons.inj hsame).1) h

private theorem head?_shorten {path : List String} (h : path.head? ≠ some "") :
    (shorten path).head? ≠ some "" := by
  unfold shorten
  split
  · split
    · exact h
    · intro hhead
      rw [List.head?_dropLast] at hhead
      split at hhead
      · exact h hhead
      · cases hhead
  · nofun

/-- A filled path stays filled. -/
theorem IsFilled.walk {path : List String} (h : IsFilled path) (moves : List Move) :
    IsFilled (walk moves path) := by
  induction moves generalizing path with
  | nil => exact h
  | cons move rest ih =>
    apply ih
    cases move with
    | stay => exact h
    | up => exact isFilled_append (head?_shorten h.head?_segmentBase) ""
    | put name => exact isFilled_append h.head?_segmentBase name

/-- Moves that climb out of a path lead behind it only if it is a single name and they come back. -/
theorem leadsBehind_of_climb {above : List String} {name : String} (hname : name ≠ "")
    (hdrive : isDriveLetter name.toList = false) {moves after : List Move}
    (hlast : moves.getLast? = some (.put "")) (hclimb : climb? moves = some after) :
    LeadsBehind (above ++ [name]) moves (above ++ [name]) ↔ above = [] ∧ ComesBack name after := by
  have hwalk := walk_of_climb above hname hdrive hclimb
  rw [LeadsBehind, hwalk]
  cases habove : above with
  | nil =>
    rw [← comesBack_iff (canBeLeft_singleton.mpr ⟨hname, hdrive⟩) (getLast?_of_climb hclimb hlast)]
    exact (and_iff_right rfl).symm
  | cons first rest =>
    -- An empty name has taken the place of the last one, and there it stays.
    have hstays : ¬ CanBeLeft (first :: rest ++ [""]) := by
      rintro ⟨front, name', hsame, hname', -⟩
      have hlast := congrArg List.getLast? hsame
      rw [List.getLast?_concat, List.getLast?_concat] at hlast
      exact hname' (Option.some.inj hlast).symm
    obtain ⟨behind, hbehind⟩ := exists_walk (by simp) (by simp) hstays after
    rw [hbehind]
    constructor
    · rintro ⟨behind', -, hsame⟩
      rw [List.append_assoc, List.append_assoc] at hsame
      exact absurd (List.cons.inj (List.append_cancel_left hsame)).1.symm hname
    · rintro ⟨hnil, -⟩
      cases hnil

private theorem leadsBehind_nil (moves : List Move) (start : List String) :
    LeadsBehind [] (moves ++ [.put ""]) start := by
  refine ⟨_, ?_, (List.nil_append _).symm⟩
  rw [walk_concat_put]
  simp

private theorem not_leadsBehind_slashes (moves : List Move) : ¬ LeadsBehind [""] moves [""] := by
  rintro ⟨behind, hbehind, hwalk⟩
  have hfilled : IsFilled [""] := fun behind h ↦ (List.cons.inj h).2.symm
  exact hbehind (hfilled.walk _ behind hwalk)

private theorem leadsBehind_of_not_canBeLeft {path : List String} (hempty : path ≠ [])
    (hslashes : path ≠ [""]) (hleave : ¬ CanBeLeft path) (moves : List Move) :
    LeadsBehind path (moves ++ [.put ""]) path := by
  obtain ⟨behind, hwalk⟩ := exists_walk hempty hslashes hleave moves
  have hbase : segmentBase (path ++ behind) = path ++ behind := by
    cases behind with
    | nil =>
      rw [List.append_nil]
      exact if_neg hslashes
    | cons name rest => exact segmentBase_append_of_ne_nil hempty (List.cons_ne_nil name rest)
  refine ⟨behind ++ [""], by simp, ?_⟩
  rw [walk_concat_put, hwalk, hbase, List.append_assoc]

/-- Moves that end in a slash lead behind a trunk, unless it is two slashes or they climb out of it
and do not come back. -/
theorem leadsBehind_iff {trunk start : List String} {moves : List Move}
    (hstart : start = trunk ∨ trunk = []) (hlast : moves.getLast? = some (.put "")) :
    LeadsBehind trunk moves start ↔
      trunk ≠ [""] ∧ (CanBeLeft trunk → ∀ after, climb? moves = some after →
        ∃ name, trunk = [name] ∧ ComesBack name after) := by
  obtain ⟨front, rfl⟩ := List.getLast?_eq_some_iff.mp hlast
  by_cases hempty : trunk = []
  · subst hempty
    have hno : ¬ CanBeLeft [] := by
      rintro ⟨front, name, h, -⟩
      simp at h
    exact iff_of_true (leadsBehind_nil front start) ⟨by simp, fun hleave ↦ absurd hleave hno⟩
  obtain rfl : start = trunk := hstart.resolve_right hempty
  by_cases hslashes : start = [""]
  · subst hslashes
    exact iff_of_false (not_leadsBehind_slashes _) fun h ↦ h.1 rfl
  -- A path is left only by a climb, and only if its last name can be left.
  by_cases hleave : CanBeLeft start
  · cases hclimb : climb? (front ++ [.put ""]) with
    | none =>
      have hleads := exists_walk_of_climb_eq_none hempty hslashes hlast hclimb
      exact iff_of_true hleads ⟨hslashes, fun _ _ ↦ nofun⟩
    | some after =>
      obtain ⟨above, name, rfl, hname, hdrive⟩ := hleave
      rw [leadsBehind_of_climb hname hdrive hlast hclimb]
      constructor
      · rintro ⟨rfl, hback⟩
        refine ⟨hslashes, fun _ after' hclimb' ↦ ?_⟩
        obtain rfl := Option.some.inj hclimb'
        exact ⟨name, rfl, hback⟩
      · rintro ⟨-, hback⟩
        obtain ⟨name', hsingle, hback⟩ := hback ⟨above, name, rfl, hname, hdrive⟩ after rfl
        cases above with
        | nil =>
          obtain rfl : name = name' := List.singleton_inj.mp hsingle
          exact ⟨rfl, hback⟩
        | cons _ _ => simp at hsingle
  · exact iff_of_true (leadsBehind_of_not_canBeLeft hempty hslashes hleave front)
      ⟨hslashes, fun h ↦ absurd h hleave⟩

/-! ## URLs of paths -/

/-- Dropping an empty last segment brings nothing. -/
theorem Avoids.dropEmptyLast {c : Char} {path : List String} (h : Avoids c path) :
    Avoids c (dropEmptyLast path) := by
  unfold Url.dropEmptyLast
  split
  · exact h.dropLast
  · exact h

/-- Appended segments bring no slash and no question mark. -/
theorem Avoids.foldl_appendSegment {c : Char} {path : List String} (h : Avoids c path)
    (hc : c = '/' ∨ c = '?') (special : Bool) (segments : List (List Char)) :
    Avoids c (segments.foldl (appendSegment special false) path) := by
  have hcolon : c ≠ ':' := by rcases hc with rfl | rfl <;> decide
  have hescaped : ∀ segment, c ∉ Percent.encode (escapedInSegment special) (keptOf segment) := by
    rcases hc with rfl | rfl
    · exact fun _ ↦ Percent.notMem_encode (escapedInSegment_slash special) (by decide) (by decide) _
    · exact fun _ ↦ Percent.notMem_encode rfl (by decide) (by decide) _
  induction segments generalizing path with
  | nil => exact h
  | cons segment rest ih =>
    apply ih
    have hbase : Avoids c (segmentBase path) := by
      unfold segmentBase
      split
      · exact avoids_nil c
      · exact h
    unfold appendSegment
    split
    · exact h
    · exact hbase.placeSegment (hescaped segment) hcolon false true

private theorem getLast?_pathSegments (path : String) :
    (Http.pathSegments (Request.ofPath path).path).getLast? = some [] := by
  have hlast : (Request.ofPath path).path.toList.getLast? = some '/' := by
    rw [Request.ofPath, ensureTrailingSlash]
    split
    · next h => exact h
    · rw [String.toList_append]
      exact List.getLast?_concat
  have hempty : ∀ cs : List Char, cs = [] ∨ cs.getLast? = some '/' →
      (splitOn '/' cs).getLast? = some [] := by
    intro cs hcs
    obtain ⟨front, last, hsplit⟩ := exists_last_piece '/' cs
    rw [hsplit, List.getLast?_concat, (last_eq_nil_iff hsplit).mpr hcs]
  unfold Http.pathSegments
  split
  · next rest hrest =>
    rw [hrest] at hlast
    apply hempty
    cases rest with
    | nil => exact .inl rfl
    | cons c rest => exact .inr hlast
  · exact hempty _ (.inr hlast)

/-- The moves of a request's path. -/
def movesOf (root : Url) (path : String) : List Move :=
  (Http.pathSegments (Request.ofPath path).path).map (moveOf (isSpecial root.scheme))

/-- The last move of a request's path puts an empty name. -/
theorem getLast?_movesOf (root : Url) (path : String) :
    (root.movesOf path).getLast? = some (.put "") := by
  rw [movesOf, List.getLast?_map, getLast?_pathSegments]
  rfl

/-- The URL of a path is the one that its moves lead to. -/
theorem locate_eq {root : Url} {segments : List String} (hpath : root.path = .segments segments)
    (hscheme : (root.scheme == "file") = false) (path : String) :
    locate root (Request.ofPath path).path =
      .ok { root with path := .segments (walk (root.movesOf path) (dropEmptyLast segments)) } := by
  rw [locate_segments hpath hscheme, foldl_appendSegment]
  rfl

/-- A URL lies below a root if moves lead behind the trunk. -/
theorem isBelow_iff_leadsBehind {root : Url} {segments : List String}
    (hpath : root.path = .segments segments) (hfree : Avoids '/' segments) (path : String) :
    root.IsBelow
        { root with path := .segments (walk (root.movesOf path) (dropEmptyLast segments)) } ↔
      LeadsBehind root.trunk (root.movesOf path) (dropEmptyLast segments) := by
  have hstart : Avoids '/' (dropEmptyLast segments) := hfree.dropEmptyLast
  have htrunk : Avoids '/' root.trunk := by
    unfold trunk
    rw [hpath]
    dsimp only
    split
    · exact hfree.dropLast
    · exact hfree
  have hend : Avoids '/' (walk (root.movesOf path) (dropEmptyLast segments)) := by
    rw [movesOf, ← foldl_appendSegment]
    exact hstart.foldl_appendSegment (.inl rfl) _ _
  rw [LeadsBehind, ← print_prefix_iff htrunk hend, ← withoutSlash_print hpath hfree]
  constructor
  · exact fun h ↦ h.path
  · exact fun h ↦ ⟨rfl, rfl, rfl, rfl, h⟩

end Url

/-- Below an API root, every path has a URL, which differs from the root in its path only. It lies
below the root, if and only if the path of the root is not two slashes and the path does not climb
out of it without coming back. Every request for the path goes to that URL, whatever its query. -/
theorem isBelow_iff {baseUrl : String} {version : Version} {root : Url}
    (hroot : apiRoot baseUrl version = .ok root)
    (hscheme : root.scheme = "http" ∨ root.scheme = "https") (path : String) :
    ∃ url, locate root (Request.ofPath path).path = .ok url ∧
      (url.scheme = root.scheme ∧ url.authority = root.authority ∧ url.query = root.query ∧
        url.fragment = root.fragment) ∧
      (root.IsBelow url ↔ root.path ≠ .segments ["", ""] ∧
        (Url.CanBeLeft root.trunk → ∀ after, Url.climb? (root.movesOf path) = some after →
          ∃ name, root.trunk = [name] ∧ Url.ComesBack name after)) ∧
      ∀ credentials settings fresh method request r,
        request.path = (Request.ofPath path).path →
        compose root credentials settings fresh method request = .ok r →
        r.url.scheme = url.scheme ∧ r.url.host? = url.host? ∧ r.url.port? = url.port? ∧
          r.url.path = url.path := by
  have hparse : ∃ text, Url.parse text = .ok root := by
    unfold apiRoot at hroot
    split at hroot
    · next url h =>
      obtain rfl := Except.ok.inj hroot
      exact ⟨_, h⟩
    · cases hroot
  obtain ⟨text, hparse⟩ := hparse
  have hspecial : Url.isSpecial root.scheme = true := by
    rcases hscheme with h | h <;> rw [h] <;> decide
  have hfile : root.scheme ≠ "file" := by
    rcases hscheme with h | h <;> rw [h] <;> decide
  obtain ⟨segments, hpath, hfree, -⟩ := Url.exists_segments_of_parse hparse hspecial hfile
  have hstart : Url.dropEmptyLast segments = root.trunk ∨ root.trunk = [] :=
    (Url.dropEmptyLast_eq hpath).imp_right And.right
  refine ⟨_, Url.locate_eq hpath (beq_false_of_ne hfile) path, ⟨rfl, rfl, rfl, rfl⟩, ?_, ?_⟩
  · rw [Url.isBelow_iff_leadsBehind hpath hfree,
      Url.leadsBehind_iff hstart (root.getLast?_movesOf path), ne_eq, Url.trunk_eq_iff]
  · intro credentials settings fresh method request r hrequest hcompose
    obtain ⟨url, hlocate, -, -, hurl⟩ := of_compose hcompose
    rw [hrequest, Url.locate_eq hpath (beq_false_of_ne hfile)] at hlocate
    obtain rfl := Except.ok.inj hlocate
    obtain ⟨hsame, hhost, hport⟩ := sentTo_place method request _
    rw [hurl]
    exact ⟨hsame, hhost, hport, path_sentTo method request _⟩

/-- Going up from a name stays below the root. -/
theorem isBelow_up :
    ∃ root url, apiRoot "http://region/MAAS/" .twoDotOh = .ok root ∧ root.scheme = "http" ∧
      locate root (Request.ofPath "../a/.\t./.\t.").path = .ok url ∧ root.IsBelow url := by
  have hroot : apiRoot "http://region/MAAS/" .twoDotOh = .ok Endpoint.region.root :=
    ok_of_toOption (by decide +kernel)
  obtain ⟨url, hlocate, -, hbelow, -⟩ := isBelow_iff hroot (.inl rfl) "../a/.\t./.\t."
  refine ⟨_, url, hroot, rfl, hlocate, hbelow.mpr ⟨by decide, fun _ after hclimb ↦ ?_⟩⟩
  have hnone : Url.climb? (Endpoint.region.root.movesOf "../a/.\t./.\t.") = none := by
    decide +kernel
  cases hnone.symm.trans hclimb

/-- Two dots with a tab between them leave the version behind. -/
theorem not_isBelow_tab :
    ∃ root url, apiRoot "http://127.0.0.1:1/MAAS/" .twoDotOh = .ok root ∧ root.scheme = "http" ∧
      locate root (Request.ofPath ".\t.").path = .ok url ∧ ¬ root.IsBelow url := by
  let root : Url :=
    { scheme := "http"
      authority := some { host := some (.ipv4 2130706433), port := some 1 }
      path := .segments ["MAAS", "api", "2.0", ""] }
  have hroot : apiRoot "http://127.0.0.1:1/MAAS/" .twoDotOh = .ok root :=
    ok_of_toOption (by decide +kernel)
  have hlocate : locate root (Request.ofPath ".\t.").path =
      .ok { root with path := .segments ["MAAS", "api", "", ""] } :=
    ok_of_toOption (by decide +kernel)
  refine ⟨_, _, hroot, rfl, hlocate, fun h ↦ ?_⟩
  have hpath := h.path
  revert hpath
  decide

end RegionClient

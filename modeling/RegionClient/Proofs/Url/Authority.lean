import Mathlib.Data.List.TakeDrop
import Mathlib.Data.List.TakeWhile
import RegionClient.Proofs.Url.Paths

/-!
# Authorities in longer texts

What stands before the path of a URL is read the same way if more text follows, once something
ends it: a slash, a mark of a query or a fragment. Main statements: text behind the end of an
authority stays behind it (`readServer_append`, `readFileHost_append`), only text that ends no
authority is taken (`isRest_of_readServer`), and no authority ends in blanks
(`not_readServer_append_of_isLow`).
-/

namespace RegionClient.Url

open Text

variable {special : Bool} {scheme : String} {cs tail rest : List Char}

/-! ## Ends -/

/-- Something ends the authority in front of a text: a character of its own, or a slash at the
front of what stands behind it. -/
def IsEnded (special : Bool) (cs tail : List Char) : Prop :=
  (∃ c ∈ cs, endsAuthority special c = true) ∨ tail.head? = some '/'

/-- A text is what is left of another behind characters that end no authority. -/
def IsRest (special : Bool) (cs rest : List Char) : Prop :=
  ∃ front, cs = front ++ rest ∧ ∀ c ∈ front, endsAuthority special c = false

private theorem IsRest.refl (special : Bool) (cs : List Char) : IsRest special cs cs :=
  ⟨[], rfl, fun _ h ↦ absurd h List.not_mem_nil⟩

private theorem IsRest.cons {c : Char} (h : endsAuthority special c = false) (cs : List Char) :
    IsRest special (c :: cs) cs := by
  refine ⟨[c], rfl, fun c' hc' ↦ ?_⟩
  rw [List.mem_singleton.mp hc']
  exact h

private theorem IsRest.trans {cs' : List Char} (h : IsRest special cs cs')
    (h' : IsRest special cs' rest) :
    IsRest special cs rest := by
  obtain ⟨front, rfl, hfront⟩ := h
  obtain ⟨front', rfl, hfront'⟩ := h'
  refine ⟨front ++ front', (List.append_assoc _ _ _).symm, fun c hc ↦ ?_⟩
  rcases List.mem_append.mp hc with hc | hc
  · exact hfront c hc
  · exact hfront' c hc

/-- What is left of a text is left with more behind it. -/
theorem IsRest.append (h : IsRest special cs rest) (tail : List Char) :
    IsRest special (cs ++ tail) (rest ++ tail) := by
  obtain ⟨front, rfl, hfront⟩ := h
  exact ⟨front, List.append_assoc _ _ _, hfront⟩

/-- What ends an authority is left. -/
theorem IsRest.mem (h : IsRest special cs rest) {c : Char} (hc : c ∈ cs)
    (hend : endsAuthority special c = true) : c ∈ rest := by
  obtain ⟨front, rfl, hfront⟩ := h
  rcases List.mem_append.mp hc with hc | hc
  · exact absurd hend (by rw [hfront c hc]; exact Bool.false_ne_true)
  · exact hc

private theorem IsRest.isEnded (h : IsRest special cs rest) (hend : IsEnded special cs tail) :
    IsEnded special rest tail := by
  rcases hend with ⟨c, hc, hc'⟩ | htail
  · exact .inl ⟨c, h.mem hc hc', hc'⟩
  · exact .inr htail

/-- A slash ends every authority. -/
theorem endsAuthority_slash (special : Bool) : endsAuthority special '/' = true := rfl

private theorem span_append (h : IsEnded special cs tail) :
    (cs ++ tail).span (!endsAuthority special ·) =
      ((cs.span (!endsAuthority special ·)).1, (cs.span (!endsAuthority special ·)).2 ++ tail) := by
  simp only [List.span_eq_takeWhile_dropWhile]
  induction cs with
  | nil =>
    rcases h with ⟨c, hc, -⟩ | htail
    · exact absurd hc List.not_mem_nil
    · obtain ⟨behind, rfl⟩ : ∃ behind, tail = '/' :: behind := List.head?_eq_some_iff.mp htail
      simp [endsAuthority_slash]
  | cons c cs ih =>
    cases hc : endsAuthority special c with
    | true => simp [hc]
    | false =>
      have hcs : IsEnded special cs tail := h.imp_left fun ⟨c', hc', hend⟩ ↦ by
        refine ⟨c', (List.mem_cons.mp hc').resolve_left ?_, hend⟩
        rintro rfl
        exact absurd hend (by rw [hc]; exact Bool.false_ne_true)
      have hspan := Prod.mk.inj (ih hcs)
      simp [hc, hspan.1, hspan.2]

/-! ## Users -/

/-- Nothing but a lone at sign makes a difference between text that follows and none. -/
theorem readUser_append (h : IsEnded special cs tail) (hat : cs ≠ ['@']) :
    readUser special (cs ++ tail) =
      (readUser special cs).map fun (user, password, rest) ↦ (user, password, rest ++ tail) := by
  have hcut : (cs.span (!endsAuthority special ·)).1 ++ (cs.span (!endsAuthority special ·)).2 =
      cs := by
    rw [List.span_eq_takeWhile_dropWhile]
    exact List.takeWhile_append_dropWhile
  unfold readUser
  rw [span_append h]
  generalize cs.span (!endsAuthority special ·) = cut at hcut
  obtain ⟨authority, rest⟩ := cut
  dsimp only at hcut ⊢
  by_cases hmem : authority.contains '@' = true
  · simp only [if_pos hmem]
    generalize hbehind : (authority.reverse.takeWhile (· ≠ '@')).reverse = behind
    by_cases huser : (authority.take (authority.length - behind.length - 1)).isEmpty = true
    · simp only [if_pos huser]
      have hrest : behind.isEmpty = true → rest ≠ [] := by
        intro hempty hnil
        -- The authority is a lone at sign.
        have hlength : authority.length ≤ 1 := by
          rw [List.isEmpty_iff.mp hempty] at huser
          simp at huser
          rcases huser with hone | hnil
          · omega
          · simp [hnil]
        have hsingle : authority = ['@'] := by
          match authority, hlength, hmem with
          | [c], _, hmem => simpa [eq_comm] using hmem
        rw [hsingle, hnil] at hcut
        exact hat hcut.symm
      by_cases hempty : behind.isEmpty = true
      · have hne := hrest hempty
        simp [hempty, hne, Except.map]
      · simp [hempty, Except.map]
    · simp only [if_neg huser]
      simp [Except.map]
  · simp only [if_neg hmem]
    simp [Except.map]

private theorem isRest_of_readUser {user password : String}
    (h : readUser special cs = .ok (user, password, rest)) : IsRest special cs rest := by
  have hcut : (cs.span (!endsAuthority special ·)).1 ++ (cs.span (!endsAuthority special ·)).2 =
      cs := by
    rw [List.span_eq_takeWhile_dropWhile]
    exact List.takeWhile_append_dropWhile
  have hfront : ∀ c ∈ (cs.span (!endsAuthority special ·)).1, endsAuthority special c = false := by
    rw [List.span_eq_takeWhile_dropWhile]
    intro c hc
    simpa using List.mem_takeWhile_imp hc
  unfold readUser at h
  generalize cs.span (!endsAuthority special ·) = cut at h hcut hfront
  obtain ⟨authority, after⟩ := cut
  dsimp only at h hcut hfront
  -- What stands behind the last at sign is the end of the authority.
  have hbehind : authority = (authority.reverse.dropWhile (· ≠ '@')).reverse ++
      (authority.reverse.takeWhile (· ≠ '@')).reverse := by
    rw [← List.reverse_append, List.takeWhile_append_dropWhile, List.reverse_reverse]
  have hrest : IsRest special cs ((authority.reverse.takeWhile (· ≠ '@')).reverse ++ after) := by
    refine ⟨(authority.reverse.dropWhile (· ≠ '@')).reverse, ?_, fun c hc ↦ hfront c ?_⟩
    · rw [← List.append_assoc, ← hbehind, hcut]
    · rw [hbehind]
      exact List.mem_append_left _ hc
  split at h
  · split at h
    · split at h
      · cases h
      · cases h
        exact hrest
    · cases h
      exact hrest
  · cases h
    exact .refl special _

/-! ## Hosts and ports -/

/-- The text of a host is cut in the same place, whatever stands behind its end. -/
theorem cutHost_append (bracketed : Bool) (h : IsEnded special cs tail) :
    cutHost special bracketed (cs ++ tail) =
      ((cutHost special bracketed cs).1, (cutHost special bracketed cs).2 ++ tail) := by
  induction cs generalizing bracketed with
  | nil =>
    rcases h with ⟨c, hc, -⟩ | htail
    · exact absurd hc List.not_mem_nil
    · obtain ⟨behind, rfl⟩ : ∃ behind, tail = '/' :: behind := List.head?_eq_some_iff.mp htail
      simp [cutHost, endsAuthority_slash]
  | cons c cs ih =>
    rw [List.cons_append, cutHost, cutHost]
    by_cases hstop : ((c == ':' && !bracketed) || endsAuthority special c) = true
    · rw [if_pos hstop, if_pos hstop]
      rfl
    · rw [if_neg hstop, if_neg hstop]
      have hend : endsAuthority special c = false :=
        (Bool.or_eq_false_iff.mp (Bool.eq_false_iff.mpr hstop)).2
      simp only [ih _ ((IsRest.cons hend cs).isEnded h)]

private theorem isRest_cutHost (special bracketed : Bool) (cs : List Char) :
    IsRest special cs (cutHost special bracketed cs).2 := by
  induction cs generalizing bracketed with
  | nil => exact .refl special []
  | cons c cs ih =>
    rw [cutHost]
    by_cases hstop : ((c == ':' && !bracketed) || endsAuthority special c) = true
    · rw [if_pos hstop]
      exact .refl special _
    · rw [if_neg hstop]
      have hend : endsAuthority special c = false :=
        (Bool.or_eq_false_iff.mp (Bool.eq_false_iff.mpr hstop)).2
      exact (IsRest.cons hend cs).trans (ih _)

private theorem stops_of_cutHost {bracketed : Bool} {c : Char}
    (h : (cutHost special bracketed cs).2 = c :: rest) :
    c = ':' ∨ endsAuthority special c = true := by
  induction cs generalizing bracketed with
  | nil => cases h
  | cons c' cs ih =>
    rw [cutHost] at h
    by_cases hstop : ((c' == ':' && !bracketed) || endsAuthority special c') = true
    · rw [if_pos hstop] at h
      obtain rfl : c' = c := (List.cons.inj h).1
      rcases Bool.or_eq_true_iff.mp hstop with hcolon | hend
      · exact .inl (beq_iff_eq.mp (Bool.and_eq_true_iff.mp hcolon).1)
      · exact .inr hend
    · rw [if_neg hstop] at h
      exact ih h

private theorem endsPort {c : Char} (h : endsAuthority special c = true) :
    c = '/' ∨ c = '\\' ∨ c = '?' ∨ c = '#' := by
  unfold endsAuthority at h
  simp only [Bool.or_eq_true, Bool.and_eq_true, beq_iff_eq] at h
  rcases h with ((h | h) | h) | h
  · exact .inl h
  · exact .inr (.inr (.inl h))
  · exact .inr (.inr (.inr h))
  · exact .inr (.inl h.2)

private theorem endsAuthority_of_isDigit {c : Char} (h : c.isDigit = true) :
    endsAuthority special c = false := by
  apply Bool.eq_false_iff.mpr
  intro hend
  rcases endsPort hend with rfl | rfl | rfl | rfl <;> exact absurd h (by decide)

/-- A port is read the same way, whatever stands behind its end. -/
theorem readPort_append (value : Nat) (any : Bool) (h : IsEnded special cs tail) :
    readPort value any (cs ++ tail) =
      (readPort value any cs).map fun (port, rest) ↦ (port, rest ++ tail) := by
  induction cs generalizing value any with
  | nil =>
    rcases h with ⟨c, hc, -⟩ | htail
    · exact absurd hc List.not_mem_nil
    · obtain ⟨behind, rfl⟩ : ∃ behind, tail = '/' :: behind := List.head?_eq_some_iff.mp htail
      rfl
  | cons c cs ih =>
    rw [List.cons_append, readPort, readPort]
    by_cases hdigit : c.isDigit = true
    · rw [if_pos hdigit, if_pos hdigit]
      dsimp only
      split
      · rfl
      · exact ih _ _ ((IsRest.cons (endsAuthority_of_isDigit hdigit) cs).isEnded h)
    · rw [if_neg hdigit, if_neg hdigit]
      split <;> rfl

private theorem isRest_of_readPort {value : Nat} {any : Bool} {port : Option Nat}
    (h : readPort value any cs = .ok (port, rest)) : IsRest special cs rest := by
  induction cs generalizing value any with
  | nil =>
    cases h
    exact .refl special []
  | cons c cs ih =>
    rw [readPort] at h
    by_cases hdigit : c.isDigit = true
    · rw [if_pos hdigit] at h
      dsimp only at h
      split at h
      · cases h
      · exact (IsRest.cons (endsAuthority_of_isDigit hdigit) cs).trans (ih h)
    · rw [if_neg hdigit] at h
      split at h
      · cases h
        exact .refl special _
      · cases h

private theorem readPortPart_append (h : IsEnded special cs tail) :
    readPortPart (cs ++ tail) =
      (readPortPart cs).map fun (port, rest) ↦ (port, rest ++ tail) := by
  cases cs with
  | nil =>
    rcases h with ⟨c, hc, -⟩ | htail
    · exact absurd hc List.not_mem_nil
    · obtain ⟨behind, rfl⟩ : ∃ behind, tail = '/' :: behind := List.head?_eq_some_iff.mp htail
      rfl
  | cons c cs =>
    by_cases hcolon : c = ':'
    · rw [hcolon] at h ⊢
      have hend : endsAuthority special ':' = false := by cases special <;> decide
      exact readPort_append 0 false ((IsRest.cons hend cs).isEnded h)
    · rw [List.cons_append, readPortPart, readPortPart]
      · rfl
      · intro rest hrest
        exact hcolon (List.cons.inj hrest).1
      · intro rest hrest
        exact hcolon (List.cons.inj hrest).1

private theorem isRest_of_readPortPart {port : Option Nat}
    (h : readPortPart cs = .ok (port, rest)) :
    IsRest special cs rest := by
  unfold readPortPart at h
  split at h
  · next behind =>
    have hend : endsAuthority special ':' = false := by cases special <;> decide
    exact (IsRest.cons hend behind).trans (isRest_of_readPort h)
  · cases h
    exact .refl special _

/-! ## Authorities -/

/-- What is left of an authority: the texts behind its user, its host and its port. -/
theorem of_readServer {authority : Authority} (h : readServer scheme cs = .ok (authority, rest)) :
    ∃ user password behind host port,
      readUser (isSpecial scheme) cs = .ok (user, password, behind) ∧
      readHost (isSpecial scheme) (cutHost (isSpecial scheme) false behind).1 = .ok host ∧
      readPortPart (cutHost (isSpecial scheme) false behind).2 = .ok (port, rest) := by
  unfold readServer at h
  cases huser : readUser (isSpecial scheme) cs with
  | error e =>
    rw [huser] at h
    cases h
  | ok user =>
    rw [huser] at h
    obtain ⟨user, password, behind⟩ := user
    dsimp only [Except.bind] at h
    cases hhost : readHost (isSpecial scheme) (cutHost (isSpecial scheme) false behind).1 with
    | error e =>
      rw [hhost] at h
      cases h
    | ok host =>
      rw [hhost] at h
      dsimp only at h
      split at h
      · cases h
      · cases hport : readPortPart (cutHost (isSpecial scheme) false behind).2 with
        | error e =>
          rw [hport] at h
          cases h
        | ok port =>
          rw [hport] at h
          cases h
          exact ⟨user, password, behind, host, _, rfl, hhost, hport⟩

/-- An authority takes what ends no authority. -/
theorem isRest_of_readServer {authority : Authority}
    (h : readServer scheme cs = .ok (authority, rest)) : IsRest (isSpecial scheme) cs rest := by
  obtain ⟨user, password, behind, host, port, huser, -, hport⟩ := of_readServer h
  exact ((isRest_of_readUser huser).trans (isRest_cutHost _ _ behind)).trans
    (isRest_of_readPortPart hport)

/-- An authority is read the same way, whatever stands behind its end; only a lone at sign is
refused in front of a path. -/
theorem readServer_append (h : IsEnded (isSpecial scheme) cs tail) (hat : cs ≠ ['@']) :
    readServer scheme (cs ++ tail) =
      (readServer scheme cs).map fun (authority, rest) ↦ (authority, rest ++ tail) := by
  unfold readServer
  rw [readUser_append h hat]
  cases huser : readUser (isSpecial scheme) cs with
  | error e => rfl
  | ok user =>
    obtain ⟨user, password, behind⟩ := user
    have hended : IsEnded (isSpecial scheme) behind tail := (isRest_of_readUser huser).isEnded h
    dsimp only [Except.map, Except.bind]
    rw [cutHost_append false hended]
    dsimp only
    cases hhost : readHost (isSpecial scheme) (cutHost (isSpecial scheme) false behind).1 with
    | error e => rfl
    | ok host =>
      have hended : IsEnded (isSpecial scheme) (cutHost (isSpecial scheme) false behind).2 tail :=
        (isRest_cutHost _ _ behind).isEnded hended
      generalize (cutHost (isSpecial scheme) false behind).2 = rest at hended ⊢
      have hcolon : (rest ++ tail).head? = some ':' ↔ rest.head? = some ':' := by
        cases rest with
        | nil =>
          rcases hended with ⟨c, hc, -⟩ | htail
          · exact absurd hc List.not_mem_nil
          · rw [List.nil_append, htail]
            simp
        | cons c rest => rfl
      simp only [hcolon]
      split
      · rfl
      · rw [readPortPart_append hended]
        cases readPortPart rest <;> rfl

/-! ## Hosts of files -/

/-- Two slashes stand in front of a host. -/
def announcesHost : List Char → Bool
  | a :: b :: _ => isSlash a && isSlash b
  | _ => false

private theorem readFileHost_of_not_announcesHost (h : announcesHost cs = false) :
    readFileHost cs = .ok (none, cs) := by
  unfold readFileHost
  split
  · next a b rest =>
    rw [if_neg]
    intro hslashes
    rw [announcesHost, hslashes.1, hslashes.2] at h
    cases h
  · rfl

/-- The host of a `file` URL is read the same way, whatever stands behind its end. -/
theorem readFileHost_append (hstart : announcesHost (cs ++ tail) = announcesHost cs)
    (hended : ∀ a b rest, cs = a :: b :: rest → announcesHost cs = true → IsEnded true rest tail) :
    readFileHost (cs ++ tail) =
      (readFileHost cs).map fun (host, rest) ↦ (host, rest ++ tail) := by
  cases hannounces : announcesHost cs with
  | false =>
    rw [readFileHost_of_not_announcesHost hannounces,
      readFileHost_of_not_announcesHost (hstart.trans hannounces)]
    rfl
  | true =>
    match cs, hannounces, hended with
    | a :: b :: rest, hannounces, hended =>
      have hslashes : isSlash a = true ∧ isSlash b = true := Bool.and_eq_true_iff.mp hannounces
      unfold readFileHost
      simp only [List.cons_append, if_pos hslashes, span_append (hended a b rest rfl hannounces)]
      split
      · rfl
      · split
        · rfl
        · cases parseHost (rest.span (!endsAuthority true ·)).1 <;> rfl

/-- The host of a `file` URL takes nothing, or two slashes and what ends no authority. -/
theorem isRest_of_readFileHost {host : Option Host} (h : readFileHost cs = .ok (host, rest)) :
    rest = cs ∨ ∃ a b behind, cs = a :: b :: behind ∧ announcesHost cs = true ∧
      IsRest true behind rest := by
  unfold readFileHost at h
  split at h
  · next a b behind =>
    split at h
    · next hslashes =>
      refine .inr ⟨a, b, behind, rfl, Bool.and_eq_true_iff.mpr hslashes, ?_⟩
      have hcut : IsRest true behind (behind.span (!endsAuthority true ·)).2 := by
        rw [List.span_eq_takeWhile_dropWhile]
        refine ⟨_, List.takeWhile_append_dropWhile.symm, fun c hc ↦ ?_⟩
        simpa using List.mem_takeWhile_imp hc
      dsimp only at h
      split at h
      · cases h
        exact hcut
      · split at h
        · cases h
          exact .refl true _
        · cases hhost : parseHost (behind.span (!endsAuthority true ·)).1 with
          | error e =>
            rw [hhost] at h
            cases h
          | ok host =>
            rw [hhost] at h
            cases h
            exact hcut
    · cases h
      exact .inl rfl
  · cases h
    exact .inl rfl

/-! ## Blanks behind authorities -/

/-- A blank or a control character, as they may surround a URL. -/
def isLow (c : Char) : Bool := c.toNat ≤ 0x20

/-- Every character of a text is a blank or a control character. -/
def IsLow (cs : List Char) : Prop := ∀ c ∈ cs, isLow c = true

/-- What is no blank is not among blanks. -/
theorem IsLow.notMem (h : IsLow cs) {c : Char} (hc : isLow c = false) : c ∉ cs := by
  intro hmem
  rw [h c hmem] at hc
  cases hc

private theorem endsAuthority_of_isLow {c : Char} (h : isLow c = true) :
    endsAuthority special c = false := by
  apply Bool.eq_false_iff.mpr
  intro hend
  rcases endsPort hend with rfl | rfl | rfl | rfl <;> exact absurd h (by decide)

private theorem span_append_of_isLow (hcs : ∀ c ∈ cs, endsAuthority special c = false)
    (htail : IsLow tail) :
    (cs ++ tail).span (!endsAuthority special ·) = (cs ++ tail, []) := by
  have hall : ∀ c ∈ cs ++ tail, (!endsAuthority special c) = true := by
    intro c hc
    rcases List.mem_append.mp hc with hc | hc
    · rw [hcs c hc]
      rfl
    · rw [endsAuthority_of_isLow (htail c hc)]
      rfl
  rw [List.span_eq_takeWhile_dropWhile, List.takeWhile_eq_self_iff.mpr hall,
    List.dropWhile_eq_nil_iff.mpr hall]

private theorem readUser_append_of_isLow {user password : String}
    (hcs : ∀ c ∈ cs, endsAuthority special c = false) (htail : IsLow tail)
    (h : readUser special cs = .ok (user, password, rest)) :
    readUser special (cs ++ tail) = .ok (user, password, rest ++ tail) := by
  have hnil : IsLow [] := fun c hc ↦ absurd hc List.not_mem_nil
  have hspan := span_append_of_isLow hcs hnil
  rw [List.append_nil] at hspan
  have hat : '@' ∉ tail := htail.notMem (by decide)
  -- The last at sign stands in front of the blanks, so that the text is cut where it was.
  have hbehind : (cs ++ tail).reverse.takeWhile (· ≠ '@') =
      tail.reverse ++ cs.reverse.takeWhile (· ≠ '@') := by
    rw [List.reverse_append, List.takeWhile_append_of_pos]
    intro c hc
    have hne : c ≠ '@' := fun e ↦ hat (e ▸ List.mem_reverse.mp hc)
    simpa using hne
  unfold readUser at h ⊢
  rw [span_append_of_isLow hcs htail]
  rw [hspan] at h
  dsimp only at h ⊢
  have hcontains : (cs ++ tail).contains '@' = cs.contains '@' := by
    simp [hat]
  rw [hcontains, hbehind, List.reverse_append, List.reverse_reverse]
  have huser : (cs ++ tail).take ((cs ++ tail).length -
        ((cs.reverse.takeWhile (· ≠ '@')).reverse ++ tail).length - 1) =
      cs.take (cs.length - (cs.reverse.takeWhile (· ≠ '@')).reverse.length - 1) := by
    rw [List.length_append, List.length_append, Nat.add_sub_add_right,
      List.take_append_of_le_length]
    omega
  rw [huser]
  generalize (cs.reverse.takeWhile (· ≠ '@')).reverse = behind at h ⊢
  split at h
  · next hmem =>
    rw [if_pos hmem]
    split at h
    · next hempty =>
      rw [if_pos hempty, if_neg (by simp)]
      split at h
      · cases h
      · cases h
        simp
    · next hempty =>
      rw [if_neg hempty]
      cases h
      simp
  · next hmem =>
    rw [if_neg hmem]
    cases h
    rfl

private theorem cutHost_append_of_isLow (bracketed : Bool)
    (hcs : ∀ c ∈ cs, endsAuthority special c = false) (htail : IsLow tail) :
    cutHost special bracketed (cs ++ tail) =
      if (cutHost special bracketed cs).2 = [] then ((cutHost special bracketed cs).1 ++ tail, [])
      else ((cutHost special bracketed cs).1, (cutHost special bracketed cs).2 ++ tail) := by
  induction cs generalizing bracketed with
  | nil =>
    show cutHost special bracketed tail = (tail, [])
    induction tail generalizing bracketed with
    | nil => rfl
    | cons c tail ih =>
      have hc : isLow c = true := htail c List.mem_cons_self
      have hcolon : (c == ':') = false := by
        apply beq_false_of_ne
        rintro rfl
        exact absurd hc (by decide)
      rw [cutHost, hcolon, endsAuthority_of_isLow hc, if_neg (by simp)]
      simp only [ih (fun c' hc' ↦ htail c' (List.mem_cons_of_mem c hc'))]
  | cons c cs ih =>
    have hend : endsAuthority special c = false := hcs c List.mem_cons_self
    rw [List.cons_append, cutHost, cutHost]
    by_cases hstop : ((c == ':' && !bracketed) || endsAuthority special c) = true
    · rw [if_pos hstop, if_pos hstop]
      simp
    · rw [if_neg hstop, if_neg hstop]
      simp only [ih _ (fun c' hc' ↦ hcs c' (List.mem_cons_of_mem c hc'))]
      generalize (if c = '[' then true else if c = ']' then false else bracketed) = bracketed
      split <;> rfl

private theorem not_readPort_append_of_isLow (hcs : ∀ c ∈ cs, endsAuthority true c = false)
    (htail : IsLow tail) (hne : tail ≠ []) (value : Nat) (any : Bool)
    (read : Option Nat × List Char) : readPort value any (cs ++ tail) ≠ .ok read := by
  have hrefused : ∀ (c : Char) (rest : List Char) (value : Nat) (any : Bool),
      c.isDigit = false → endsAuthority true c = false →
      readPort value any (c :: rest) = .error .invalidPort := by
    intro c rest value any hdigit hend
    rw [readPort, hdigit, if_neg Bool.false_ne_true, if_neg]
    rintro (rfl | rfl | rfl | rfl) <;> exact absurd hend (by decide)
  induction cs generalizing value any with
  | nil =>
    obtain ⟨c, rest, rfl⟩ := List.exists_cons_of_ne_nil hne
    have hc : isLow c = true := htail c List.mem_cons_self
    have hdigit : c.isDigit = false := by
      apply Bool.eq_false_iff.mpr
      intro hdigit
      have hbounds : 48 ≤ c.toNat ∧ c.toNat ≤ 57 := Char.isDigit_iff_toNat.mp hdigit
      have hlow : c.toNat ≤ 0x20 := of_decide_eq_true hc
      omega
    rw [List.nil_append, hrefused c rest value any hdigit (endsAuthority_of_isLow hc)]
    nofun
  | cons c cs ih =>
    have hrest : ∀ c' ∈ cs, endsAuthority true c' = false :=
      fun c' hc' ↦ hcs c' (List.mem_cons_of_mem c hc')
    cases hdigit : c.isDigit with
    | true =>
      rw [List.cons_append, readPort, if_pos hdigit]
      dsimp only
      split
      · nofun
      · exact ih hrest _ _
    | false =>
      rw [List.cons_append, hrefused c _ value any hdigit (hcs c List.mem_cons_self)]
      nofun

private theorem not_parseHost_append_of_isLow (cs : List Char) (htail : IsLow tail)
    (hne : tail ≠ []) (host : Host) : parseHost (cs ++ tail) ≠ .ok host := by
  intro h
  unfold parseHost at h
  split at h
  · next rest hbracket =>
    -- An address ends in a bracket.
    split at h
    · next hlast =>
      have hlast' : tail.getLast? = some ']' := by
        have hwhole : (cs ++ tail).getLast? = some ']' := by
          rw [hbracket, List.getLast?_cons, hlast]
          rfl
        rwa [List.getLast?_append, List.getLast?_eq_some_getLast hne, Option.some_or,
          ← List.getLast?_eq_some_getLast hne] at hwhole
      exact htail.notMem (by decide) (List.mem_of_getLast? hlast')
    · cases h
  · obtain ⟨c, rest, rfl⟩ := List.exists_cons_of_ne_nil hne
    have hc : isLow c = true := htail c List.mem_cons_self
    have hlow : c.toNat ≤ 0x20 := of_decide_eq_true hc
    have hdigit : Hex.value? c = none := by
      simp only [Hex.value?]
      rw [if_neg (by omega), if_neg (by omega), if_neg (by omega)]
    have hmark : c ≠ '%' := by
      rintro rfl
      exact absurd hc (by decide)
    split at h
    · cases h
    · next decoded hdecoded =>
      have hmem : c ∈ decoded :=
        Percent.mem_of_decode? (by omega) hmark hdigit (by simp) hdecoded
      have hlower : c.toLower.toNat ≤ 0x20 := by
        rw [toNat_toLower, if_neg (by omega)]
        exact hlow
      dsimp only at h
      rw [if_pos] at h
      · cases h
      · rw [List.any_map, List.any_eq_true]
        exact ⟨c, hmem, by simp [isForbiddenInDomain, hlower]⟩

/-- No authority of a special scheme ends in blanks. -/
theorem not_readServer_append_of_isLow (hspecial : isSpecial scheme = true)
    {read : Authority × List Char} (hcs : ∀ c ∈ cs, endsAuthority true c = false)
    (h : readServer scheme cs = .ok read) (htail : IsLow tail) (hne : tail ≠ [])
    (read' : Authority × List Char) : readServer scheme (cs ++ tail) ≠ .ok read' := by
  intro h'
  obtain ⟨authority, rest⟩ := read
  obtain ⟨authority', rest'⟩ := read'
  obtain ⟨user, password, behind, host, port, huser, -, -⟩ := of_readServer h
  obtain ⟨user', password', behind', host', port', huser', hhost, hport⟩ := of_readServer h'
  rw [hspecial] at huser huser' hhost hport
  rw [readUser_append_of_isLow hcs htail huser] at huser'
  cases huser'
  have hbehind : ∀ c ∈ behind, endsAuthority true c = false := by
    obtain ⟨front, rfl, -⟩ := isRest_of_readUser huser
    exact fun c hc ↦ hcs c (List.mem_append_right front hc)
  rw [cutHost_append_of_isLow false hbehind htail] at hhost hport
  split at hhost
  · unfold readHost at hhost
    rw [if_pos rfl] at hhost
    split at hhost
    · cases hhost
    · generalize (cutHost true false behind).1 = text at hhost
      cases hparse : parseHost (text ++ tail) with
      | error e =>
        rw [hparse] at hhost
        cases hhost
      | ok host => exact not_parseHost_append_of_isLow text htail hne host hparse
  · next hrest =>
    -- Nothing ends the text behind the host, so it is a port.
    rw [if_neg hrest] at hport
    obtain ⟨c, rest, hcut⟩ := List.exists_cons_of_ne_nil hrest
    have hends : ∀ c' ∈ c :: rest, endsAuthority true c' = false := by
      obtain ⟨front, hfront, -⟩ := isRest_cutHost true false behind
      rw [hcut] at hfront
      rw [hfront] at hbehind
      exact fun c' hc' ↦ hbehind c' (List.mem_append_right front hc')
    obtain rfl : c = ':' := by
      rcases stops_of_cutHost hcut with hcolon | hend
      · exact hcolon
      · rw [hends c List.mem_cons_self] at hend
        cases hend
    rw [hcut] at hport
    exact not_readPort_append_of_isLow (fun c' hc' ↦ hends c' (List.mem_cons_of_mem _ hc')) htail
      hne 0 false _ hport

end RegionClient.Url

import RegionClient.Failure.OperationClass

/-!
# Translated failures

What the errors of failed calls say. Main statements: a failed call that tells a status is of
the kind that the table of its class gives to the status (`kind_translate_of_status?`), any other is
unexpected (`translate_of_status?_none`), none is of the kind of an argument that is not valid
(`kind_translate_ne_notValid`), and the error keeps the call and words it by what the server said
or, if it is unexpected, in full (`translate_keeps_call`).
-/

namespace RegionClient

/-- The error of a kind has that kind. -/
theorem Error.kind_ofCall (kind : ErrorKind) (call : CallError) :
    (Error.ofCall kind call).kind = kind := by
  cases kind <;> rfl

namespace OperationClass

/-- The error of a failed call that tells a status is of the kind that the table gives to it. -/
theorem kind_translate_of_status? (c : OperationClass) {call : CallError} {status : Status}
    (h : call.status? = some status) :
    (c.translate call).kind = (c.rules.lookup status).getD .unexpected := by
  rw [translate, h]
  exact Error.kind_ofCall _ call

/-- A failed call that tells no status is unexpected. -/
theorem translate_of_status?_none (c : OperationClass) {call : CallError}
    (h : call.status? = none) : c.translate call = .unexpected call.describe (some call) := by
  rw [translate, h]
  rfl

/-- A kind that a class gives to a status stands in its table, or is that of other statuses. -/
theorem classify_mem (c : OperationClass) (status : Status) :
    c.classify status = .unexpected ∨ (status, c.classify status) ∈ c.rules := by
  unfold classify
  cases hfound : c.rules.lookup status with
  | none => exact .inl rfl
  | some kind =>
    obtain ⟨l₁, l₂, hrules, -⟩ := List.lookup_eq_some_iff.mp hfound
    right
    rw [hrules]
    simp

/-- No table speaks of arguments that are not valid. -/
theorem notValid_notMem_rules (c : OperationClass) (status : Status) :
    (status, ErrorKind.notValid) ∉ c.rules := by
  cases c <;> simp [rules]

/-- No table speaks of versions that are not supported. -/
theorem unsupportedVersion_notMem_rules (c : OperationClass) (status : Status) :
    (status, ErrorKind.unsupportedVersion) ∉ c.rules := by
  cases c <;> simp [rules]

/-- A table lists each status once. -/
theorem nodup_statuses (c : OperationClass) : (c.rules.map Prod.fst).Nodup := by
  cases c <;> decide

/-- The kind of a status is the one that the table lists with it. -/
theorem lookup_rules_eq_some_iff {c : OperationClass} {status : Status} {kind : ErrorKind} :
    c.rules.lookup status = some kind ↔ (status, kind) ∈ c.rules := by
  rw [List.lookup_eq_some_iff]
  constructor
  · rintro ⟨l₁, l₂, hrules, -⟩
    rw [hrules]
    exact List.mem_append_right l₁ List.mem_cons_self
  · intro hmem
    obtain ⟨l₁, l₂, hrules⟩ := List.append_of_mem hmem
    refine ⟨l₁, l₂, hrules, fun rule hrule ↦ bne_iff_ne.mpr ?_⟩
    have hnodup := nodup_statuses c
    rw [hrules, List.map_append, List.nodup_append] at hnodup
    exact (hnodup.2.2 rule.1 (List.mem_map_of_mem hrule) status List.mem_cons_self).symm

/-- The error of a failed call says nothing of arguments that are not valid. -/
theorem kind_translate_ne_notValid (c : OperationClass) (call : CallError) :
    (c.translate call).kind ≠ .notValid := by
  unfold translate
  split
  · next status _ =>
    rw [Error.kind_ofCall]
    intro h
    rcases c.classify_mem status with hclass | hclass
    · rw [hclass] at h
      cases h
    · rw [h] at hclass
      exact notValid_notMem_rules c status hclass
  · exact nofun

/-! ## What an error keeps of the call -/

/-- The kind that a class gives to a failed call: the one listed with the status of a refusal, and
unexpected for any other status and for every failure that is no refusal. -/
inductive GivesKind (c : OperationClass) (call : CallError) : ErrorKind → Prop
  | listed {status : Status} {body : String} {kind : ErrorKind}
      (hfailure : call.failure = .transport (.server status body))
      (hlisted : (status, kind) ∈ c.rules) : GivesKind c call kind
  | unlisted {status : Status} {body : String}
      (hfailure : call.failure = .transport (.server status body))
      (hunlisted : ∀ kind, (status, kind) ∉ c.rules) : GivesKind c call .unexpected
  | unanswered {e : TransportError} (hfailure : call.failure = .transport e)
      (hno : ∀ status body, e ≠ .server status body) : GivesKind c call .unexpected
  | undecoded {message : String} (hfailure : call.failure = .decode message) :
      GivesKind c call .unexpected

private theorem givesKind_iff {c : OperationClass} {call : CallError} {kind : ErrorKind} :
    c.GivesKind call kind ↔ kind = (call.status?.map c.classify).getD .unexpected := by
  unfold CallError.status?
  constructor
  · intro h
    cases h with
    | listed hfailure hlisted =>
      rw [hfailure]
      show kind = c.classify _
      rw [classify, lookup_rules_eq_some_iff.mpr hlisted, Option.getD_some]
    | @unlisted status _ hfailure hunlisted =>
      rw [hfailure]
      exact ((c.classify_mem status).resolve_right (hunlisted _)).symm
    | @unanswered e hfailure hno =>
      rw [hfailure]
      cases e with
      | server status body => exact absurd rfl (hno status body)
      | _ => rfl
    | undecoded hfailure =>
      rw [hfailure]
      rfl
  · rintro rfl
    cases hfailure : call.failure with
    | decode message => exact .undecoded hfailure
    | transport e =>
      cases e with
      | server status body =>
        show c.GivesKind call (c.classify status)
        unfold classify
        cases hlisted : c.rules.lookup status with
        | none =>
          refine .unlisted hfailure fun kind hmem ↦ ?_
          rw [lookup_rules_eq_some_iff.mpr hmem] at hlisted
          cases hlisted
        | some kind => exact .listed hfailure (lookup_rules_eq_some_iff.mp hlisted)
      | _ => exact .unanswered hfailure nofun

/-- What the error of a failed call says: it has the given kind and the code of that kind, and keeps
the call. Its message is what the server said or, if it is unexpected, the call in full, with what
failed. -/
structure Says (call : CallError) (kind : ErrorKind) (e : Error) : Prop where
  kind_eq : e.kind = kind
  code_eq : e.code = kind.code
  call_eq : e.call? = some call
  answered : kind ≠ .unexpected → ∃ status body,
    call.failure = .transport (.server status body) ∧ e.detail = body
  unexplained : kind = .unexpected → e.detail = call.method ++ " " ++
    (match call.op with
      | none => call.path
      | some op => call.path ++ "?op=" ++ op) ++ ": " ++ call.failure.describe

private theorem says_ofUnexpected (call : CallError) :
    Says call .unexpected (.ofUnexpected call) where
  kind_eq := rfl
  code_eq := rfl
  call_eq := rfl
  answered h := absurd rfl h
  unexplained _ := rfl

private theorem says_ofCall {call : CallError} {status : Status} {body : String} {kind : ErrorKind}
    (hfailure : call.failure = .transport (.server status body)) (hnotValid : kind ≠ .notValid)
    (hunsupported : kind ≠ .unsupportedVersion) : Says call kind (.ofCall kind call) := by
  have hbody : call.body? = some body := by
    rw [CallError.body?, hfailure]
    rfl
  cases kind with
  | notValid => exact absurd rfl hnotValid
  | unsupportedVersion => exact absurd rfl hunsupported
  | unexpected => exact says_ofUnexpected call
  | permissionDenied | noMatch | badRequest | cannotComplete =>
    refine ⟨rfl, rfl, rfl, fun _ ↦ ⟨status, body, hfailure, ?_⟩, nofun⟩
    simp [Error.ofCall, Error.detail, hbody]

private theorem classify_keeps_call (c : OperationClass) (status : Status) :
    c.classify status ≠ .notValid ∧ c.classify status ≠ .unsupportedVersion := by
  rcases c.classify_mem status with hclass | hclass
  · rw [hclass]
    exact ⟨nofun, nofun⟩
  · exact ⟨fun h ↦ notValid_notMem_rules c status (h ▸ hclass),
      fun h ↦ unsupportedVersion_notMem_rules c status (h ▸ hclass)⟩

/-- The error of a failed call keeps it whole: its kind is the one that the class gives to the call,
which is never that of an argument that is not valid or of a version that is not supported, and it
says what the server said or, if it is unexpected, what failed. -/
theorem translate_keeps_call (c : OperationClass) (call : CallError) :
    ∃ kind, (∀ given, c.GivesKind call given ↔ given = kind) ∧
      Says call kind (c.translate call) ∧ kind ≠ .notValid ∧ kind ≠ .unsupportedVersion := by
  refine ⟨_, fun _ ↦ givesKind_iff, ?_⟩
  unfold translate CallError.status?
  cases hfailure : call.failure with
  | decode message => exact ⟨says_ofUnexpected call, nofun, nofun⟩
  | transport e =>
    cases e with
    | server status body =>
      obtain ⟨hnotValid, hunsupported⟩ := c.classify_keeps_call status
      exact ⟨says_ofCall hfailure hnotValid hunsupported, hnotValid, hunsupported⟩
    | _ => exact ⟨says_ofUnexpected call, nofun, nofun⟩

end OperationClass

end RegionClient

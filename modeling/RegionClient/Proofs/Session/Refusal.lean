import RegionClient.Proofs.Failure.Translation
import RegionClient.Proofs.Resource.Step
import RegionClient.Proofs.Session.Negotiation
import RegionClient.Session.Scripted

/-!
# What is refused without a call

An error for something not valid is to come before any call. `RefusesLocally` is that law for an
operation in a run. Main statement: the law holds unless a negotiation meets a candidate at fault
behind candidates that were passed over, and then there was one call for each of these
(`refusesLocally_iff`); everything else obeys it.
-/

namespace RegionClient

/-- The error of a step that is no primitive. -/
def StepError.error? : StepError → Option Error
  | call _ => none
  | error e => some e

/-- What a result failed with. -/
def errorOf {ε α : Type} : Except ε α → Option ε
  | .ok _ => none
  | .error e => some e

private theorem errorOf_eq_some {ε α : Type} {x : Except ε α} {e : ε} :
    errorOf x = some e ↔ x = .error e := by
  cases x <;> simp [errorOf]

/-- What can be asked for: a session, by negotiation or by configuration, or a step of one. -/
inductive Operation (σ : Type) where
  | negotiation (connector : Connector σ) (versions : List String) (args : ControllerArgs)
  | configured (connector : ClientSettings → Connector σ) (config : ControllerConfig)
  | within (session : Session σ) (step : Step)

/-- The error that an operation ends with. A failed primitive reports a call, which is of no
kind. -/
def Operation.error? {σ : Type} : Operation σ → Action σ (Option Error)
  | negotiation connector versions args => errorOf <$> Session.negotiate connector versions args
  | configured connector config => errorOf <$> Session.ofConfig connector config
  | within session step => (fun outcome ↦ (errorOf outcome).bind StepError.error?) <$>
      step.perform session

/-- An operation that ends with an error for something not valid has made no call. -/
def Operation.RefusesLocally {σ : Type} (op : Operation σ) (run : Run σ) : Prop :=
  ∀ e, (op.error? run).1 = some e → e.kind = .notValid → (op.error? run).2.calls = run.calls

section

variable {σ : Type} (connector : Connector σ) (args : ControllerArgs)

/-- Candidates that are all passed over lead from one world to another. -/
inductive PassesOver : List String → σ → σ → Prop
  | done {world : σ} : PassesOver [] world world
  | more {candidate : String} {rest : List String} {world world₁ world₂ : σ}
      {contacts : List Contact} (h : Trial connector args candidate world contacts .goesOn world₁)
      (hrest : PassesOver rest world₁ world₂) : PassesOver (candidate :: rest) world world₂

/-- A candidate is not valid: it is malformed, or the key is refused for its version. -/
inductive AtFault (candidate : String) (world : σ) : Prop
  | malformed (hv : Version.parse? candidate = none)
  | keyRefused {version : Version} {message : String}
      (hv : Version.parse? candidate = some version)
      (ho : (connector args.baseUrl args.apiKey version world).1.channel =
        .error (.invalidCredentials message))

/-- The first candidate at fault stands behind these, which are all passed over. -/
def FaultBehind (passed candidates : List String) (world : σ) : Prop :=
  ∃ culprit rest world', candidates = passed ++ culprit :: rest ∧
    PassesOver connector args passed world world' ∧ AtFault connector args culprit world'

end

/-- An operation negotiates, and the first candidate at fault stands behind these, which are all
passed over. -/
def Operation.HasFaultBehind {σ : Type} (passed : List String) : Operation σ → σ → Prop
  | negotiation connector versions args, world => FaultBehind connector args passed versions world
  | configured connector config, world => ∃ args, config.toArgs = .ok args ∧
      FaultBehind (connector config.clientSettings) args passed config.supportedVersions world
  | within _ _, _ => False

/-- An operation negotiates, and a candidate at fault comes late. -/
def Operation.HasLateFault {σ : Type} (op : Operation σ) (world : σ) : Prop :=
  ∃ passed, passed ≠ [] ∧ op.HasFaultBehind passed world

variable {σ : Type}

/-! ## Negotiations -/

section

variable {connector : Connector σ} {args : ControllerArgs} {all : List String}

private theorem Trial.calls_of_goesOn {candidate : String} {world world' : σ}
    {contacts : List Contact} (h : Trial connector args candidate world contacts .goesOn world') :
    contacts.filterMap Contact.call? = [(.get, versionRequest)] := by
  cases h
  rfl

private theorem Identity.kind_ne_notValid {answer : Except TransportError Bytes} {e : Error}
    (h : Identity answer (.error e)) : e.kind ≠ .notValid := by
  cases h <;> exact nofun

/-- A trial that ends as not valid does so without a call, for the fault of the candidate. -/
theorem Trial.atFault {candidate : String} {world world' : σ} {contacts : List Contact} {e : Error}
    (h : Trial connector args candidate world contacts (.ends (.error e)) world')
    (hkind : e.kind = .notValid) :
    AtFault connector args candidate world ∧ contacts.filterMap Contact.call? = [] := by
  cases h with
  | malformed hv => exact ⟨.malformed hv, rfl⟩
  | keyRefused hv ho => exact ⟨.keyRefused hv (congrArg (·.1.channel) ho), rfl⟩
  | notOpened hv ho he => cases hkind
  | unidentified hv ho hd hl hi hk => exact absurd hkind hk.kind_ne_notValid

/-- A candidate at fault ends its trial as not valid, without a call. -/
theorem AtFault.exists_trial {candidate : String} {world : σ}
    (h : AtFault connector args candidate world) :
    ∃ contacts e world', Trial connector args candidate world contacts (.ends (.error e)) world' ∧
      e.kind = .notValid ∧ contacts.filterMap Contact.call? = [] := by
  cases h with
  | malformed hv => exact ⟨_, _, _, .malformed hv, rfl, rfl⟩
  | @keyRefused version message hv ho =>
    obtain ⟨⟨⟨opened, log⟩, world'⟩, hopening⟩ :
        ∃ r, connector args.baseUrl args.apiKey version world = r := ⟨_, rfl⟩
    rw [hopening] at ho
    obtain rfl : opened = .error (.invalidCredentials message) := ho
    exact ⟨_, _, _, .keyRefused hv hopening, rfl, rfl⟩

private theorem PassesOver.course_append {passed rest : List String} {world world₁ world₂ : σ}
    {contacts : List Contact} {outcome : Except Error (Session σ)}
    (h : PassesOver connector args passed world world₁)
    (hrest : Course connector args all rest world₁ contacts outcome world₂) :
    ∃ contacts', Course connector args all (passed ++ rest) world contacts' outcome world₂ ∧
      contacts'.filterMap Contact.call? =
        List.replicate passed.length (.get, versionRequest) ++
          contacts.filterMap Contact.call? := by
  induction h with
  | done => exact ⟨contacts, hrest, rfl⟩
  | more htrial _ ih =>
    obtain ⟨contacts', hcourse, hcalls⟩ := ih hrest
    refine ⟨_, .wentOn htrial hcourse, ?_⟩
    rw [List.filterMap_append, htrial.calls_of_goesOn, hcalls]
    rfl

/-- A course that ends as not valid passes candidates over, at one call for each, and then meets
one at fault. -/
theorem Course.exists_faultBehind {candidates : List String} {world world' : σ}
    {contacts : List Contact} {e : Error}
    (h : Course connector args all candidates world contacts (.error e) world')
    (hkind : e.kind = .notValid) :
    ∃ passed, FaultBehind connector args passed candidates world ∧
      contacts.filterMap Contact.call? =
        List.replicate passed.length (.get, versionRequest) := by
  -- The outcome is a variable, so that the induction on the course may keep it.
  generalize houtcome : Except.error e = outcome at h
  induction h with
  | exhausted =>
    obtain rfl := Except.error.inj houtcome
    cases hkind
  | @ended candidate rest world _ _ _ htrial =>
    rw [← houtcome] at htrial
    obtain ⟨hfault, hcalls⟩ := htrial.atFault hkind
    exact ⟨[], ⟨candidate, rest, world, rfl, .done, hfault⟩, hcalls⟩
  | @wentOn candidate _ _ _ _ _ _ _ htrial _ ih =>
    obtain ⟨passed, ⟨culprit, rest, world₁, rfl, hpassed, hfault⟩, hcalls⟩ := ih houtcome
    refine ⟨candidate :: passed, ⟨culprit, rest, world₁, rfl, .more htrial hpassed, hfault⟩, ?_⟩
    rw [List.filterMap_append, htrial.calls_of_goesOn, hcalls]
    rfl

variable (all) in
/-- A fault behind candidates that are passed over ends the course as not valid, after one call for
each of these. -/
theorem FaultBehind.exists_course {passed candidates : List String} {world : σ}
    (h : FaultBehind connector args passed candidates world) :
    ∃ contacts e world', Course connector args all candidates world contacts (.error e) world' ∧
      e.kind = .notValid ∧ contacts.filterMap Contact.call? =
        List.replicate passed.length (.get, versionRequest) := by
  obtain ⟨culprit, rest, world₁, rfl, hchain, hfault⟩ := h
  obtain ⟨_, e, world', htrial, hkind, hnone⟩ := hfault.exists_trial
  have hlast : Course connector args all (culprit :: rest) world₁ _ (.error e) world' :=
    .ended htrial
  obtain ⟨contacts, hcourse, hcalls⟩ := hchain.course_append hlast
  refine ⟨contacts, e, world', hcourse, hkind, ?_⟩
  rw [hcalls, hnone, List.append_nil]

end

namespace Operation

private theorem exists_faultBehind {connector : Connector σ} {versions : List String}
    {args : ControllerArgs} {run : Run σ} {e : Error}
    (herror : ((negotiation connector versions args).error? run).1 = some e)
    (hkind : e.kind = .notValid) :
    ∃ passed, FaultBehind connector args passed versions run.world ∧
      ((negotiation connector versions args).error? run).2.calls =
        run.calls ++ List.replicate passed.length (.get, versionRequest) := by
  obtain ⟨contacts, hcourse, hcontacts⟩ :=
    Session.exists_course connector args versions versions run
  have houtcome : (Session.tryAll connector args versions versions run).1 = .error e :=
    errorOf_eq_some.mp herror
  rw [houtcome] at hcourse
  obtain ⟨passed, hfault, hcalls⟩ := hcourse.exists_faultBehind hkind
  refine ⟨passed, hfault, ?_⟩
  have hshown := Run.calls_of_contacts hcontacts
  rw [hcalls] at hshown
  exact hshown

private theorem error?_of_faultBehind {connector : Connector σ} {versions passed : List String}
    {args : ControllerArgs} {run : Run σ}
    (h : FaultBehind connector args passed versions run.world) :
    ∃ e, ((negotiation connector versions args).error? run).1 = some e ∧ e.kind = .notValid ∧
      ((negotiation connector versions args).error? run).2.calls =
        run.calls ++ List.replicate passed.length (.get, versionRequest) := by
  obtain ⟨contacts, e, world', hcourse, hkind, hcalls⟩ := h.exists_course versions
  obtain ⟨houtcome, -, hcontacts⟩ := Session.tryAll_of_course hcourse
  have hshown := Run.calls_of_contacts hcontacts
  rw [hcalls] at hshown
  exact ⟨e, congrArg errorOf houtcome, hkind, hshown⟩

private theorem error?_of_refused {connector : ClientSettings → Connector σ}
    {config : ControllerConfig} {refusal : ConfigError} (h : config.toArgs = .error refusal)
    (run : Run σ) :
    (configured connector config).error? run = (some refusal.toError, run) := by
  simp only [error?, Session.ofConfig, h]
  rfl

private theorem error?_configured {connector : ClientSettings → Connector σ}
    {config : ControllerConfig} {args : ControllerArgs} (h : config.toArgs = .ok args) :
    (configured connector config).error? =
      (negotiation (connector config.clientSettings) config.supportedVersions args).error? := by
  simp only [error?, Session.ofConfig, h]

end Operation

/-! ## Steps -/

namespace Step

private theorem error?_ofCall {α : Type} (yields : α → Yield) (x : Except CallError α) :
    (errorOf (ofCall yields x)).bind StepError.error? = none := by
  cases x <;> rfl

private theorem error?_ofError {α : Type} (yields : α → Yield) (x : Except Error α) :
    (errorOf (ofError yields x)).bind StepError.error? = errorOf x := by
  cases x <;> rfl

private theorem kind_of_mapError {α : Type} {f : CallError → Error}
    (hf : ∀ call, (f call).kind ≠ .notValid) {x : Except CallError α} {e : Error}
    (h : errorOf (x.mapError f) = some e) :
    e.kind ≠ .notValid := by
  cases x with
  | ok a => cases h
  | error call =>
    rw [← Option.some.inj h]
    exact hf call

private theorem kind_of_listed {context : String} {x : Except CallError Json.Value} {e : Error}
    (h : errorOf ((x.mapError Error.ofUnexpected).bind (Session.itemsOf context)) = some e) :
    e.kind ≠ .notValid := by
  cases x with
  | error call =>
    obtain rfl := Option.some.inj h
    exact nofun
  | ok v =>
    cases v with
    | array items => cases h
    | _ =>
      obtain rfl := Option.some.inj h
      exact nofun

private theorem kind_of_outcome (step : Step) {method : Method} {request : Request}
    {answer : Except TransportError Bytes} {e : Error}
    (h : (errorOf (step.outcome method request answer)).bind StepError.error? = some e) :
    e.kind ≠ .notValid := by
  cases step with
  | get _ | getQuery _ _ | getOp _ _ | post _ _ _ | postFile _ _ _ _ | delete _ =>
    simp only [outcome, error?_ofCall] at h
    cases h
  | bootResources | fabrics | spaces | zones | devices _ | machines _ | files _ =>
    simp only [outcome, listed, error?_ofError] at h
    exact kind_of_listed h
  | createDevice _ | allocateMachine _ | releaseMachines _ | getFile _ | addFile _ =>
    simp only [outcome, error?_ofError] at h
    exact kind_of_mapError (OperationClass.kind_translate_ne_notValid _) h
  | deleteFile _ =>
    simp only [outcome, error?_ofError] at h
    exact kind_of_mapError (f := Error.ofUnexpected) (fun _ ↦ nofun) h

end Step

namespace Operation

private theorem calls_within {session : Session σ} {step : Step} {run : Run σ} {e : Error}
    (herror : ((within session step).error? run).1 = some e) (hkind : e.kind = .notValid) :
    ((within session step).error? run).2.calls = run.calls := by
  cases hplan : step.plan with
  | error e' => rw [error?, Action.map_apply, step.perform_of_refused session hplan]
  | ok call =>
    rw [error?, Action.map_apply, step.perform_of_planned session hplan] at herror
    exact absurd hkind (step.kind_of_outcome herror)

/-- An operation that ends as not valid has made no call, or is a negotiation that met a candidate
at fault behind others, at one call for each of these. -/
theorem calls_of_notValid {op : Operation σ} {run : Run σ} {e : Error}
    (herror : (op.error? run).1 = some e) (hkind : e.kind = .notValid) :
    (op.error? run).2.calls = run.calls ∨
      ∃ passed, op.HasFaultBehind passed run.world ∧ (op.error? run).2.calls =
        run.calls ++ List.replicate passed.length (.get, versionRequest) := by
  cases op with
  | negotiation connector versions args => exact .inr (exists_faultBehind herror hkind)
  | configured connector config =>
    cases hargs : config.toArgs with
    | error refusal =>
      rw [error?_of_refused hargs]
      exact .inl rfl
    | ok args =>
      rw [error?_configured hargs] at herror ⊢
      obtain ⟨passed, hfault, hcalls⟩ := exists_faultBehind herror hkind
      exact .inr ⟨passed, ⟨args, hargs, hfault⟩, hcalls⟩
  | within session step => exact .inl (calls_within herror hkind)

private theorem HasFaultBehind.exists_error {op : Operation σ} {passed : List String} {run : Run σ}
    (h : op.HasFaultBehind passed run.world) :
    ∃ e, (op.error? run).1 = some e ∧ e.kind = .notValid ∧ (op.error? run).2.calls =
      run.calls ++ List.replicate passed.length (.get, versionRequest) := by
  cases op with
  | negotiation connector versions args => exact error?_of_faultBehind h
  | configured connector config =>
    obtain ⟨args, hargs, hfault⟩ := h
    rw [error?_configured hargs]
    exact error?_of_faultBehind hfault
  | within session step => exact h.elim

/-- An operation refuses locally unless it is a negotiation with a late fault. Whenever it ends as
not valid, it has made no call, or one for each candidate that was passed over in front of the one
at fault. -/
theorem refusesLocally_iff (op : Operation σ) (run : Run σ) :
    (op.RefusesLocally run ↔ ¬ op.HasLateFault run.world) ∧
    ∀ e, (op.error? run).1 = some e → e.kind = .notValid →
      (op.error? run).2.calls = run.calls ∨
        ∃ passed, passed ≠ [] ∧ op.HasFaultBehind passed run.world ∧ (op.error? run).2.calls =
          run.calls ++ List.replicate passed.length (.get, versionRequest) := by
  have hsplit : ∀ e, (op.error? run).1 = some e → e.kind = .notValid →
      (op.error? run).2.calls = run.calls ∨
        ∃ passed, passed ≠ [] ∧ op.HasFaultBehind passed run.world ∧ (op.error? run).2.calls =
          run.calls ++ List.replicate passed.length (.get, versionRequest) := by
    intro e herror hkind
    obtain hnone | ⟨passed, hfault, hcalls⟩ := calls_of_notValid herror hkind
    · exact .inl hnone
    · by_cases hpassed : passed = []
      · rw [hpassed] at hcalls
        exact .inl (hcalls.trans (List.append_nil _))
      · exact .inr ⟨passed, hpassed, hfault, hcalls⟩
  refine ⟨⟨?_, ?_⟩, hsplit⟩
  · rintro hlaw ⟨passed, hpassed, hfault⟩
    obtain ⟨e, herror, hkind, hcalls⟩ := hfault.exists_error
    have hnone := List.append_right_eq_self.mp (hcalls.symm.trans (hlaw e herror hkind))
    have hlength := congrArg List.length hnone
    rw [List.length_replicate] at hlength
    exact hpassed (List.length_eq_zero_iff.mp hlength)
  · intro hearly e herror hkind
    obtain hnone | ⟨passed, hpassed, hfault, -⟩ := hsplit e herror hkind
    · exact hnone
    · exact absurd ⟨passed, hpassed, hfault⟩ hearly

/-- A candidate that is malformed may come behind one that was asked for. -/
theorem not_refusesLocally_malformed :
    ¬ (negotiation Script.connector ["2.0", "two"]
        ⟨"http://maas.example.com/MAAS/", "a:b:c"⟩).RefusesLocally
      { world := { answers := [.error (.server ⟨404⟩ "Not Found")] } } := by
  intro hlaw
  have hcalls := hlaw (.notValid "invalid protocol version \"two\"") (by decide +kernel) rfl
  revert hcalls
  decide +kernel

end Operation

end RegionClient

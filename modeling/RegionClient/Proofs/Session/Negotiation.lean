import RegionClient.Proofs.Session.Journal
import RegionClient.Proofs.Session.VersionDocument

/-!
# The course of a negotiation

What a negotiation does, told by rules: `Trial` has one rule for each end that trying a candidate
can have, and `Course` walks through the candidates. Main statement: negotiating has exactly the
outcome, the contacts and the effect on the world that the rules give (`negotiate_iff`).
-/

namespace RegionClient

/-- The request for a version document. -/
def versionRequest : Request := { path := "version/" }

/-- The request that asks who the key belongs to. -/
def identityRequest : Request := { path := "users/", op := some "whoami" }

/-- An answer brings a document that lists names. -/
def Lists (answer : Except TransportError Bytes) (names : List String) : Prop :=
  ∃ body document, answer = .ok body ∧ Json.Value.parse body = .ok document ∧
    ListsNames document names

/-- An answer brings no value: the exchange failed, or the body is not JSON. -/
inductive Fails : Except TransportError Bytes → CallFailure → Prop
  | exchange (e : TransportError) : Fails (.error e) (.transport e)
  | notJson {body : Bytes} {e : Json.Error} (h : Json.Value.parse body = .error e) :
      Fails (.ok body) (.decode e.message)

/-- The failed call for the identity. -/
def identityFailure (failure : CallFailure) : CallError :=
  { method := "GET", path := "users/", op := some "whoami", failure }

/-- What an answer to the request for the identity means. -/
inductive Identity : Except TransportError Bytes → Except Error Unit → Prop
  | known {body : Bytes} {v : Json.Value} (h : Json.Value.parse body = .ok v) :
      Identity (.ok body) (.ok ())
  | denied (text : String) :
      Identity (.error (.server ⟨401⟩ text))
        (.error (.permissionDenied text
          (some (identityFailure (.transport (.server ⟨401⟩ text))))))
  | failed {answer : Except TransportError Bytes} {failure : CallFailure}
      (h : Fails answer failure) (hstatus : failure.status? ≠ some ⟨401⟩) :
      Identity answer
        (.error (.unexpected (identityFailure failure).describe (some (identityFailure failure))))

/-- What follows from trying a candidate: an end, or the next candidate. -/
inductive Verdict (σ : Type) where
  | ends (outcome : Except Error (Session σ))
  | goesOn

section

variable {σ : Type} (connector : Connector σ) (args : ControllerArgs)

/-- How trying a candidate goes: the contacts, the verdict and the world behind it. -/
inductive Trial (candidate : String) : σ → List Contact → Verdict σ → σ → Prop
  | malformed {world : σ} (hv : Version.parse? candidate = none) :
      Trial candidate world []
        (.ends (.error (.notValid ("invalid protocol version " ++ Text.quote candidate)))) world
  | keyRefused {world world' : σ} {version : Version} {log : List LogEvent} {message : String}
      (hv : Version.parse? candidate = some version)
      (ho : connector args.baseUrl args.apiKey version world =
        (⟨.error (.invalidCredentials message), log⟩, world')) :
      Trial candidate world [.opened args.baseUrl args.apiKey version]
        (.ends (.error (.notValid message))) world'
  | notOpened {world world' : σ} {version : Version} {log : List LogEvent} {e : TransportError}
      (hv : Version.parse? candidate = some version)
      (ho : connector args.baseUrl args.apiKey version world = (⟨.error e, log⟩, world'))
      (he : ∀ message, e ≠ .invalidCredentials message) :
      Trial candidate world [.opened args.baseUrl args.apiKey version]
        (.ends (.error (.transport ("connecting to API " ++ version.toText) e))) world'
  | passedOver {world world₁ world₂ : σ} {version : Version} {log : List LogEvent}
      {channel : Channel σ} {document : Except TransportError Bytes}
      (hv : Version.parse? candidate = some version)
      (ho : connector args.baseUrl args.apiKey version world = (⟨.ok channel, log⟩, world₁))
      (hd : channel .get versionRequest world₁ = (document, world₂))
      (hl : ∀ names, ¬ Lists document names) :
      Trial candidate world
        [.opened args.baseUrl args.apiKey version, .called .get versionRequest] .goesOn world₂
  | accepted {world world₁ world₂ world₃ : σ} {version : Version} {log : List LogEvent}
      {channel : Channel σ} {document identity : Except TransportError Bytes}
      {names : List String}
      (hv : Version.parse? candidate = some version)
      (ho : connector args.baseUrl args.apiKey version world = (⟨.ok channel, log⟩, world₁))
      (hd : channel .get versionRequest world₁ = (document, world₂))
      (hl : Lists document names)
      (hi : channel .get identityRequest world₂ = (identity, world₃))
      (hk : Identity identity (.ok ())) :
      Trial candidate world
        [.opened args.baseUrl args.apiKey version, .called .get versionRequest,
          .called .get identityRequest]
        (.ends (.ok ⟨channel, args.baseUrl, version, .ofList names⟩)) world₃
  | unidentified {world world₁ world₂ world₃ : σ} {version : Version} {log : List LogEvent}
      {channel : Channel σ} {document identity : Except TransportError Bytes}
      {names : List String} {e : Error}
      (hv : Version.parse? candidate = some version)
      (ho : connector args.baseUrl args.apiKey version world = (⟨.ok channel, log⟩, world₁))
      (hd : channel .get versionRequest world₁ = (document, world₂))
      (hl : Lists document names)
      (hi : channel .get identityRequest world₂ = (identity, world₃))
      (hk : Identity identity (.error e)) :
      Trial candidate world
        [.opened args.baseUrl args.apiKey version, .called .get versionRequest,
          .called .get identityRequest] (.ends (.error e)) world₃

/-- How trying candidates one after the other goes. The error when there is none left names the
base URL and all candidates. -/
inductive Course (all : List String) :
    (candidates : List String) → σ → List Contact → Except Error (Session σ) → σ → Prop
  | exhausted {world : σ} :
      Course all [] world []
        (.error (.unsupportedVersion ("controller at " ++ args.baseUrl ++
          " does not support any of [" ++ ", ".intercalate all ++ "]"))) world
  | ended {candidate : String} {rest : List String} {world world' : σ} {contacts : List Contact}
      {outcome : Except Error (Session σ)}
      (h : Trial connector args candidate world contacts (.ends outcome) world') :
      Course all (candidate :: rest) world contacts outcome world'
  | wentOn {candidate : String} {rest : List String} {world world₁ world₂ : σ}
      {contacts contacts' : List Contact} {outcome : Except Error (Session σ)}
      (h : Trial connector args candidate world contacts .goesOn world₁)
      (hrest : Course all rest world₁ contacts' outcome world₂) :
      Course all (candidate :: rest) world (contacts ++ contacts') outcome world₂

end

/-! ## Single answers -/

private theorem ofPath_version : Request.ofPath "version" = versionRequest := rfl

private theorem withOp_whoami :
    (Request.ofPath "users").withOp "whoami" = identityRequest := by decide

private theorem Fails.unique {answer : Except TransportError Bytes} {failure failure' : CallFailure}
    (h : Fails answer failure) (h' : Fails answer failure') : failure = failure' := by
  cases h with
  | exchange e =>
    cases h'
    rfl
  | notJson hparse =>
    cases h' with
    | notJson hparse' =>
      rw [hparse] at hparse'
      rw [Except.error.inj hparse']

private theorem Identity.unique {answer : Except TransportError Bytes} {r r' : Except Error Unit}
    (h : Identity answer r) (h' : Identity answer r') : r = r' := by
  cases h with
  | known hparse =>
    cases h' with
    | known _ => rfl
    | failed hfails _ =>
      cases hfails with
      | notJson hparse' => simp [hparse] at hparse'
  | denied text =>
    cases h' with
    | denied _ => rfl
    | failed hfails hstatus =>
      cases hfails
      exact absurd rfl hstatus
  | failed hfails hstatus =>
    cases h' with
    | known hparse =>
      cases hfails with
      | notJson hparse' => simp [hparse] at hparse'
    | denied _ =>
      cases hfails
      exact absurd rfl hstatus
    | failed hfails' _ => rw [hfails.unique hfails']

private theorem translate_credentialCheck {call : CallError} (h : call.status? ≠ some ⟨401⟩) :
    OperationClass.credentialCheck.translate call =
      .unexpected call.describe (some call) := by
  unfold OperationClass.translate
  split
  · next status hstatus =>
    have hne : (status == ⟨401⟩) = false := by
      apply beq_eq_false_iff_ne.mpr
      rintro rfl
      exact h hstatus
    have hclass : OperationClass.credentialCheck.classify status = .unexpected := by
      simp [OperationClass.classify, OperationClass.rules, List.lookup_cons, hne]
    rw [hclass]
    rfl
  · rfl

namespace Session

variable {σ : Type} (s : Session σ)

private theorem readCapabilities_snd (run : Run σ) :
    (s.readCapabilities run).2 = s.afterCall .get versionRequest run := by
  rw [readCapabilities, Action.bind_apply, get, callJson_apply, ofPath_version]
  dsimp only
  cases valueOf .get versionRequest (s.channel .get versionRequest run.world).1 <;> rfl

/-- Capabilities are read if the answer lists names. -/
theorem readCapabilities_fst_eq_ok_iff {run : Run σ} {c : Capabilities} :
    (s.readCapabilities run).1 = .ok c ↔
      ∃ names, Lists (s.channel .get versionRequest run.world).1 names ∧ c = .ofList names := by
  rw [readCapabilities, Action.bind_apply, get, callJson_apply, ofPath_version]
  dsimp only
  cases hanswer : (s.channel .get versionRequest run.world).1 with
  | error e => simp [valueOf_error, Lists]
  | ok body =>
    cases hparse : Json.Value.parse body with
    | error e => simp [valueOf_notJson hparse, Lists, hparse]
    | ok document =>
      simp only [valueOf_ok hparse, Action.pure_apply, capabilitiesOf_eq_ok_iff, Lists,
        Except.ok.injEq]
      constructor
      · rintro ⟨names, hnames, rfl⟩
        exact ⟨names, ⟨body, document, rfl, hparse, hnames⟩, rfl⟩
      · rintro ⟨names, ⟨body', document', rfl, hparse', hnames⟩, rfl⟩
        rw [hparse] at hparse'
        obtain rfl := Except.ok.inj hparse'
        exact ⟨names, hnames, rfl⟩

private theorem checkCredentials_snd (run : Run σ) :
    (s.checkCredentials run).2 = s.afterCall .get identityRequest run := by
  rw [checkCredentials, Action.bind_apply, getOp, callJson_apply, withOp_whoami]
  dsimp only
  cases valueOf .get identityRequest (s.channel .get identityRequest run.world).1 <;> rfl

private theorem identity_checkCredentials (run : Run σ) :
    Identity (s.channel .get identityRequest run.world).1 (s.checkCredentials run).1 := by
  rw [checkCredentials, Action.bind_apply, getOp, callJson_apply, withOp_whoami]
  dsimp only
  cases (s.channel .get identityRequest run.world).1 with
  | error e =>
    by_cases hstatus : e.status? = some ⟨401⟩
    · cases e with
      | server status text =>
        obtain rfl := Option.some.inj hstatus
        exact .denied text
      | _ => simp [TransportError.status?] at hstatus
    · have hcall : (identityFailure (.transport e)).status? ≠ some ⟨401⟩ := hstatus
      have hfailed := Identity.failed (.exchange e) hstatus
      rw [← translate_credentialCheck hcall] at hfailed
      exact hfailed
  | ok body =>
    cases hparse : Json.Value.parse body with
    | error e =>
      have hcall : (identityFailure (.decode e.message)).status? ≠ some ⟨401⟩ := by
        intro hstatus
        cases hstatus
      have hfailed := Identity.failed (.notJson hparse) hcall
      rw [← translate_credentialCheck hcall] at hfailed
      rw [valueOf_notJson hparse]
      exact hfailed
    | ok v =>
      rw [valueOf_ok hparse]
      exact .known hparse

/-! ## Single candidates -/

variable (channel : Channel σ) (baseUrl : String) (version : Version)

private theorem tryChannel_of_not_lists {run : Run σ}
    (hl : ∀ names, ¬ Lists (channel .get versionRequest run.world).1 names) :
    ∃ e, tryChannel channel baseUrl version run =
      (.passedOver e, afterCall ⟨channel, baseUrl, version, .empty⟩ .get versionRequest run) := by
  rw [tryChannel, Action.bind_apply, readCapabilities_snd]
  cases hread : (readCapabilities ⟨channel, baseUrl, version, .empty⟩ run).1 with
  | error e => exact ⟨e, rfl⟩
  | ok c =>
    obtain ⟨names, hnames, -⟩ := (readCapabilities_fst_eq_ok_iff _).mp hread
    exact absurd hnames (hl names)

/-- The attempt that the check of the credentials decides. -/
def decided (session : Session σ) : Except Error Unit → Attempt σ
  | .ok () => .accepted session
  | .error e => .aborted e

/-- With a list of names, the identity decides after a second call. -/
theorem tryChannel_of_lists {run : Run σ} {names : List String}
    (hl : Lists (channel .get versionRequest run.world).1 names) :
    let first := afterCall ⟨channel, baseUrl, version, .empty⟩ .get versionRequest run
    let session : Session σ := ⟨channel, baseUrl, version, .ofList names⟩
    ∃ r, Identity (channel .get identityRequest first.world).1 r ∧
      tryChannel channel baseUrl version run =
        (session.decided r, session.afterCall .get identityRequest first) := by
  intro first session
  have hread : (readCapabilities ⟨channel, baseUrl, version, .empty⟩ run).1 = .ok (.ofList names) :=
    (readCapabilities_fst_eq_ok_iff _).mpr ⟨names, hl, rfl⟩
  refine ⟨(session.checkCredentials first).1, session.identity_checkCredentials first, ?_⟩
  rw [tryChannel, Action.bind_apply, hread, readCapabilities_snd]
  dsimp only
  rw [Action.bind_apply, checkCredentials_snd]
  cases (session.checkCredentials first).1 <;> rfl

end Session

/-- What follows from an attempt. -/
def Attempt.verdict {σ : Type} : Attempt σ → Verdict σ
  | accepted session => .ends (.ok session)
  | passedOver _ => .goesOn
  | aborted e => .ends (.error e)

namespace Session

variable {σ : Type} {connector : Connector σ} {args : ControllerArgs}

private theorem world_afterOpening_of_eq {version : Version} {opening : Opening σ} {world : σ}
    {run : Run σ} (ho : connector args.baseUrl args.apiKey version run.world = (opening, world)) :
    (Action.afterOpening connector args.baseUrl args.apiKey version run).world = world := by
  rw [Action.world_afterOpening, ho]

private theorem attempt_of_malformed {candidate : String} (hv : Version.parse? candidate = none)
    (run : Run σ) :
    attempt connector args candidate run =
      (.aborted (.notValid ("invalid protocol version " ++ Text.quote candidate)), run) := by
  rw [attempt, Version.parse, hv]
  rfl

private theorem attempt_of_not_opened {candidate : String} {version : Version} {e : TransportError}
    {run : Run σ} (hv : Version.parse? candidate = some version)
    (ho : (connector args.baseUrl args.apiKey version run.world).1.channel = .error e) :
    attempt connector args candidate run =
      (.aborted (openingError version e),
        Action.afterOpening connector args.baseUrl args.apiKey version run) := by
  rw [attempt, Version.parse, hv]
  dsimp only
  rw [Action.bind_apply, Action.openChannel_apply, ho]
  rfl

private theorem attempt_of_opened {candidate : String} {version : Version} {channel : Channel σ}
    {run : Run σ} (hv : Version.parse? candidate = some version)
    (ho : (connector args.baseUrl args.apiKey version run.world).1.channel = .ok channel) :
    attempt connector args candidate run =
      tryChannel channel args.baseUrl version
        (Action.afterOpening connector args.baseUrl args.apiKey version run) := by
  rw [attempt, Version.parse, hv]
  dsimp only
  rw [Action.bind_apply, Action.openChannel_apply, ho]

private theorem exists_trial_of_opened {candidate : String} {version : Version}
    {channel : Channel σ} {log : List LogEvent} {world : σ} {run : Run σ}
    (hv : Version.parse? candidate = some version)
    (ho : connector args.baseUrl args.apiKey version world = (⟨.ok channel, log⟩, run.world)) :
    ∃ contacts, Trial connector args candidate world
        (.opened args.baseUrl args.apiKey version :: contacts)
        (tryChannel channel args.baseUrl version run).1.verdict
        (tryChannel channel args.baseUrl version run).2.world ∧
      (tryChannel channel args.baseUrl version run).2.contacts = run.contacts ++ contacts := by
  by_cases hl : ∃ names, Lists (channel .get versionRequest run.world).1 names
  · obtain ⟨names, hl⟩ := hl
    obtain ⟨r, hk, htried⟩ := tryChannel_of_lists channel args.baseUrl version hl
    rw [htried, world_afterCall, contacts_afterCall, contacts_afterCall, List.append_assoc]
    refine ⟨_, ?_, rfl⟩
    cases r with
    | ok u => exact .accepted hv ho rfl hl rfl hk
    | error e => exact .unidentified hv ho rfl hl rfl hk
  · obtain ⟨e, htried⟩ :=
      tryChannel_of_not_lists channel args.baseUrl version (not_exists.mp hl)
    rw [htried, world_afterCall, contacts_afterCall]
    exact ⟨_, .passedOver hv ho rfl (not_exists.mp hl), rfl⟩

variable (connector args) in
/-- Every attempt goes by a rule. -/
theorem exists_trial (candidate : String) (run : Run σ) :
    ∃ contacts, Trial connector args candidate run.world contacts
        (attempt connector args candidate run).1.verdict
        (attempt connector args candidate run).2.world ∧
      (attempt connector args candidate run).2.contacts = run.contacts ++ contacts := by
  cases hv : Version.parse? candidate with
  | none =>
    rw [attempt_of_malformed hv]
    exact ⟨[], .malformed hv, (List.append_nil _).symm⟩
  | some version =>
    obtain ⟨⟨⟨opened, log⟩, world⟩, ho⟩ :
        ∃ r, connector args.baseUrl args.apiKey version run.world = r := ⟨_, rfl⟩
    have hopened : (connector args.baseUrl args.apiKey version run.world).1.channel = opened := by
      rw [ho]
    have hworld := world_afterOpening_of_eq ho
    cases opened with
    | error e =>
      rw [attempt_of_not_opened hv hopened, hworld, Action.contacts_afterOpening]
      refine ⟨_, ?_, rfl⟩
      cases e with
      | invalidCredentials message => exact .keyRefused hv ho
      | _ => exact .notOpened hv ho nofun
    | ok channel =>
      rw [← hworld] at ho
      obtain ⟨contacts, htrial, hcontacts⟩ := exists_trial_of_opened hv ho
      rw [attempt_of_opened hv hopened]
      refine ⟨_, htrial, ?_⟩
      rw [hcontacts, Action.contacts_afterOpening, List.append_assoc]
      rfl

private theorem attempt_of_lists {candidate : String} {version : Version} {channel : Channel σ}
    {log : List LogEvent} {world₁ world₂ world₃ : σ} {run : Run σ}
    {document identity : Except TransportError Bytes} {names : List String}
    {r : Except Error Unit} (hv : Version.parse? candidate = some version)
    (ho : connector args.baseUrl args.apiKey version run.world = (⟨.ok channel, log⟩, world₁))
    (hd : channel .get versionRequest world₁ = (document, world₂)) (hl : Lists document names)
    (hi : channel .get identityRequest world₂ = (identity, world₃)) (hk : Identity identity r) :
    (attempt connector args candidate run).1 =
        decided ⟨channel, args.baseUrl, version, .ofList names⟩ r ∧
      (attempt connector args candidate run).2.world = world₃ ∧
      (attempt connector args candidate run).2.contacts = run.contacts ++
        [.opened args.baseUrl args.apiKey version, .called .get versionRequest,
          .called .get identityRequest] := by
  have hopened : (connector args.baseUrl args.apiKey version run.world).1.channel =
      .ok channel := by rw [ho]
  have hworld := world_afterOpening_of_eq ho
  have hlists : Lists (channel .get versionRequest
      (Action.afterOpening connector args.baseUrl args.apiKey version run).world).1 names := by
    rw [hworld, hd]
    exact hl
  obtain ⟨r', hk', htried⟩ := tryChannel_of_lists channel args.baseUrl version hlists
  rw [world_afterCall, hworld] at hk'
  dsimp only at hk'
  rw [hd, hi] at hk'
  obtain rfl := hk.unique hk'
  rw [attempt_of_opened hv hopened, htried, world_afterCall, world_afterCall, hworld,
    contacts_afterCall, contacts_afterCall, Action.contacts_afterOpening]
  dsimp only
  rw [hd, hi, List.append_assoc, List.append_assoc]
  exact ⟨rfl, rfl, rfl⟩

/-- An attempt goes by one rule only. -/
theorem attempt_of_trial {candidate : String} {run : Run σ} {contacts : List Contact}
    {verdict : Verdict σ} {world : σ}
    (h : Trial connector args candidate run.world contacts verdict world) :
    (attempt connector args candidate run).1.verdict = verdict ∧
      (attempt connector args candidate run).2.world = world ∧
      (attempt connector args candidate run).2.contacts = run.contacts ++ contacts := by
  cases h with
  | malformed hv =>
    rw [attempt_of_malformed hv]
    exact ⟨rfl, rfl, (List.append_nil _).symm⟩
  | keyRefused hv ho =>
    rw [attempt_of_not_opened hv (congrArg (·.1.channel) ho), Action.world_afterOpening,
      Action.contacts_afterOpening, ho]
    exact ⟨rfl, rfl, rfl⟩
  | @notOpened _ _ _ e hv ho he =>
    rw [attempt_of_not_opened hv (congrArg (·.1.channel) ho), Action.world_afterOpening,
      Action.contacts_afterOpening, ho]
    refine ⟨?_, rfl, rfl⟩
    cases e with
    | invalidCredentials message => exact absurd rfl (he message)
    | _ => rfl
  | @passedOver _ _ version _ channel _ hv ho hd hl =>
    rw [← world_afterOpening_of_eq ho] at hd
    have hno : ∀ names, ¬ Lists (channel .get versionRequest
        (Action.afterOpening connector args.baseUrl args.apiKey version run).world).1 names := by
      rw [hd]
      exact hl
    obtain ⟨e, htried⟩ := tryChannel_of_not_lists channel args.baseUrl version hno
    rw [attempt_of_opened hv (congrArg (·.1.channel) ho), htried, world_afterCall,
      contacts_afterCall, Action.contacts_afterOpening, List.append_assoc]
    exact ⟨rfl, congrArg Prod.snd hd, rfl⟩
  | accepted hv ho hd hl hi hk =>
    obtain ⟨hattempt, hworld, hcontacts⟩ := attempt_of_lists hv ho hd hl hi hk
    rw [hattempt]
    exact ⟨rfl, hworld, hcontacts⟩
  | unidentified hv ho hd hl hi hk =>
    obtain ⟨hattempt, hworld, hcontacts⟩ := attempt_of_lists hv ho hd hl hi hk
    rw [hattempt]
    exact ⟨rfl, hworld, hcontacts⟩

/-! ## Walking through candidates -/

variable {all : List String}

variable (all) in
/-- An attempt that ends ends the walk. -/
theorem tryAll_of_ends (rest : List String) {candidate : String} {run : Run σ}
    {outcome : Except Error (Session σ)}
    (h : (attempt connector args candidate run).1.verdict = .ends outcome) :
    (tryAll connector args all (candidate :: rest) run).1 = outcome ∧
      (tryAll connector args all (candidate :: rest) run).2.world =
        (attempt connector args candidate run).2.world ∧
      (tryAll connector args all (candidate :: rest) run).2.contacts =
        (attempt connector args candidate run).2.contacts := by
  rw [tryAll, Action.bind_apply]
  cases hattempt : (attempt connector args candidate run).1 with
  | accepted session =>
    rw [hattempt] at h
    refine ⟨Verdict.ends.inj h, rfl, ?_⟩
    exact (Run.contacts_recorded _ _).trans (List.append_nil _)
  | passedOver e =>
    rw [hattempt] at h
    cases h
  | aborted e =>
    rw [hattempt] at h
    exact ⟨Verdict.ends.inj h, rfl, rfl⟩

variable (all) in
/-- An attempt that goes on is logged, and the walk goes on. -/
theorem tryAll_of_goesOn (rest : List String) {candidate : String} {run : Run σ}
    (h : (attempt connector args candidate run).1.verdict = .goesOn) :
    ∃ event, tryAll connector args all (candidate :: rest) run =
      tryAll connector args all rest
        ((attempt connector args candidate run).2.recorded [.logged event]) := by
  rw [tryAll, Action.bind_apply]
  cases hattempt : (attempt connector args candidate run).1 with
  | accepted session =>
    rw [hattempt] at h
    cases h
  | passedOver e => exact ⟨_, rfl⟩
  | aborted e =>
    rw [hattempt] at h
    cases h

variable (connector args all) in
/-- Every walk goes by the rules. -/
theorem exists_course (candidates : List String) (run : Run σ) :
    ∃ contacts, Course connector args all candidates run.world contacts
        (tryAll connector args all candidates run).1
        (tryAll connector args all candidates run).2.world ∧
      (tryAll connector args all candidates run).2.contacts = run.contacts ++ contacts := by
  induction candidates generalizing run with
  | nil => exact ⟨[], .exhausted, (List.append_nil _).symm⟩
  | cons candidate rest ih =>
    obtain ⟨contacts, htrial, hcontacts⟩ := exists_trial connector args candidate run
    cases hverdict : (attempt connector args candidate run).1.verdict with
    | ends outcome =>
      obtain ⟨houtcome, hworld, hshown⟩ := tryAll_of_ends all rest hverdict
      rw [hverdict] at htrial
      rw [houtcome, hworld, hshown]
      exact ⟨contacts, .ended htrial, hcontacts⟩
    | goesOn =>
      obtain ⟨event, hwalk⟩ := tryAll_of_goesOn all rest hverdict
      obtain ⟨contacts', hcourse, hcontacts'⟩ :=
        ih ((attempt connector args candidate run).2.recorded [.logged event])
      rw [hverdict] at htrial
      rw [hwalk]
      -- What is logged about the candidate is no contact.
      refine ⟨contacts ++ contacts', .wentOn htrial hcourse, ?_⟩
      rw [hcontacts', Run.contacts_recorded, hcontacts, ← List.append_assoc]
      simp [Event.contact?]

/-- A walk goes by the rules in one way only. -/
theorem tryAll_of_course {candidates : List String} {run : Run σ} {contacts : List Contact}
    {outcome : Except Error (Session σ)} {world : σ}
    (h : Course connector args all candidates run.world contacts outcome world) :
    (tryAll connector args all candidates run).1 = outcome ∧
      (tryAll connector args all candidates run).2.world = world ∧
      (tryAll connector args all candidates run).2.contacts = run.contacts ++ contacts := by
  induction candidates generalizing run contacts with
  | nil =>
    cases h with
    | exhausted => exact ⟨rfl, rfl, (List.append_nil _).symm⟩
  | cons candidate rest ih =>
    cases h with
    | ended htrial =>
      obtain ⟨hverdict, hworld, hcontacts⟩ := attempt_of_trial htrial
      obtain ⟨houtcome, hworld', hshown⟩ := tryAll_of_ends all rest hverdict
      exact ⟨houtcome, hworld'.trans hworld, hshown.trans hcontacts⟩
    | wentOn htrial hcourse =>
      obtain ⟨hverdict, hworld, hcontacts⟩ := attempt_of_trial htrial
      obtain ⟨event, hwalk⟩ := tryAll_of_goesOn all rest hverdict
      rw [← hworld, ← Run.world_recorded _ [.logged event]] at hcourse
      obtain ⟨houtcome, hworld', hshown⟩ := ih hcourse
      rw [hwalk]
      refine ⟨houtcome, hworld', ?_⟩
      rw [hshown, Run.contacts_recorded, hcontacts, List.append_assoc, List.append_assoc]
      rfl

/-- Negotiating has exactly the outcome, the contacts and the effect on the world that the rules
give for its candidates. -/
theorem negotiate_iff (connector : Connector σ) (versions : List String) (args : ControllerArgs)
    (run : Run σ) (contacts : List Contact) (outcome : Except Error (Session σ)) (world : σ) :
    Course connector args versions versions run.world contacts outcome world ↔
      (negotiate connector versions args run).1 = outcome ∧
      (negotiate connector versions args run).2.world = world ∧
      (negotiate connector versions args run).2.contacts = run.contacts ++ contacts := by
  constructor
  · exact tryAll_of_course
  · rintro ⟨rfl, rfl, hcontacts⟩
    obtain ⟨contacts', hcourse, hcontacts'⟩ :=
      exists_course connector args versions versions run
    have hsame : contacts' = contacts := List.append_cancel_left (hcontacts'.symm.trans hcontacts)
    rw [← hsame]
    exact hcourse

end Session

end RegionClient

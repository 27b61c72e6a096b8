import Mathlib.Data.List.Nodup
import RegionClient.Session.Negotiation

/-!
# Sessions from configurations

What is checked of a configuration before a session is negotiated, and with what it is negotiated.
A configuration may come from anywhere: it is checked where it is used. `Breaks` says what can be
wrong with it, field by field. Main statement: a configuration is refused, and the run left as it
is, just if something is wrong with it or it has no key; otherwise its versions are negotiated
with its settings, which for a configuration that gives a base URL and a key only are those of a
session for these arguments (`ofConfig_negotiates`).
-/

namespace RegionClient

namespace ControllerConfig

variable {c : ControllerConfig} {issue : ConfigIssue}

/-- What can be wrong with a configuration: the base URL is none, there are no versions, or the
timeout is not between one second and 300. -/
inductive Breaks (c : ControllerConfig) : ConfigIssue → Prop
  | url (h : ∀ url, Url.parse c.baseUrl ≠ .ok url) : Breaks c (.url c.baseUrl)
  | noVersions (h : c.supportedVersions = []) : Breaks c .noVersions
  | timeoutRange (h : c.requestTimeout.toNat < 1 ∨ 300 < c.requestTimeout.toNat) :
    Breaks c (.timeoutRange c.requestTimeout)

/-- Nothing is wrong with a configuration. -/
def IsSound (c : ControllerConfig) : Prop := ∀ issue, ¬ c.Breaks issue

/-- A report names what is wrong with a configuration, and each field once. -/
structure Reports (c : ControllerConfig) (list : List ConfigIssue) : Prop where
  exact : ∀ issue, issue ∈ list ↔ c.Breaks issue
  once : (list.map ConfigIssue.field).Nodup

/-- Nothing is wrong with a configuration if all of its fields are as they should be. -/
theorem isSound_iff : c.IsSound ↔ (∃ url, Url.parse c.baseUrl = .ok url) ∧
    c.supportedVersions ≠ [] ∧ 1 ≤ c.requestTimeout.toNat ∧ c.requestTimeout.toNat ≤ 300 := by
  constructor
  · intro h
    refine ⟨?_, fun hnone ↦ h _ (.noVersions hnone), ?_, ?_⟩
    · by_contra hnone
      exact h _ (.url fun url hurl ↦ hnone ⟨url, hurl⟩)
    · by_contra hlow
      exact h _ (.timeoutRange (.inl (Nat.not_le.mp hlow)))
    · by_contra hhigh
      exact h _ (.timeoutRange (.inr (Nat.not_le.mp hhigh)))
  · rintro ⟨⟨url, hurl⟩, hversions, hlow, hhigh⟩ issue h
    cases h with
    | url h => exact h url hurl
    | noVersions h => exact hversions h
    | timeoutRange h => omega

/-! ## Checking -/

private theorem allowsTimeout_eq_false_iff (seconds : UInt64) :
    allowsTimeout seconds = false ↔ seconds.toNat < 1 ∨ 300 < seconds.toNat := by
  have hlow : (1 : UInt64).toNat = 1 := rfl
  have hhigh : (300 : UInt64).toNat = 300 := rfl
  simp only [allowsTimeout, Bool.and_eq_false_iff, decide_eq_false_iff_not, UInt64.le_iff_toNat_le,
    hlow, hhigh, Nat.not_le]

/-- The issues of a configuration are what is wrong with it. -/
theorem mem_issues_iff : issue ∈ c.issues ↔ c.Breaks issue := by
  unfold issues
  rw [List.mem_append, List.mem_append]
  constructor
  · rintro ((h | h) | h)
    · split at h
      · cases h
      · next hparse =>
        obtain rfl := List.mem_singleton.mp h
        refine .url fun url hurl ↦ ?_
        rw [hparse] at hurl
        cases hurl
    · split at h
      · next hempty =>
        obtain rfl := List.mem_singleton.mp h
        exact .noVersions (List.isEmpty_iff.mp hempty)
      · cases h
    · split at h
      · cases h
      · next hbounds =>
        obtain rfl := List.mem_singleton.mp h
        exact .timeoutRange
          ((allowsTimeout_eq_false_iff _).mp (Bool.not_eq_true _ ▸ hbounds))
  · intro h
    cases h with
    | url h =>
      left; left
      cases hparse : Url.parse c.baseUrl with
      | ok url => exact absurd hparse (h url)
      | error e => exact List.mem_singleton_self _
    | noVersions h =>
      left; right
      rw [h]
      exact List.mem_singleton_self _
    | timeoutRange h =>
      right
      rw [(allowsTimeout_eq_false_iff _).mpr h]
      exact List.mem_singleton_self _

private theorem reports_issues (c : ControllerConfig) : c.Reports c.issues where
  exact _ := mem_issues_iff
  once := by
    unfold issues
    cases Url.parse c.baseUrl <;> cases c.supportedVersions.isEmpty <;>
      cases allowsTimeout c.requestTimeout <;> simp [ConfigIssue.field]

/-- There are no issues with a configuration that nothing is wrong with. -/
theorem issues_eq_nil_iff : c.issues = [] ↔ c.IsSound := by
  rw [List.eq_nil_iff_forall_not_mem]
  exact forall_congr' fun issue ↦ not_congr mem_issues_iff

/-- A configuration passes if nothing is wrong with it. -/
theorem validate_of_isSound (h : c.IsSound) : c.validate = .ok () := by
  rw [validate, issues_eq_nil_iff.mpr h]
  rfl

/-- A configuration that something is wrong with is refused for all of it. -/
theorem validate_of_not_isSound (h : ¬ c.IsSound) : c.validate = .error (.issues c.issues) := by
  rw [validate, if_neg]
  simpa [issues_eq_nil_iff] using h

/-! ## Making and changing -/

private theorem isSound_baseUrl_iff (baseUrl : String) (apiKey : Option String) :
    IsSound { baseUrl, apiKey } ↔ ∃ url, Url.parse baseUrl = .ok url := by
  rw [isSound_iff]
  have hrest : Version.supported ≠ [] ∧ 1 ≤ (30 : UInt64).toNat ∧ (30 : UInt64).toNat ≤ 300 := by
    decide
  exact and_iff_left hrest

/-- A configuration can be made for a base URL if it is one. -/
theorem ofBaseUrl_eq_ok_iff {baseUrl : String} :
    ofBaseUrl baseUrl = .ok c ↔ (∃ url, Url.parse baseUrl = .ok url) ∧ c = { baseUrl } := by
  rw [← isSound_baseUrl_iff baseUrl none]
  unfold ofBaseUrl
  dsimp only
  by_cases h : IsSound { baseUrl }
  · rw [validate_of_isSound h]
    exact ⟨fun hok ↦ ⟨h, (Except.ok.inj hok).symm⟩, fun hsame ↦ congrArg Except.ok hsame.2.symm⟩
  · rw [validate_of_not_isSound h]
    exact ⟨nofun, fun hsame ↦ absurd hsame.1 h⟩

private theorem baseUrl_change (c : ControllerConfig) (change : ConfigChange) :
    (c.change change).baseUrl = c.baseUrl := by
  cases change <;> rfl

private theorem baseUrl_changeAll (c : ControllerConfig) (changes : List ConfigChange) :
    (c.changeAll changes).baseUrl = c.baseUrl := by
  induction changes generalizing c with
  | nil => rfl
  | cons change changes ih => exact (ih (c.change change)).trans (c.baseUrl_change change)

private theorem field_ne_of_changed {baseUrl : String} {changes : List ConfigChange}
    (hmade : ofBaseUrl baseUrl = .ok c) (h : (c.changeAll changes).Breaks issue) :
    issue.field ≠ "base_url" := by
  obtain ⟨⟨url, hurl⟩, rfl⟩ := ofBaseUrl_eq_ok_iff.mp hmade
  cases h with
  | url h =>
    rw [baseUrl_changeAll] at h
    exact absurd hurl (h url)
  | noVersions h => exact (by decide : "supported_versions" ≠ "base_url")
  | timeoutRange h => exact (by decide : "request_timeout_secs" ≠ "base_url")

end ControllerConfig

namespace Session

variable {σ : Type} (connector : ClientSettings → Connector σ) {c : ControllerConfig}

/-! ## Negotiating -/

/-- A configuration that something is wrong with is refused, and nothing is done. -/
theorem ofConfig_of_not_isSound (h : ¬ c.IsSound) (run : Run σ) :
    ofConfig connector c run =
      (.error (.notValid ("\n".intercalate (c.issues.map ConfigIssue.describe))), run) := by
  rw [ofConfig, ControllerConfig.toArgs, ControllerConfig.validate_of_not_isSound h]
  rfl

/-- A configuration without a key is refused, and nothing is done. -/
theorem ofConfig_of_no_key (h : c.IsSound) (hkey : c.apiKey = none) (run : Run σ) :
    ofConfig connector c run = (.error (.notValid "missing API key"), run) := by
  rw [ofConfig, ControllerConfig.toArgs, ControllerConfig.validate_of_isSound h, hkey]
  rfl

/-- A configuration with a key is negotiated by its settings if nothing is wrong with it. -/
theorem ofConfig_of_key {key : String} (h : c.IsSound) (hkey : c.apiKey = some key) :
    ofConfig connector c =
      negotiate (connector c.clientSettings) c.supportedVersions ⟨c.baseUrl, key⟩ := by
  rw [ofConfig, ControllerConfig.toArgs, ControllerConfig.validate_of_isSound h, hkey]
  rfl

/-- A configuration for a base URL is, with a key, what the two are as arguments. -/
theorem ofConfig_ofBaseUrl {baseUrl : String} (hmade : ControllerConfig.ofBaseUrl baseUrl = .ok c)
    (key : String) :
    ofConfig connector (c.change (.apiKey key)) = ofArgs connector ⟨baseUrl, key⟩ := by
  obtain ⟨hurl, rfl⟩ := ControllerConfig.ofBaseUrl_eq_ok_iff.mp hmade
  exact ofConfig_of_key connector
    ((ControllerConfig.isSound_baseUrl_iff baseUrl (some key)).mpr hurl) rfl

/-- A configuration passes just if nothing is wrong with it, and otherwise all that is wrong is
reported; changes of one that was made for a base URL never spoil the base URL. Its session is
refused, and nothing is done, if something is wrong or there is no key. Otherwise its versions are
negotiated in order, through channels with its timeout and its verification of certificates. With a
base URL and a key only, this is the negotiation for these arguments. -/
theorem ofConfig_negotiates (c : ControllerConfig) :
    (c.IsSound → c.validate = .ok ()) ∧
    (¬ c.IsSound → ∃ list, c.validate = .error (.issues list) ∧ c.Reports list) ∧
    (∀ baseUrl config changes, ControllerConfig.ofBaseUrl baseUrl = .ok config →
      c = config.changeAll changes → ∀ issue, c.Breaks issue → issue.field ≠ "base_url") ∧
    ∀ (σ : Type) (connector : ClientSettings → Connector σ) (run : Run σ),
      (¬ c.IsSound ∨ c.apiKey = none →
        ∃ message, ofConfig connector c run = (.error (.notValid message), run)) ∧
      (∀ key, c.IsSound → c.apiKey = some key → ofConfig connector c run =
        negotiate
          (connector { timeout := 1000 * c.requestTimeout.toNat, tlsVerify := c.tlsVerify })
          c.supportedVersions ⟨c.baseUrl, key⟩ run) ∧
      ∀ baseUrl config key, ControllerConfig.ofBaseUrl baseUrl = .ok config →
        c = config.change (.apiKey key) →
        ofConfig connector c run = ofArgs connector ⟨baseUrl, key⟩ run := by
  refine ⟨ControllerConfig.validate_of_isSound,
    fun h ↦ ⟨_, ControllerConfig.validate_of_not_isSound h, c.reports_issues⟩, ?_,
    fun σ connector run ↦ ⟨?_, ?_, ?_⟩⟩
  · rintro baseUrl config changes hmade rfl issue h
    exact ControllerConfig.field_ne_of_changed hmade h
  · intro h
    by_cases hsound : c.IsSound
    · have hkey := h.resolve_left (not_not_intro hsound)
      exact ⟨_, ofConfig_of_no_key connector hsound hkey run⟩
    · exact ⟨_, ofConfig_of_not_isSound connector hsound run⟩
  · intro key hsound hkey
    rw [ofConfig_of_key connector hsound hkey]
    rfl
  · rintro baseUrl config key hmade rfl
    rw [ofConfig_ofBaseUrl connector hmade key]

end Session

end RegionClient

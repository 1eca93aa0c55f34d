import SubtitleTranslator.Construction.Settings
import SubtitleTranslator.Library.Fallible

namespace SubtitleTranslator.Settings
open Library Library.Text

/-- The names of the public settings do not depend on the environment. -/
def publicNames : List Str :=
  names ["default_provider", "anthropic_model", "openai_model", "openai_base_url",
    "source_language", "target_languages", "batch_size", "workers", "rpm", "width", "max_lines",
    "rate_limit_window_minutes", "user_job_limit", "admin_job_limit", "panel_job_limit",
    "registration_enabled", "captcha_provider", "captcha_hostname", "captcha_on_login",
    "captcha_on_register", "captcha_on_upload", "turnstile_site_key", "recaptcha_site_key",
    "hcaptcha_site_key"] ++ calendarLimitKeys

theorem publicKeys_eq (env : Environment) : env.publicKeys = publicNames := rfl

/-- The settings that decide the protection. -/
def captchaNames : List Str :=
  [ofString "captcha_provider", ofString "captcha_hostname"] ++ captchaActionSettings ++
    captchaProviders.map siteKeyName

/-- These settings are public, are no secrets, and are shown as they are stored. -/
theorem captchaNames_public : ∀ key ∈ captchaNames,
    key ∈ publicNames ∧ key ∉ secretKeys ∧ key ≠ ofString "default_provider" := by
  decide +kernel

theorem secretKeyName_not_public : ∀ key ∈ secretKeys, key ∉ publicNames := by
  decide +kernel

theorem secretKeyName_secret : ∀ provider ∈ captchaProviders,
    secretKeyName provider ∈ secretKeys ∧ secretKeyName provider ≠ ofString "default_provider" := by
  decide +kernel

theorem siteKeyName_mem {provider : Str} (listed : provider ∈ captchaProviders) :
    siteKeyName provider ∈ captchaNames :=
  List.mem_append_right _ (List.mem_map_of_mem listed)

theorem action_mem {key : Str} (action : key ∈ captchaActionSettings) : key ∈ captchaNames :=
  List.mem_append_left _ (List.mem_append_right _ action)

/-- A setting that is shown as it is stored is its row or its default. -/
theorem viewValue_eq {env : Environment} {key : Str} (captcha : key ∈ captchaNames) :
    ∃ default, ∀ rows, viewValue env rows key = some ((rows key).getD default) := by
  obtain ⟨listed, _, plain⟩ := captchaNames_public key captcha
  rw [← publicKeys_eq env] at listed
  obtain ⟨entry, inDefaults, rfl⟩ := List.mem_map.mp listed
  obtain ⟨default, found⟩ := Option.isSome_iff_exists.mp
    (List.lookup_isSome_iff.mpr ⟨entry, inDefaults, beq_self_eq_true entry.1⟩)
  refine ⟨default, fun rows => ?_⟩
  rw [viewValue, if_neg plain, settingValue, found]
  rfl

/-- A request writes each of its keys once. -/
theorem foldl_writeSetting (cipher : Str → Str) {entries : List (Sigma fun _ : Str => JsonValue)}
    (distinct : entries.NodupKeys) (rows : Str → Option Str) (key : Str) :
    entries.foldl (writeSetting cipher) rows key =
      ((entries.dlookup key).bind (storedText cipher key)).or (rows key) := by
  induction entries generalizing rows with
  | nil => rfl
  | cons entry entries ih =>
      obtain ⟨name, value⟩ := entry
      rw [List.nodupKeys_cons] at distinct
      rw [List.foldl_cons, ih distinct.2]
      by_cases same : key = name
      · subst same
        rw [List.dlookup_cons_eq, List.dlookup_eq_none.mpr distinct.1, writeSetting]
        cases written : storedText cipher key value with
        | none => simp [written]
        | some text => simp [written]
      · rw [List.dlookup_cons_ne _ _ same, writeSetting]
        cases storedText cipher name value with
        | none => rfl
        | some text =>
            dsimp only
            rw [Function.update_of_ne same]

theorem require_ok {passed : Bool} {refusal : Refusal} {value : Unit}
    (accepted : require passed refusal = .ok value) : passed = true := by
  cases passed with
  | false => cases accepted
  | true => rfl

/-- An accepted `save_settings` passed the check of the merged settings. -/
theorem saveSettings_ok {env : Environment} {cipher : Str → Str} {s next : PanelState}
    {payload : Payload} (saved : saveSettings env cipher s payload = .ok next) :
    ∃ clean : Payload, captchaSettingsError (storedSettings env s) clean = none ∧
      ∀ key, next.rows key = ((clean.lookup key).bind (storedText cipher key)).or (s.rows key) := by
  rw [saveSettings] at saved
  obtain ⟨_, _, saved⟩ := Fallible.bind_ok.mp saved
  obtain ⟨clean, _, saved⟩ := Fallible.bind_ok.mp saved
  obtain ⟨_, _, saved⟩ := Fallible.bind_ok.mp saved
  obtain ⟨_, _, saved⟩ := Fallible.bind_ok.mp saved
  obtain ⟨_, checked, saved⟩ := Fallible.bind_ok.mp saved
  cases saved
  exact ⟨clean, Option.isNone_iff_eq_none.mp (require_ok checked),
    foldl_writeSetting cipher clean.nodupKeys s.rows⟩

/-- An accepted `delete_key` removed one secret, and not the one that the protection needs. -/
theorem deleteKey_ok {env : Environment} {s next : PanelState} {name : Str}
    (deleted : deleteKey env s name = .ok next) :
    ∃ key ∈ secretKeys, next.rows = Function.update s.rows key none ∧
      ∀ provider ∈ captchaProviders, key = secretKeyName provider →
        (storedSettings env s).values (ofString "captcha_provider") = some provider →
          ∀ action ∈ captchaActionSettings,
            (storedSettings env s).values action ≠ some (ofString "1") := by
  rw [deleteKey] at deleted
  obtain ⟨_, known, deleted⟩ := Fallible.bind_ok.mp deleted
  obtain ⟨_, inactive, deleted⟩ := Fallible.bind_ok.mp deleted
  cases deleted
  have known := of_decide_eq_true (require_ok known)
  have inactive := of_decide_eq_true (require_ok inactive)
  refine ⟨_, known, rfl, ?_⟩
  intro provider listed same selected action member enabled
  have captcha : removePrefix (ofString "captcha-") name = provider := by
    by_cases opened : (ofString "captcha-").isPrefixOf name = true
    · rw [if_pos opened, secretKeyName, secretKeyName] at same
      exact List.append_cancel_right same
    · rw [if_neg opened, apiKeyName, secretKeyName] at same
      have split : ofString "_secret_key" = ofString "_se" ++ ofString "cret_key" := by decide
      rw [split, ← List.append_assoc] at same
      have ends := List.append_inj_right' same (by decide)
      exact absurd ends (by decide)
  rw [captcha] at inactive
  exact inactive ⟨listed, selected, List.any_eq_true.mpr ⟨action, member, decide_eq_true enabled⟩⟩

/-- The protection can be passed: with a provider and an action, its site key and the hostname are
set, and its secret key is stored or comes from the environment. -/
def CaptchaUsable (env : Environment) (s : PanelState) : Prop :=
  ∀ provider ∈ captchaProviders,
    (storedSettings env s).values (ofString "captcha_provider") = some provider →
    (∃ action ∈ captchaActionSettings,
      (storedSettings env s).values action = some (ofString "1")) →
    ((storedSettings env s).values (siteKeyName provider)).getD [] ≠ [] ∧
      ((storedSettings env s).values (ofString "captcha_hostname")).getD [] ≠ [] ∧
      secretAvailable env s.rows provider = true

/-- After an accepted `save_settings` the protection settings are the merged ones. -/
theorem storedSettings_saved {env : Environment} {cipher : Str → Str} {s next : PanelState}
    {clean : Payload} (rows : ∀ key, next.rows key =
      ((clean.lookup key).bind (storedText cipher key)).or (s.rows key))
    {key : Str} (captcha : key ∈ captchaNames) :
    (storedSettings env next).values key = combined (storedSettings env s) clean key := by
  obtain ⟨default, view⟩ := @viewValue_eq env key captcha
  obtain ⟨_, public_, _⟩ := captchaNames_public key captcha
  change viewValue env next.rows key =
    ((clean.lookup key).map JsonValue.clean).or (viewValue env s.rows key)
  rw [view, view, rows]
  cases clean.lookup key with
  | none => rfl
  | some value =>
      rw [Option.bind_some, storedText, if_neg public_]
      rfl

/-- A secret key is not shown among the settings. -/
theorem combined_secret {env : Environment} {s : PanelState} {clean : Payload} {provider : Str}
    (listed : provider ∈ captchaProviders) :
    combined (storedSettings env s) clean (secretKeyName provider) =
      (clean.lookup (secretKeyName provider)).map JsonValue.clean := by
  obtain ⟨secret, plain⟩ := secretKeyName_secret provider listed
  have hidden : viewValue env s.rows (secretKeyName provider) = none := by
    rw [viewValue, if_neg plain, settingValue]
    cases found : env.defaults.lookup (secretKeyName provider) with
    | none => rfl
    | some default =>
        obtain ⟨before, after, split, _⟩ := List.lookup_eq_some_iff.mp found
        refine absurd ?_ (secretKeyName_not_public _ secret)
        rw [← publicKeys_eq env, Environment.publicKeys, split]
        simp
  change ((clean.lookup _).map JsonValue.clean).or (viewValue env s.rows _) = _
  rw [hidden, Option.or_none]

/-- A request keeps an available secret, and stores a new one. -/
theorem secretAvailable_saved {env : Environment} {cipher : Str → Str} {s next : PanelState}
    {clean : Payload} (rows : ∀ key, next.rows key =
      ((clean.lookup key).bind (storedText cipher key)).or (s.rows key))
    {provider : Str} (listed : provider ∈ captchaProviders)
    (configured : ((clean.lookup (secretKeyName provider)).map JsonValue.clean).getD [] ≠ [] ∨
      secretAvailable env s.rows provider = true) :
    secretAvailable env next.rows provider = true := by
  obtain ⟨secret, _⟩ := secretKeyName_secret provider listed
  rw [secretAvailable, rows]
  cases found : clean.lookup (secretKeyName provider) with
  | none =>
      rw [found] at configured
      rcases configured with blank | available
      · exact absurd rfl blank
      · exact available
  | some value =>
      rw [found] at configured
      rw [Option.bind_some, storedText, if_pos secret]
      by_cases empty : value.clean = []
      · rw [if_pos empty]
        rcases configured with stored | available
        · exact absurd empty stored
        · exact available
      · rw [if_neg empty, encryptSecret]
        rfl

theorem CaptchaUsable.saved {env : Environment} {cipher : Str → Str} {s next : PanelState}
    {payload : Payload} (saved : saveSettings env cipher s payload = .ok next) :
    CaptchaUsable env next := by
  obtain ⟨clean, checked, rows⟩ := saveSettings_ok saved
  intro provider listed selected protected_
  obtain ⟨action, member, enabled⟩ := protected_
  rw [storedSettings_saved rows (by decide)] at selected
  rw [storedSettings_saved rows (action_mem member)] at enabled
  rw [storedSettings_saved rows (siteKeyName_mem listed), storedSettings_saved rows (by decide)]
  simp only [captchaSettingsError, selected, Option.getD_some] at checked
  have enabledAny : captchaActionSettings.any (fun key =>
      combined (storedSettings env s) clean key = some (ofString "1")) = true :=
    List.any_eq_true.mpr ⟨action, member, decide_eq_true enabled⟩
  split at checked
  · cases checked
  · rename_i keys
    split at checked
    · cases checked
    · rename_i hostname
      have named : provider ≠ ofString "none" := by
        rintro rfl
        exact absurd listed (by decide)
      rw [not_and_or, not_and_or, not_or] at keys
      obtain ⟨siteKey, secret⟩ := (keys.resolve_left (not_not.mpr listed)).resolve_left
        (not_not.mpr enabledAny)
      refine ⟨siteKey, fun empty => hostname ⟨named, empty⟩, secretAvailable_saved rows listed ?_⟩
      rw [Bool.not_eq_false, Bool.or_eq_true, decide_eq_true_eq, combined_secret listed] at secret
      rcases secret with stored | configured
      · exact .inl stored
      · exact .inr (Bool.and_eq_true_iff.mp configured).2

/-- Removing a secret that the protection does not need leaves it usable. -/
theorem CaptchaUsable.deleted {env : Environment} {s next : PanelState} {name : Str}
    (usable : CaptchaUsable env s) (deleted : deleteKey env s name = .ok next) :
    CaptchaUsable env next := by
  obtain ⟨key, secret, rows, inactive⟩ := deleteKey_ok deleted
  have kept {other : Str} (captcha : other ∈ captchaNames) :
      (storedSettings env next).values other = (storedSettings env s).values other := by
    obtain ⟨default, view⟩ := @viewValue_eq env other captcha
    obtain ⟨_, public_, _⟩ := captchaNames_public other captcha
    change viewValue env next.rows other = viewValue env s.rows other
    have distinct : other ≠ key := by
      rintro rfl
      exact public_ secret
    rw [view, view, rows, Function.update_of_ne distinct]
  intro provider listed selected protected_
  obtain ⟨action, member, enabled⟩ := protected_
  rw [kept (by decide)] at selected
  rw [kept (action_mem member)] at enabled
  rw [kept (siteKeyName_mem listed), kept (by decide)]
  obtain ⟨siteKey, hostname, available⟩ := usable provider listed selected ⟨action, member, enabled⟩
  refine ⟨siteKey, hostname, ?_⟩
  have other : secretKeyName provider ≠ key := by
    intro same
    exact inactive provider listed same.symm selected action member enabled
  rw [secretAvailable, rows, Function.update_of_ne other]
  exact available

/-- Each request keeps the protection usable. -/
theorem CaptchaUsable.step {env : Environment} {s next : PanelState} {request : SettingsRequest}
    (usable : CaptchaUsable env s) (stepped : s.step env request = some next) :
    CaptchaUsable env next := by
  rw [PanelState.step] at stepped
  cases request with
  | saveSettings cipher payload =>
      cases saved : saveSettings env cipher s payload with
      | ok state =>
          rw [SettingsRequest.answer, saved] at stepped
          cases stepped
          exact .saved saved
      | error refusal =>
          rw [SettingsRequest.answer, saved] at stepped
          cases stepped
          exact usable
  | deleteKey name =>
      cases deleted : deleteKey env s name with
      | ok state =>
          rw [SettingsRequest.answer, deleted] at stepped
          cases stepped
          exact usable.deleted deleted
      | error refusal =>
          rw [SettingsRequest.answer, deleted] at stepped
          cases stepped
          exact usable

/-- Without a selected provider there is nothing to pass. -/
theorem CaptchaUsable.unselected {env : Environment} {s : PanelState}
    (unselected : ∀ provider ∈ captchaProviders,
      (storedSettings env s).values (ofString "captcha_provider") ≠ some provider) :
    CaptchaUsable env s :=
  fun provider listed selected => absurd selected (unselected provider listed)

/-- No sequence of settings requests locks everyone out. -/
theorem captcha_settings_usable {env : Environment} {s last : PanelState}
    {requests : List SettingsRequest}
    (unselected : ∀ provider ∈ captchaProviders,
      (storedSettings env s).values (ofString "captcha_provider") ≠ some provider)
    (ran : Machine.run (PanelState.step env) s requests = some last) : CaptchaUsable env last :=
  Machine.run_invariant (CaptchaUsable env)
    (fun _ _ _ usable stepped => CaptchaUsable.step usable stepped) (.unselected unselected) ran

/-- A panel without environment values. -/
def plainEnvironment : Environment where
  environ := fun name => if name = ofString "JWT_SECRET_KEY" then some (ofString "key") else none
  debug := false
  lower := lower
  float := fun _ => none

/-- The table has no rows, so that every setting has its default. -/
def emptyPanel : PanelState := ⟨fun _ => none, [], 0⟩

def payloadOf (entries : List (String × String)) : Payload :=
  (entries.map fun entry => ⟨ofString entry.1, .text (ofString entry.2)⟩).toAList

/-- An administrator selects a provider; another one tries to remove its secret and its hostname. -/
def captchaRequests : List SettingsRequest :=
  [.saveSettings id (payloadOf [("captcha_provider", "turnstile"),
      ("captcha_hostname", "Translate.Example."), ("turnstile_site_key", "site"),
      ("turnstile_secret_key", "secret")]),
    .deleteKey (ofString "captcha-turnstile"),
    .saveSettings id (payloadOf [("captcha_hostname", " ")])]

def protectedPanel : Option PanelState :=
  Machine.run (PanelState.step plainEnvironment) emptyPanel captchaRequests

example : protectedPanel.map (fun s => (s.revision,
    (storedSettings plainEnvironment s).values (ofString "captcha_hostname"))) =
      some (1, some (ofString "translate.example")) := by
  decide +kernel

theorem captcha_settings_usable_example :
    ∃ last, Machine.run (PanelState.step plainEnvironment) emptyPanel captchaRequests = some last ∧
      CaptchaUsable plainEnvironment last := by
  have unselected : ∀ provider ∈ captchaProviders,
      (storedSettings plainEnvironment emptyPanel).values (ofString "captcha_provider") ≠
        some provider := by
    decide +kernel
  have runs : (Machine.run (PanelState.step plainEnvironment) emptyPanel captchaRequests).isSome =
      true := by
    decide +kernel
  obtain ⟨last, ran⟩ := Option.isSome_iff_exists.mp runs
  exact ⟨last, ran, captcha_settings_usable unselected ran⟩

end SubtitleTranslator.Settings

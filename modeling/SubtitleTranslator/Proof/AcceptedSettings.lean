import SubtitleTranslator.Proof.CaptchaSettings

namespace SubtitleTranslator.Settings
open Library Library.Text

/-- The stored text of a setting that its own checks accept. -/
structure Acceptable (env : Environment) (key text : Str) : Prop where
  number : ∀ least most, (key, least, most) ∈ numberSettings →
    ∃ value, env.float text = some value ∧ least ≤ value ∧ value ≤ most
  integer : ∀ least most, (key, least, most) ∈ integerSettings →
    ∃ value, int? text = some value ∧ decimal value = text ∧ least ≤ value ∧ value ≤ most
  flag : key ∈ booleanSettings → text = ofString "0" ∨ text = ofString "1"
  captcha : key = ofString "captcha_provider" → text ∈ ofString "none" :: captchaProviders
  hostname : key = ofString "captcha_hostname" →
    text = [] ∨ isHostname text = true ∨ env.defaults.lookup key = some text

theorem validateNumericSettings_ok {env : Environment} {payload : Payload}
    (valid : validateNumericSettings env payload = .ok ()) :
    (∀ key least most, (key, least, most) ∈ numberSettings → ∀ value ∈ payload.lookup key,
      ∃ number, env.float value.clean = some number ∧ least ≤ number ∧ number ≤ most) ∧
    ∀ key least most, (key, least, most) ∈ integerSettings → ∀ value ∈ payload.lookup key,
      ∃ number, int? value.clean = some number ∧ decimal number = value.clean ∧ least ≤ number ∧
        number ≤ most := by
  rw [validateNumericSettings] at valid
  split at valid
  · cases valid
  · rename_i numbers
    split at valid
    · cases valid
    · rename_i integers
      rw [List.find?_eq_none] at numbers integers
      constructor
      · intro key least most listed value given
        have passed := numbers (key, least, most) listed
        dsimp only at passed
        rw [given, Option.any_some, Bool.not_eq_true, Bool.not_eq_false', Option.any_eq_true_iff_get]
          at passed
        obtain ⟨some_, bounds⟩ := passed
        obtain ⟨number, read⟩ := Option.isSome_iff_exists.mp some_
        simp only [read, Option.get_some, Bool.and_eq_true, decide_eq_true_eq] at bounds
        exact ⟨number, read, bounds⟩
      · intro key least most listed value given
        have passed := integers (key, least, most) listed
        dsimp only at passed
        rw [given, Option.any_some, Bool.not_eq_true, Bool.not_eq_false', Option.any_eq_true_iff_get]
          at passed
        obtain ⟨some_, bounds⟩ := passed
        obtain ⟨number, whole⟩ := Option.isSome_iff_exists.mp some_
        simp only [whole, Option.get_some, Bool.and_eq_true, decide_eq_true_eq] at bounds
        rw [wholeNumber, Option.filter_eq_some_iff] at whole
        exact ⟨number, whole.1, of_decide_eq_true whole.2, bounds⟩

/-- Replacing the value of a key that is there leaves the other keys alone. -/
theorem lookup_replace (payload : Payload) (name key : Str) (value : JsonValue) :
    (payload.replace name value).lookup key =
      if key = name then (payload.lookup name).map fun _ => value else payload.lookup key := by
  obtain ⟨entries, distinct⟩ := payload
  change (entries.kreplace name value).dlookup key =
    if key = name then (entries.dlookup name).map fun _ => value else entries.dlookup key
  induction entries with
  | nil => simp [List.kreplace, List.lookmap_nil]
  | cons entry entries ih =>
      obtain ⟨first, old⟩ := entry
      rw [List.nodupKeys_cons] at distinct
      have head : (⟨first, old⟩ :: entries : List (Sigma fun _ : Str => JsonValue)).kreplace name
          value = if name = first then ⟨name, value⟩ :: entries
            else ⟨first, old⟩ :: entries.kreplace name value := by
        rw [List.kreplace, List.lookmap_cons]
        by_cases here : name = first
        · simp [here]
        · simp [here]
      rw [head]
      by_cases here : name = first
      · subst here
        rw [if_pos rfl, List.dlookup_cons_eq]
        by_cases same : key = name
        · subst same
          rw [if_pos rfl, List.dlookup_cons_eq]
          rfl
        · rw [if_neg same, List.dlookup_cons_ne _ _ same, List.dlookup_cons_ne _ _ same]
      · rw [if_neg here, List.dlookup_cons_ne entries ⟨first, old⟩ here]
        by_cases same : key = first
        · subst same
          rw [List.dlookup_cons_eq, if_neg (Ne.symm here), List.dlookup_cons_eq]
        · rw [List.dlookup_cons_ne _ _ same, List.dlookup_cons_ne _ _ same, ih distinct.2]

/-- What the checks of choices and flags say about the payload that they return. -/
theorem validateChoiceAndFlagSettings_ok {env : Environment} {payload clean : Payload}
    (valid : validateChoiceAndFlagSettings env payload = .ok clean) :
    (∀ key ∈ booleanSettings, ∀ value ∈ clean.lookup key,
      value.clean = ofString "0" ∨ value.clean = ofString "1") ∧
    (∀ value ∈ clean.lookup (ofString "captcha_provider"),
      value.clean ∈ ofString "none" :: captchaProviders) ∧
    ∀ value ∈ clean.lookup (ofString "captcha_hostname"),
      ∃ hostname, value = .text hostname ∧ (hostname = [] ∨ isHostname hostname = true) := by
  rw [validateChoiceAndFlagSettings] at valid
  obtain ⟨_, _, valid⟩ := Fallible.bind_ok.mp valid
  split at valid
  · cases valid
  split at valid
  · cases valid
  rename_i _ choice
  split at valid
  · cases valid
  rename_i flags
  rw [List.find?_eq_none] at flags
  have flag : ∀ key ∈ booleanSettings, ∀ value ∈ payload.lookup key,
      value.clean = ofString "0" ∨ value.clean = ofString "1" := by
    intro key listed value given
    have passed := flags key listed
    rw [given, Option.any_some, Bool.and_eq_true, decide_eq_true_eq, decide_eq_true_eq, not_and_or,
      not_not, not_not] at passed
    exact passed
  have provider : ∀ value ∈ payload.lookup (ofString "captcha_provider"),
      value.clean ∈ ofString "none" :: captchaProviders := by
    intro value given
    rw [given, Option.any_some, decide_eq_true_eq, not_not] at choice
    exact choice
  have flagsApart : ofString "captcha_hostname" ∉ booleanSettings := by decide +kernel
  have providerApart : ofString "captcha_provider" ≠ ofString "captcha_hostname" := by
    decide +kernel
  split at valid
  · rename_i absent
    cases valid
    refine ⟨flag, provider, fun value given => ?_⟩
    rw [absent] at given
    cases given
  · rename_i value given
    dsimp only at valid
    split at valid
    · cases valid
    · rename_i named
      cases valid
      refine ⟨fun key listed => ?_, ?_, ?_⟩
      · have apart : key ≠ ofString "captcha_hostname" := by
          rintro rfl
          exact flagsApart listed
        rw [lookup_replace, if_neg apart]
        exact flag key listed
      · rw [lookup_replace, if_neg providerApart]
        exact provider
      · rw [lookup_replace, if_pos rfl, given]
        rintro _ ⟨⟩
        rw [not_and_or, not_not, not_not] at named
        exact ⟨_, rfl, named⟩

theorem isSpace_of_hostname {s : Str} (named : isHostname s = true) : ∀ c ∈ s, isSpace c = false := by
  have letter : ∀ c, isHostLetter c = true → isSpace c = false := by
    intro c inside
    simp only [isHostLetter, isAsciiDigit, Bool.or_eq_true, Bool.and_eq_true, decide_eq_true_eq]
      at inside
    simp [isSpace]
    omega
  have character : ∀ c, isHostCharacter c = true → isSpace c = false := by
    intro c inside
    rw [isHostCharacter, Bool.or_eq_true] at inside
    rcases inside with listed | hyphen
    · exact letter c listed
    · rw [eq_of_beq hyphen]
      decide
  have dot : ∀ c : CodePoint, (c == 0x2e) = true → isSpace c = false := by
    intro c same
    rw [eq_of_beq same]
    decide
  have label : hostLabelRe.Within (isSpace · = false) :=
    (Pattern.within_one letter).bind fun _ =>
      ((Pattern.within_upTo character 61).bind fun _ => Pattern.within_one letter).optional.bind
        fun _ => Pattern.within_pure _ _
  have whole : hostnameRe.Within (isSpace · = false) :=
    (label.bind fun _ => Pattern.within_one dot).star.bind fun _ => label
  simp only [isHostname, Bool.and_eq_true] at named
  exact whole.of_fullmatch named.2

theorem strip_hostname {s : Str} (named : isHostname s = true) : strip s = s :=
  strip_eq_self (fun c isFirst => isSpace_of_hostname named c (List.mem_of_mem_head? isFirst))
    fun c isLast => isSpace_of_hostname named c (List.mem_of_getLast? isLast)

/-- The rows of the public settings are accepted texts. -/
def RowsAcceptable (env : Environment) (rows : Str → Option Str) : Prop :=
  ∀ key ∈ publicNames, ∀ text ∈ rows key, Acceptable env key text

/-- An accepted request stores accepted texts. -/
theorem RowsAcceptable.saved {env : Environment} {cipher : Str → Str} {s next : PanelState}
    {payload : Payload} (rows : RowsAcceptable env s.rows)
    (saved : saveSettings env cipher s payload = .ok next) : RowsAcceptable env next.rows := by
  rw [saveSettings] at saved
  obtain ⟨_, _, saved⟩ := Fallible.bind_ok.mp saved
  obtain ⟨clean, choices, saved⟩ := Fallible.bind_ok.mp saved
  obtain ⟨_, _, saved⟩ := Fallible.bind_ok.mp saved
  obtain ⟨_, numbers, saved⟩ := Fallible.bind_ok.mp saved
  obtain ⟨_, _, saved⟩ := Fallible.bind_ok.mp saved
  cases saved
  obtain ⟨flags, captcha, hostname⟩ :=
    validateChoiceAndFlagSettings_ok (Fallible.mapError_ok.mp choices)
  obtain ⟨number, integer⟩ := validateNumericSettings_ok (Fallible.mapError_ok.mp numbers)
  intro key public_ text stored
  have plain : key ∉ secretKeys := fun secret => secretKeyName_not_public key secret public_
  dsimp only at stored
  rw [foldl_writeSetting cipher clean.nodupKeys] at stored
  change text ∈ ((clean.lookup key).bind (storedText cipher key)).or (s.rows key) at stored
  cases given : clean.lookup key with
  | none =>
      rw [given] at stored
      exact rows key public_ text stored
  | some value =>
      rw [given, Option.bind_some, storedText, if_neg plain] at stored
      obtain rfl : value.clean = text := by simpa using stored
      refine ⟨fun least most listed => number key least most listed value given,
        fun least most listed => integer key least most listed value given,
        fun listed => flags key listed value given, ?_, ?_⟩
      · rintro rfl
        exact captcha value given
      · rintro rfl
        obtain ⟨name, rfl, empty | named⟩ := hostname value given
        · exact .inl (by rw [empty]; rfl)
        · refine .inr (.inl ?_)
          rw [JsonValue.clean, JsonValue.str, strip_hostname named]
          exact named

/-- Removing a secret leaves the public settings. -/
theorem RowsAcceptable.deleted {env : Environment} {s next : PanelState} {name : Str}
    (rows : RowsAcceptable env s.rows) (deleted : deleteKey env s name = .ok next) :
    RowsAcceptable env next.rows := by
  obtain ⟨secret, listed, same, _⟩ := deleteKey_ok deleted
  intro key public_ text stored
  have apart : key ≠ secret := by
    rintro rfl
    exact secretKeyName_not_public key listed public_
  rw [same, Function.update_of_ne apart] at stored
  exact rows key public_ text stored

theorem RowsAcceptable.step {env : Environment} {s next : PanelState} {request : SettingsRequest}
    (rows : RowsAcceptable env s.rows) (stepped : s.step env request = some next) :
    RowsAcceptable env next.rows := by
  rw [PanelState.step] at stepped
  cases answered : request.answer env s with
  | error refusal =>
      rw [answered] at stepped
      cases stepped
      exact rows
  | ok state =>
      rw [answered] at stepped
      cases stepped
      cases request with
      | saveSettings cipher payload => exact rows.saved answered
      | deleteKey name => exact rows.deleted answered

/-- A panel that has started: the checks of its environment passed, and `float` reads the defaults of
the two numbers. -/
structure Started (env : Environment) : Prop where
  provider : env.lower (strip (env.get "CAPTCHA_PROVIDER" "none")) ∈
    ofString "none" :: captchaProviders
  flags : ∀ key ∈ booleanSettings, ∀ text ∈ env.defaults.lookup key,
    text = ofString "0" ∨ text = ofString "1"
  zero : env.float (ofString "0") = some 0
  sixteen : env.float (ofString "16") = some 16

/-- The defaults that do not come from the environment. -/
def fixedDefaults : List (Str × Str) :=
  [("default_provider", "anthropic"), ("anthropic_model", "claude-sonnet-4-6"),
    ("openai_model", "gpt-5-mini"), ("openai_base_url", "https://api.openai.com/v1"),
    ("source_language", "English"), ("target_languages", "zh-TW,zh-CN"), ("batch_size", "20"),
    ("workers", "4"), ("rpm", "0"), ("width", "16"), ("max_lines", "2"),
    ("rate_limit_window_minutes", "60"), ("user_job_limit", "0"), ("admin_job_limit", "0"),
    ("panel_job_limit", "0")].map (fun entry => (ofString entry.1, ofString entry.2)) ++
  calendarLimitKeys.map fun key => (key, ofString "0")

/-- The defaults that come from the environment. -/
def Environment.givenDefaults (env : Environment) : List (Str × Str) :=
  [(ofString "registration_enabled", strip (env.get "REGISTRATION_ENABLED" "1")),
    (ofString "captcha_provider", env.lower (strip (env.get "CAPTCHA_PROVIDER" "none"))),
    (ofString "captcha_hostname", env.lower (strip (env.get "CAPTCHA_HOSTNAME" ""))),
    (ofString "captcha_on_login", strip (env.get "CAPTCHA_ON_LOGIN" "1")),
    (ofString "captcha_on_register", strip (env.get "CAPTCHA_ON_REGISTER" "1")),
    (ofString "captcha_on_upload", strip (env.get "CAPTCHA_ON_UPLOAD" "1")),
    (ofString "turnstile_site_key", strip (env.get "TURNSTILE_SITE_KEY" "")),
    (ofString "recaptcha_site_key", strip (env.get "RECAPTCHA_SITE_KEY" "")),
    (ofString "hcaptcha_site_key", strip (env.get "HCAPTCHA_SITE_KEY" ""))]

def givenNames : List Str :=
  names ["registration_enabled", "captcha_provider", "captcha_hostname", "captcha_on_login",
    "captcha_on_register", "captcha_on_upload", "turnstile_site_key", "recaptcha_site_key",
    "hcaptcha_site_key"]

/-- A default is fixed unless its name is one of the environment's. -/
theorem lookup_defaults (env : Environment) {key : Str} (fixed : key ∉ givenNames) :
    env.defaults.lookup key = fixedDefaults.lookup key := by
  have same : env.givenDefaults.map Prod.fst = givenNames := rfl
  have absent : env.givenDefaults.lookup key = none := by
    rw [List.lookup_eq_none_iff]
    intro entry member
    rw [bne_iff_ne]
    rintro rfl
    exact fixed (same ▸ List.mem_map_of_mem member)
  rw [Environment.defaults, List.lookup_append, List.lookup_append, fixedDefaults,
    List.lookup_append]
  change Option.or (Option.or _ (env.givenDefaults.lookup key)) _ = _
  rw [absent, Option.or_none]

theorem integerDefaults : ∀ entry ∈ integerSettings, entry.1 ∉ givenNames ∧
    (fixedDefaults.lookup entry.1).any (fun text => (wholeNumber text).any
      fun value => entry.2.1 ≤ value && value ≤ entry.2.2) = true := by
  decide +kernel

theorem captchaDefault (env : Environment) :
    env.defaults.lookup (ofString "captcha_provider") =
      some (env.lower (strip (env.get "CAPTCHA_PROVIDER" "none"))) := rfl

/-- The defaults of a panel that has started pass their checks. -/
theorem defaults_acceptable {env : Environment} (started : Started env) {key text : Str}
    (default : env.defaults.lookup key = some text) : Acceptable env key text := by
  refine ⟨?_, ?_, fun listed => started.flags key listed text default, ?_,
    fun _ => .inr (.inr default)⟩
  · intro least most listed
    have fixed : ofString "rpm" ∉ givenNames ∧ ofString "width" ∉ givenNames ∧
        fixedDefaults.lookup (ofString "rpm") = some (ofString "0") ∧
        fixedDefaults.lookup (ofString "width") = some (ofString "16") := by
      decide +kernel
    rcases List.mem_cons.mp listed with same | listed
    · cases same
      rw [lookup_defaults env fixed.1, fixed.2.2.1] at default
      cases default
      exact ⟨0, started.zero, le_refl 0, by norm_num⟩
    · cases List.mem_singleton.mp listed
      rw [lookup_defaults env fixed.2.1, fixed.2.2.2] at default
      cases default
      exact ⟨16, started.sixteen, by norm_num, by norm_num⟩
  · intro least most listed
    obtain ⟨fixed, passes⟩ := integerDefaults _ listed
    dsimp only at fixed passes
    rw [lookup_defaults env fixed] at default
    rw [default, Option.any_some, Option.any_eq_true_iff_get] at passes
    obtain ⟨some_, bounds⟩ := passes
    obtain ⟨value, whole⟩ := Option.isSome_iff_exists.mp some_
    simp only [whole, Option.get_some, Bool.and_eq_true, decide_eq_true_eq] at bounds
    rw [wholeNumber, Option.filter_eq_some_iff] at whole
    exact ⟨value, whole.1, of_decide_eq_true whole.2, bounds⟩
  · rintro rfl
    rw [captchaDefault] at default
    cases default
    exact started.provider

/-- Nothing is asked of the text of the default provider but that the provider is available. -/
theorem acceptable_default_provider (env : Environment) (text : Str) :
    Acceptable env (ofString "default_provider") text := by
  have apart : ofString "default_provider" ∉ numberSettings.map Prod.fst ∧
      ofString "default_provider" ∉ integerSettings.map Prod.fst ∧
      ofString "default_provider" ∉ booleanSettings ∧
      ofString "default_provider" ≠ ofString "captcha_provider" ∧
      ofString "default_provider" ≠ ofString "captcha_hostname" := by
    decide +kernel
  exact ⟨fun _ _ listed => absurd (List.mem_map_of_mem listed) apart.1,
    fun _ _ listed => absurd (List.mem_map_of_mem listed) apart.2.1,
    fun listed => absurd listed apart.2.2.1, fun same => absurd same apart.2.2.2.1,
    fun same => absurd same apart.2.2.2.2⟩

/-- The rows stay acceptable while administrators save settings. -/
theorem rowsAcceptable_run {env : Environment} (started : Started env) {s last : PanelState}
    {requests : List SettingsRequest}
    (fresh : ∀ key ∈ publicNames, s.rows key = none ∨ s.rows key = env.defaults.lookup key)
    (ran : Machine.run (PanelState.step env) s requests = some last) :
    RowsAcceptable env last.rows := by
  have start : RowsAcceptable env s.rows := by
    intro key public_ text stored
    rcases fresh key public_ with none_ | default
    · rw [none_] at stored
      cases stored
    · exact defaults_acceptable started (default ▸ stored)
  exact Machine.run_invariant (fun s => RowsAcceptable env s.rows)
    (fun _ _ _ rows stepped => RowsAcceptable.step rows stepped) start ran

/-- A setting that is read from acceptable rows, or from its default, is acceptable. -/
theorem RowsAcceptable.viewValue {env : Environment} (started : Started env)
    {rows : Str → Option Str} (acceptable : RowsAcceptable env rows) {key : Str}
    (public_ : key ∈ publicNames) :
    ∃ text, viewValue env rows key = some text ∧ Acceptable env key text ∧
      (key = ofString "default_provider" → text ∈ env.availableProviders) := by
  have listed := public_
  rw [← publicKeys_eq env] at listed
  obtain ⟨entry, inDefaults, rfl⟩ := List.mem_map.mp listed
  obtain ⟨default, found⟩ := Option.isSome_iff_exists.mp
    (List.lookup_isSome_iff.mpr ⟨entry, inDefaults, beq_self_eq_true entry.1⟩)
  have view : settingValue env rows entry.1 = some ((rows entry.1).getD default) := by
    rw [settingValue, found]
    rfl
  by_cases provider : entry.1 = ofString "default_provider"
  · rw [Settings.viewValue, if_pos provider, view, Option.map_some]
    refine ⟨_, rfl, provider ▸ acceptable_default_provider env _, fun _ => ?_⟩
    split_ifs with available
    · exact available
    · exact List.mem_append_left _ (by decide)
  · refine ⟨_, by rw [Settings.viewValue, if_neg provider, view], ?_,
      fun same => absurd same provider⟩
    cases stored : rows entry.1 with
    | none => exact defaults_acceptable started found
    | some text => exact acceptable entry.1 public_ text stored

/-- This `float` reads whole numbers. -/
def countingEnvironment : Environment :=
  { plainEnvironment with float := fun text => (wholeNumber text).map fun value => (value : ℚ) }

theorem countingEnvironment_started : Started countingEnvironment where
  provider := by decide +kernel
  flags := by decide +kernel
  zero := by decide +kernel
  sixteen := by decide +kernel

/-- The second request has a fraction where a whole number is needed. -/
def limitRequests : List SettingsRequest :=
  [.saveSettings id (payloadOf [("width", " 20 "), ("max_lines", "3")]),
    .saveSettings id (payloadOf [("max_lines", "3.0"), ("width", "24")])]

example : (Machine.run (PanelState.step countingEnvironment) emptyPanel limitRequests).map (fun s =>
    (viewValue countingEnvironment s.rows (ofString "width"),
      viewValue countingEnvironment s.rows (ofString "max_lines"))) =
        some (some (ofString "20"), some (ofString "3")) := by
  decide +kernel

end SubtitleTranslator.Settings

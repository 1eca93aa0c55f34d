import SubtitleTranslator.Library.Machine
import SubtitleTranslator.Library.Pattern
import Mathlib.Data.List.AList

namespace SubtitleTranslator.Settings
open Library Library.Text

/-- A number keeps its `str` and its truth; the other values are booleans, nulls, arrays and
objects. -/
inductive JsonValue where
  | text (value : Str)
  | number (shown : Str) (truth : Bool)
  | other (shown : Str)
  deriving DecidableEq

/-- This function is `str`. -/
def JsonValue.str : JsonValue → Str
  | text value => value
  | number shown _ => shown
  | other shown => shown

/-- The text that a setting stores for a value. -/
def JsonValue.clean (value : JsonValue) : Str := strip value.str

def isScalarSetting : JsonValue → Bool
  | .text _ => true
  | .number _ _ => true
  | .other _ => false

/-- A payload is a JSON object. -/
abbrev Payload := AList fun _ : Str => JsonValue

/-- The process environment and the parts of the language that depend on it: `str.lower`, and the
finite value of `float`. -/
structure Environment where
  environ : Str → Option Str
  debug : Bool
  lower : Str → Str
  float : Str → Option ℚ

/-- This function is `os.environ.get` with a default. -/
def Environment.get (env : Environment) (name default : String) : Str :=
  (env.environ (ofString name)).getD (ofString default)

/-- The names of a family of settings. -/
def names (keys : List String) : List Str := keys.map ofString

def calendarLimitKeys : List Str :=
  names ["user_daily_job_limit", "user_weekly_job_limit", "user_monthly_job_limit",
    "admin_daily_job_limit", "admin_weekly_job_limit", "admin_monthly_job_limit",
    "panel_daily_job_limit", "panel_weekly_job_limit", "panel_monthly_job_limit"]

def windowLimitKeys : List Str :=
  names ["rate_limit_window_minutes", "user_job_limit", "admin_job_limit", "panel_job_limit"]

def captchaProviders : List Str := names ["turnstile", "recaptcha", "hcaptcha"]

/-- These are the values of `CAPTCHA_ACTION_SETTINGS`. -/
def captchaActionSettings : List Str :=
  names ["captcha_on_login", "captcha_on_register", "captcha_on_upload"]

def booleanSettings : List Str := ofString "registration_enabled" :: captchaActionSettings

/-- A Python set has no order of its own; the order here decides which error comes first. -/
def numberSettings : List (Str × ℚ × ℚ) :=
  [(ofString "rpm", 0, 10000), (ofString "width", 4, 80)]

def integerSettings : List (Str × Nat × Nat) :=
  [(ofString "batch_size", 1, 100), (ofString "workers", 1, 16), (ofString "max_lines", 1, 5),
    (ofString "rate_limit_window_minutes", 1, 10080), (ofString "user_job_limit", 0, 100000),
    (ofString "admin_job_limit", 0, 100000), (ofString "panel_job_limit", 0, 1000000)] ++
  calendarLimitKeys.map fun key =>
    (key, 0, if (ofString "panel_").isPrefixOf key then 1000000 else 100000)

/-- This table is `DEFAULTS`. -/
def Environment.defaults (env : Environment) : List (Str × Str) :=
  [("default_provider", "anthropic"), ("anthropic_model", "claude-sonnet-4-6"),
    ("openai_model", "gpt-5-mini"), ("openai_base_url", "https://api.openai.com/v1"),
    ("source_language", "English"), ("target_languages", "zh-TW,zh-CN"), ("batch_size", "20"),
    ("workers", "4"), ("rpm", "0"), ("width", "16"), ("max_lines", "2"),
    ("rate_limit_window_minutes", "60"), ("user_job_limit", "0"), ("admin_job_limit", "0"),
    ("panel_job_limit", "0")].map (fun entry => (ofString entry.1, ofString entry.2)) ++
  [(ofString "registration_enabled", strip (env.get "REGISTRATION_ENABLED" "1")),
    (ofString "captcha_provider", env.lower (strip (env.get "CAPTCHA_PROVIDER" "none"))),
    (ofString "captcha_hostname", env.lower (strip (env.get "CAPTCHA_HOSTNAME" ""))),
    (ofString "captcha_on_login", strip (env.get "CAPTCHA_ON_LOGIN" "1")),
    (ofString "captcha_on_register", strip (env.get "CAPTCHA_ON_REGISTER" "1")),
    (ofString "captcha_on_upload", strip (env.get "CAPTCHA_ON_UPLOAD" "1")),
    (ofString "turnstile_site_key", strip (env.get "TURNSTILE_SITE_KEY" "")),
    (ofString "recaptcha_site_key", strip (env.get "RECAPTCHA_SITE_KEY" "")),
    (ofString "hcaptcha_site_key", strip (env.get "HCAPTCHA_SITE_KEY" ""))] ++
  calendarLimitKeys.map fun key => (key, ofString "0")

def secretKeys : List Str :=
  names ["anthropic_api_key", "openai_api_key", "deepl_api_key", "google_api_key",
    "turnstile_secret_key", "recaptcha_secret_key", "hcaptcha_secret_key"]

def Environment.publicKeys (env : Environment) : List Str := env.defaults.map Prod.fst

def Environment.allSettingKeys (env : Environment) : List Str := env.publicKeys ++ secretKeys

/-- This function is `available_providers`. -/
def Environment.availableProviders (env : Environment) : List Str :=
  names ["anthropic", "openai", "deepl", "google"] ++ if env.debug then names ["echo"] else []

/-- The keys that encrypt secrets are configured. -/
def Environment.stableKeys (env : Environment) : Bool :=
  strip (env.get "JWT_SECRET_KEY" "") ≠ [] || env.get "API_KEY_ENCRYPTION_KEY" "" ≠ []

def siteKeyName (provider : Str) : Str := provider ++ ofString "_site_key"

def secretKeyName (provider : Str) : Str := provider ++ ofString "_secret_key"

def apiKeyName (provider : Str) : Str := provider ++ ofString "_api_key"

/-- The ASCII capital letters are 32 code points before the small ones. -/
def raisePoint (c : CodePoint) : CodePoint := ⟨c.val - 0x20, (Nat.sub_le c.val 0x20).trans_lt c.isLt⟩

/-- The case conversion of the setting names, which are ASCII. -/
def upper (s : Str) : Str :=
  s.map fun c => if 0x61 ≤ c.val ∧ c.val ≤ 0x7a then raisePoint c else c

/-- The rows of the settings table, the scopes of the usage buckets and the cache revision. -/
structure PanelState where
  rows : Str → Option Str
  bucketScopes : List Str
  revision : Nat

/-- The parts of `settings_view` that the settings requests read. -/
structure SettingsView where
  values : Str → Option Str
  captchaConfigured : Str → Bool

/-- The value of a public setting, with its default. -/
def settingValue (env : Environment) (rows : Str → Option Str) (key : Str) : Option Str :=
  (env.defaults.lookup key).map fun default => (rows key).getD default

/-- A default provider that is not available any more is replaced. -/
def viewValue (env : Environment) (rows : Str → Option Str) (key : Str) : Option Str :=
  if key = ofString "default_provider" then
    (settingValue env rows key).map fun stored =>
      if stored ∈ env.availableProviders then stored else ofString "anthropic"
  else settingValue env rows key

/-- A secret is stored, or provided by the environment. -/
def secretAvailable (env : Environment) (rows : Str → Option Str) (provider : Str) : Bool :=
  (rows (secretKeyName provider)).getD [] ≠ [] ||
    (env.environ (upper (secretKeyName provider))).getD [] ≠ []

/-- This function is `settings_view` without secrets. -/
def settingsView (env : Environment) (rows : Str → Option Str) : SettingsView where
  values := viewValue env rows
  captchaConfigured := fun provider =>
    provider ∈ captchaProviders && (viewValue env rows (siteKeyName provider)).getD [] ≠ [] &&
      secretAvailable env rows provider

/-- This function is `stored_settings`. -/
def storedSettings (env : Environment) (s : PanelState) : SettingsView := settingsView env s.rows

/-- A refused request has a status and a message. -/
structure Refusal where
  status : Nat
  message : Str
  deriving DecidableEq

/-- A request that does not pass a check is refused. -/
def require (passed : Bool) (refusal : Refusal) : Except Refusal Unit :=
  if passed then .ok () else .error refusal

/-- A check raises its message. -/
def reject {Value : Type} (message : Str) : Except Str Value := .error message

/-- This function is `sorted`: the order of texts is the order of their code points. -/
def sorted (keys : List Str) : List Str := keys.insertionSort (· ≤ ·)

/-- This function is `validate_setting_types`. -/
def validateSettingTypes (payload : Payload) : Except Str Unit :=
  match (sorted payload.keys).find? fun key => (payload.lookup key).any (!isScalarSetting ·) with
  | some key => reject (key ++ ofString " must be text or a number")
  | none => .ok ()

/-- This function is `normalize_hostname`. -/
def normalizeHostname (env : Environment) (value : Str) : Str :=
  (env.lower (strip value)).rdropWhile (· == 0x2e)

def isHostLetter (c : CodePoint) : Bool := isAsciiDigit c || (0x61 ≤ c.val && c.val ≤ 0x7a)

def isHostCharacter (c : CodePoint) : Bool := isHostLetter c || c == 0x2d

/-- This pattern is `[a-z0-9](?:[a-z0-9-]{0,61}[a-z0-9])?`. -/
def hostLabelRe : Pattern CodePoint Unit := do
  let _ ← .one isHostLetter
  let _ ← .optional do
    let _ ← .upTo isHostCharacter 61
    .one isHostLetter
  pure ()

/-- This pattern is the part of `_HOSTNAME_PATTERN` after its lookahead. -/
def hostnameRe : Pattern CodePoint Unit := do
  let _ ← .star do
    let _ ← hostLabelRe
    .one (· == 0x2e)
  hostLabelRe

/-- This test is `_HOSTNAME_PATTERN.fullmatch`; its lookahead bounds the length of one line. -/
def isHostname (s : Str) : Bool :=
  1 ≤ s.length && s.length ≤ 253 && s.all (· != 0xa) && (hostnameRe.fullmatch? s).isSome

/-- A payload without a default provider, or with an empty one, leaves it as it is. -/
def validDefaultProvider (env : Environment) : Option JsonValue → Bool
  | none => true
  | some (.text value) => value = [] || value ∈ env.availableProviders
  | some (.number _ truth) => !truth
  | some (.other _) => false

/-- This function is `validate_choice_and_flag_settings`; it gives the payload with the normal form
of its hostname. -/
def validateChoiceAndFlagSettings (env : Environment) (payload : Payload) : Except Str Payload := do
  validateSettingTypes payload
  if !validDefaultProvider env (payload.lookup (ofString "default_provider")) then
    reject (ofString "Invalid default provider")
  else if (payload.lookup (ofString "captcha_provider")).any fun value =>
      value.clean ∉ ofString "none" :: captchaProviders then
    reject (ofString "Invalid CAPTCHA provider")
  else match booleanSettings.find? fun key => (payload.lookup key).any fun value =>
      value.clean ≠ ofString "0" && value.clean ≠ ofString "1" with
    | some key => reject (key ++ ofString " must be enabled or disabled")
    | none =>
        match payload.lookup (ofString "captcha_hostname") with
        | none => .ok payload
        | some value =>
            let hostname := normalizeHostname env value.str
            if hostname ≠ [] ∧ ¬isHostname hostname then
              reject (ofString "CAPTCHA hostname must be a hostname without a scheme or port")
            else .ok (payload.replace (ofString "captcha_hostname") (.text hostname))

/-- The whole number whose text is exactly `str(value)`. -/
def wholeNumber (text : Str) : Option Nat := (int? text).filter fun value => decimal value = text

/-- The bounds of `NUMBER_SETTINGS` are integers. -/
def boundText (bound : ℚ) : Str := decimal bound.num.toNat

/-- This function is `validate_numeric_settings`. -/
def validateNumericSettings (env : Environment) (payload : Payload) : Except Str Unit :=
  match numberSettings.find? fun (key, least, most) => (payload.lookup key).any fun value =>
      !(env.float value.clean).any fun number => least ≤ number && number ≤ most with
  | some (key, least, most) =>
      reject (key ++ ofString " must be between " ++ boundText least ++ ofString " and " ++
        boundText most)
  | none =>
      match integerSettings.find? fun (key, least, most) => (payload.lookup key).any fun value =>
          !(wholeNumber value.clean).any fun number => least ≤ number && number ≤ most with
      | some (key, least, most) =>
          reject (key ++ ofString " must be a whole number between " ++ decimal least ++
            ofString " and " ++ decimal most)
      | none => .ok ()

/-- The stored settings with the texts of a payload over them. -/
def combined (current : SettingsView) (payload : Payload) (key : Str) : Option Str :=
  ((payload.lookup key).map JsonValue.clean).or (current.values key)

/-- This function is `captcha_settings_error`. -/
def captchaSettingsError (current : SettingsView) (payload : Payload) : Option Str :=
  let captchaProvider := (combined current payload (ofString "captcha_provider")).getD []
  let siteKey := (combined current payload (siteKeyName captchaProvider)).getD []
  let secretConfigured :=
    (combined current payload (secretKeyName captchaProvider)).getD [] ≠ [] ||
      current.captchaConfigured captchaProvider
  if captchaProvider ∈ captchaProviders ∧
      (captchaActionSettings.any fun key => combined current payload key = some (ofString "1")) ∧
      (siteKey = [] ∨ secretConfigured = false) then
    some (ofString
      "Configure the selected CAPTCHA site key and secret key before enabling protection")
  else if captchaProvider ≠ ofString "none" ∧
      (combined current payload (ofString "captcha_hostname")).getD [] = [] then
    some (ofString "Enter the expected CAPTCHA hostname before selecting a CAPTCHA provider")
  else none

/-- This function is `encrypt_secret` for the token that the cipher makes of a text. -/
def encryptSecret (cipher : Str → Str) (value : Str) : Str := ofString "enc:v1:" ++ cipher value

/-- The text that a request stores for a key; a blank secret stores nothing. -/
def storedText (cipher : Str → Str) (key : Str) (value : JsonValue) : Option Str :=
  if key ∈ secretKeys then
    if value.clean = [] then none else some (encryptSecret cipher value.clean)
  else some value.clean

/-- The loop body of `save_settings` updates or inserts one row. -/
def writeSetting (cipher : Str → Str) (rows : Str → Option Str)
    (entry : Sigma fun _ : Str => JsonValue) : Str → Option Str :=
  match storedText cipher entry.1 entry.2 with
  | none => rows
  | some text => Function.update rows entry.1 (some text)

/-- A request changes a limit of the window. -/
def changesWindow (env : Environment) (rows : Str → Option Str) (payload : Payload) : Bool :=
  windowLimitKeys.any fun key => (payload.lookup key).any fun value =>
    some value.clean ≠ settingValue env rows key

/-- The buckets of a day, a week or a month survive a settings edit. -/
def isCalendarScope (scope : Str) : Bool :=
  (names [":daily", ":weekly", ":monthly"]).any (·.isSuffixOf scope)

/-- This function is `save_settings`: its checks before the transaction and its transaction. -/
def saveSettings (env : Environment) (cipher : Str → Str) (s : PanelState) (payload : Payload) :
    Except Refusal PanelState := do
  let unknown := payload.keys.filter (· ∉ env.allSettingKeys)
  require (unknown = [])
    ⟨400, ofString "Unknown settings: " ++ join (ofString ", ") (sorted unknown)⟩
  let payload ← (validateChoiceAndFlagSettings env payload).mapError (⟨400, ·⟩)
  let savesSecret := secretKeys.any fun key => (payload.lookup key).any (·.clean ≠ [])
  require (!savesSecret || env.stableKeys)
    ⟨503, ofString "Configure JWT_SECRET_KEY before saving secrets"⟩
  (validateNumericSettings env payload).mapError (⟨400, ·⟩)
  let error := captchaSettingsError (storedSettings env s) payload
  require error.isNone ⟨400, error.getD []⟩
  pure {
    rows := payload.entries.foldl (writeSetting cipher) s.rows
    bucketScopes :=
      if changesWindow env s.rows payload then s.bucketScopes.filter isCalendarScope
      else s.bucketScopes
    revision := s.revision + 1 }

/-- This function is `str.removeprefix`. -/
def removePrefix (front s : Str) : Str := if front.isPrefixOf s then s.drop front.length else s

/-- This function is `delete_key`. -/
def deleteKey (env : Environment) (s : PanelState) (provider : Str) :
    Except Refusal PanelState := do
  let captchaProvider := removePrefix (ofString "captcha-") provider
  let key := if (ofString "captcha-").isPrefixOf provider then secretKeyName captchaProvider
    else apiKeyName provider
  require (key ∈ secretKeys) ⟨404, ofString "Unknown provider"⟩
  let current := storedSettings env s
  let active := captchaProvider ∈ captchaProviders ∧
    current.values (ofString "captcha_provider") = some captchaProvider ∧
    captchaActionSettings.any fun name => current.values name = some (ofString "1")
  require (¬active) ⟨409, ofString "Disable CAPTCHA before removing its active secret key"⟩
  pure { s with rows := Function.update s.rows key none, revision := s.revision + 1 }

/-- The requests of any number of administrators; the settings row lock orders their transactions,
and the checks before a transaction read the payload only. -/
inductive SettingsRequest where
  | saveSettings (cipher : Str → Str) (payload : Payload)
  | deleteKey (provider : Str)

def SettingsRequest.answer (env : Environment) (s : PanelState) :
    SettingsRequest → Except Refusal PanelState
  | saveSettings cipher payload => Settings.saveSettings env cipher s payload
  | deleteKey provider => Settings.deleteKey env s provider

/-- A refused request leaves the state as it is. -/
def PanelState.step (env : Environment) (s : PanelState) (request : SettingsRequest) :
    Option PanelState :=
  match request.answer env s with
  | .ok next => some next
  | .error _ => some s

end SubtitleTranslator.Settings

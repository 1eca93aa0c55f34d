import SubtitleTranslator.Construction.Server
import SubtitleTranslator.Proof.AcceptedSettings
import SubtitleTranslator.Proof.ServerJobs

namespace SubtitleTranslator.Settings
open Library Library.Text

theorem lookup_defaults_secret (env : Environment) {key : Str} (secret : key ∈ secretKeys) :
    env.defaults.lookup key = none := by
  cases found : env.defaults.lookup key with
  | none => rfl
  | some default =>
      obtain ⟨before, after, split, _⟩ := List.lookup_eq_some_iff.mp found
      refine absurd ?_ (secretKeyName_not_public key secret)
      rw [← publicKeys_eq env, Environment.publicKeys, split]
      simp

/-- The checks of `save_settings`, which read the stored settings only as they are shown. -/
def acceptSettings (env : Environment) (view : SettingsView) (payload : Payload) :
    Except Refusal Payload := do
  let unknown := payload.keys.filter (· ∉ env.allSettingKeys)
  require (unknown = [])
    ⟨400, ofString "Unknown settings: " ++ join (ofString ", ") (sorted unknown)⟩
  let payload ← (validateChoiceAndFlagSettings env payload).mapError (⟨400, ·⟩)
  let savesSecret := secretKeys.any fun key => (payload.lookup key).any (·.clean ≠ [])
  require (!savesSecret || env.stableKeys)
    ⟨503, ofString "Configure JWT_SECRET_KEY before saving secrets"⟩
  (validateNumericSettings env payload).mapError (⟨400, ·⟩)
  let error := captchaSettingsError view payload
  require error.isNone ⟨400, error.getD []⟩
  pure payload

theorem saveSettings_eq (env : Environment) (cipher : Str → Str) (s : PanelState)
    (payload : Payload) :
    saveSettings env cipher s payload =
      (acceptSettings env (storedSettings env s) payload).map fun clean =>
        { rows := clean.entries.foldl (writeSetting cipher) s.rows
          bucketScopes :=
            if changesWindow env s.rows clean then s.bucketScopes.filter isCalendarScope
            else s.bucketScopes
          revision := s.revision + 1 } := by
  simp only [saveSettings, acceptSettings, Fallible.map_bind]
  rfl

/-- The checks change only the hostname. -/
theorem acceptSettings_lookup {env : Environment} {view : SettingsView} {payload clean : Payload}
    (accepted : acceptSettings env view payload = .ok clean) {key : Str}
    (apart : key ≠ ofString "captcha_hostname") : clean.lookup key = payload.lookup key := by
  rw [acceptSettings] at accepted
  obtain ⟨_, _, accepted⟩ := Fallible.bind_ok.mp accepted
  obtain ⟨checked, valid, accepted⟩ := Fallible.bind_ok.mp accepted
  obtain ⟨_, _, accepted⟩ := Fallible.bind_ok.mp accepted
  obtain ⟨_, _, accepted⟩ := Fallible.bind_ok.mp accepted
  obtain ⟨_, _, accepted⟩ := Fallible.bind_ok.mp accepted
  cases accepted
  have valid := Fallible.mapError_ok.mp valid
  rw [validateChoiceAndFlagSettings] at valid
  obtain ⟨_, _, valid⟩ := Fallible.bind_ok.mp valid
  split at valid
  · cases valid
  split at valid
  · cases valid
  split at valid
  · cases valid
  split at valid
  · cases valid
    rfl
  · dsimp only at valid
    split at valid
    · cases valid
    · cases valid
      rw [lookup_replace, if_neg apart]

/-- The checks of `delete_key`, which give the key that it removes. -/
def acceptDelete (view : SettingsView) (provider : Str) :
    Except Refusal Str := do
  let captchaProvider := removePrefix (ofString "captcha-") provider
  let key := if (ofString "captcha-").isPrefixOf provider then secretKeyName captchaProvider
    else apiKeyName provider
  require (key ∈ secretKeys) ⟨404, ofString "Unknown provider"⟩
  let active := captchaProvider ∈ captchaProviders ∧
    view.values (ofString "captcha_provider") = some captchaProvider ∧
    captchaActionSettings.any fun name => view.values name = some (ofString "1")
  require (¬active) ⟨409, ofString "Disable CAPTCHA before removing its active secret key"⟩
  pure key

theorem deleteKey_eq (env : Environment) (s : PanelState) (provider : Str) :
    deleteKey env s provider = (acceptDelete (storedSettings env s) provider).map fun key =>
      { s with rows := Function.update s.rows key none, revision := s.revision + 1 } := by
  simp only [deleteKey, acceptDelete, Fallible.map_bind]
  rfl

theorem acceptDelete_secret {view : SettingsView} {provider key : Str}
    (accepted : acceptDelete view provider = .ok key) : key ∈ secretKeys := by
  rw [acceptDelete] at accepted
  obtain ⟨_, known, accepted⟩ := Fallible.bind_ok.mp accepted
  obtain ⟨_, _, accepted⟩ := Fallible.bind_ok.mp accepted
  cases accepted
  exact of_decide_eq_true (require_ok known)

end SubtitleTranslator.Settings

namespace SubtitleTranslator.Server
open Library Library.Text Settings

section Rows
variable {env : Environment} {fernet : Fernet} {rows plain : Str → Option Str}

/-- The rows of a server, beside the rows that its settings requests alone leave: the startups add
defaults and encrypt secrets. -/
structure Upgraded (env : Environment) (fernet : Fernet) (rows plain : Str → Option Str) : Prop where
  settings : ∀ key, key ∉ secretKeys →
    rows key = plain key ∨ plain key = none ∧ rows key = env.defaults.lookup key
  secrets : ∀ key ∈ secretKeys, rows key = plain key ∨ ∃ text random, plain key = some text ∧
    text ≠ [] ∧ isEncrypted text = false ∧
      rows key = some (encryptSecret (fernet.encrypt random) text)

theorem isEncrypted_encryptSecret (cipher : Str → Str) (text : Str) :
    isEncrypted (encryptSecret cipher text) = true :=
  List.isPrefixOf_iff_prefix.mpr (List.prefix_append _ _)

theorem decrypt_encryptSecret (fernet : Fernet) (random : Nat) (text : Str) :
    fernet.decryptSecret (encryptSecret (fernet.encrypt random) text) = some text := by
  rw [Fernet.decryptSecret, if_pos (isEncrypted_encryptSecret _ _), encryptSecret]
  exact fernet.correct random text

/-- The startups do not change what a setting reads as. -/
theorem Upgraded.settingValue (upgraded : Upgraded env fernet rows plain) (key : Str) :
    settingValue env rows key = settingValue env plain key := by
  unfold Settings.settingValue
  by_cases secret : key ∈ secretKeys
  · rw [lookup_defaults_secret env secret]
    rfl
  · rcases upgraded.settings key secret with same | ⟨absent, seeded⟩
    · rw [same]
    · rw [absent, seeded]
      cases env.defaults.lookup key <;> rfl

/-- The startups do not change what a secret decrypts to. -/
theorem Upgraded.decryptSecret (upgraded : Upgraded env fernet rows plain) {key : Str}
    (secret : key ∈ secretKeys) :
    (rows key).map fernet.decryptSecret = (plain key).map fernet.decryptSecret := by
  rcases upgraded.secrets key secret with same | ⟨text, random, stored, _, bare, encrypted⟩
  · rw [same]
  · rw [stored, encrypted, Option.map_some, Option.map_some, decrypt_encryptSecret,
      Fernet.decryptSecret, if_neg (by rw [bare]; exact Bool.false_ne_true)]

theorem Upgraded.settingsView (upgraded : Upgraded env fernet rows plain) :
    settingsView env rows = settingsView env plain := by
  have values : viewValue env rows = viewValue env plain := by
    funext key
    rw [viewValue, viewValue, upgraded.settingValue]
  have available : ∀ provider ∈ captchaProviders,
      secretAvailable env rows provider = secretAvailable env plain provider := by
    intro provider listed
    rw [secretAvailable, secretAvailable]
    rcases upgraded.secrets _ (secretKeyName_secret provider listed).1 with
      same | ⟨text, random, stored, filled, _, encrypted⟩
    · rw [same]
    · have shown : encryptSecret (fernet.encrypt random) text ≠ [] :=
        List.append_ne_nil_of_left_ne_nil (by decide) _
      rw [stored, encrypted, Option.getD_some, Option.getD_some, decide_eq_true shown,
        decide_eq_true filled]
  unfold Settings.settingsView
  rw [values]
  congr 1
  funext provider
  by_cases listed : provider ∈ captchaProviders
  · rw [available provider listed]
  · rw [decide_eq_false listed, Bool.false_and, Bool.false_and, Bool.false_and]

/-- The secrets that a startup reads. -/
def secretRows (rows : Str → Option Str) : List (Str × Str) :=
  secretKeys.filterMap fun key => (rows key).map (key, ·)

theorem mem_secretRows {row : Str × Str} :
    row ∈ secretRows rows ↔ row.1 ∈ secretKeys ∧ rows row.1 = some row.2 := by
  rw [secretRows, List.mem_filterMap]
  constructor
  · rintro ⟨key, secret, found⟩
    obtain ⟨text, stored, rfl⟩ := Option.map_eq_some_iff.mp found
    exact ⟨secret, stored⟩
  · rintro ⟨secret, stored⟩
    exact ⟨row.1, secret, by rw [stored]; rfl⟩

theorem encryptRow_of_ne (cipher : Str → Str) {key : Str} {row : Str × Str} (apart : key ≠ row.1) :
    ServerState.encryptRow cipher rows row key = rows key := by
  unfold ServerState.encryptRow
  split
  · exact Function.update_of_ne apart _ _
  · rfl

/-- A row whose secret was read as empty, as encrypted or not at all stays as it is. -/
theorem foldl_encryptRow_other (cipher : Str → Str) {found : List (Str × Str)} {key : Str}
    (other : ∀ text, (key, text) ∈ found → text = [] ∨ isEncrypted text = true) :
    found.foldl (ServerState.encryptRow cipher) rows key = rows key := by
  induction found generalizing rows with
  | nil => rfl
  | cons row rest ih =>
      rw [List.foldl_cons, ih fun text member => other text (List.mem_cons_of_mem _ member)]
      by_cases same : key = row.1
      · subst same
        rw [ServerState.encryptRow, if_neg]
        rintro ⟨filled, bare⟩
        rcases other row.2 List.mem_cons_self with empty | encrypted
        · exact filled empty
        · exact bare encrypted
      · exact encryptRow_of_ne cipher same

/-- A row whose secret was read as plain text is encrypted if it is still there. -/
theorem foldl_encryptRow (cipher : Str → Str) {found : List (Str × Str)}
    (distinct : (found.map Prod.fst).Nodup) {key text : Str} (read : (key, text) ∈ found)
    (filled : text ≠ []) (bare : isEncrypted text = false) :
    found.foldl (ServerState.encryptRow cipher) rows key =
      (rows key).map fun _ => encryptSecret cipher text := by
  induction found generalizing rows with
  | nil => cases read
  | cons row rest ih =>
      rw [List.map_cons, List.nodup_cons] at distinct
      rw [List.foldl_cons]
      rcases List.mem_cons.mp read with rfl | later
      · rw [foldl_encryptRow_other cipher fun other member =>
          absurd (List.mem_map_of_mem member) distinct.1, ServerState.encryptRow, if_pos]
        · exact Function.update_self _ _ _
        · exact ⟨filled, by rw [bare]; exact Bool.false_ne_true⟩
      · rw [ih distinct.2 later, encryptRow_of_ne]
        rintro rfl
        exact distinct.1 (List.mem_map.mpr ⟨_, later, rfl⟩)

/-- The startup inserts the rows that it has found missing. -/
theorem foldl_insertRow {entries : List (Str × Str)} (distinct : (entries.map Prod.fst).Nodup)
    (rows : Str → Option Str) (key : Str) :
    entries.foldl ServerState.insertRow rows key = (entries.lookup key).or (rows key) := by
  induction entries generalizing rows with
  | nil => rfl
  | cons entry rest ih =>
      rw [List.map_cons, List.nodup_cons] at distinct
      rw [List.foldl_cons, ih distinct.2, List.lookup_cons]
      by_cases same : key = entry.1
      · subst same
        have later : rest.lookup entry.1 = none :=
          List.lookup_eq_none_iff.mpr fun other member => by
            rw [bne_iff_ne]
            rintro equal
            exact distinct.1 (equal ▸ List.mem_map_of_mem member)
        rw [later, beq_self_eq_true, ServerState.insertRow, Function.update_self]
        rfl
      · rw [beq_eq_false_iff_ne.mpr same, ServerState.insertRow, Function.update_of_ne same]

theorem lookup_of_mem {entries : List (Str × Str)} (distinct : (entries.map Prod.fst).Nodup)
    {key text : Str} (member : (key, text) ∈ entries) : entries.lookup key = some text := by
  induction entries with
  | nil => cases member
  | cons entry rest ih =>
      rw [List.map_cons, List.nodup_cons] at distinct
      rw [List.lookup_cons]
      rcases List.mem_cons.mp member with rfl | later
      · rw [beq_self_eq_true]
      · have apart : key ≠ entry.1 := by
          rintro rfl
          exact distinct.1 (List.mem_map.mpr ⟨_, later, rfl⟩)
        rw [beq_eq_false_iff_ne.mpr apart]
        exact ih distinct.2 later

theorem defaults_distinct (env : Environment) : (env.defaults.map Prod.fst).Nodup := by
  change env.publicKeys.Nodup
  rw [publicKeys_eq]
  decide +kernel

theorem secretRows_distinct (rows : Str → Option Str) :
    ((secretRows rows).map Prod.fst).Nodup := by
  have keys : secretKeys.Nodup := by decide +kernel
  refine keys.sublist ?_
  unfold secretRows
  induction secretKeys with
  | nil => exact List.Sublist.refl _
  | cons key rest ih =>
      rw [List.filterMap_cons]
      cases rows key with
      | none => exact ih.cons key
      | some text => exact ih.cons_cons key

end Rows

/-- Every default has a row. -/
def Complete (env : Environment) (rows : Str → Option Str) : Prop :=
  ∀ key ∈ env.publicKeys, (rows key).isSome = true

/-- Every secret that is not empty is encrypted. -/
def AtRest (rows : Str → Option Str) : Prop :=
  ∀ key ∈ secretKeys, ∀ value, rows key = some value → value = [] ∨ isEncrypted value = true

/-- The plain secrets that a process has read are still the saved ones, if they are not removed. -/
def Current (plain : Str → Option Str) (found : List (Str × Str)) : Prop :=
  ∀ row ∈ found, row.2 ≠ [] → isEncrypted row.2 = false →
    plain row.1 = some row.2 ∨ plain row.1 = none

/-- What holds of a process. -/
def ProcessHolds (env : Environment) (rows plain : Str → Option Str) (process : Process) : Prop :=
  match process.phase with
  | .seeding _ none | .supervising => True
  | .seeding _ (some missing) =>
      ∃ old : Str → Option Str,
        missing = (process.role.defaults env).filter (fun entry => (old entry.1).isNone) ∧
          ∀ key ∈ env.publicKeys, (old key).isSome = true → (rows key).isSome = true
  | .encrypting _ none => Complete env rows
  | .encrypting _ (some found) =>
      Complete env rows ∧ Current plain found ∧ ∃ old : Str → Option Str, found = secretRows old ∧
        ∀ key ∈ secretKeys, rows key = old key ∨
          ∀ value, rows key = some value → isEncrypted value = true
  | .serving => Complete env rows ∧ (env.stableKeys = true → AtRest rows)

/-- The server beside the settings that its requests alone leave. -/
structure Refines (env : Environment) (fernet : Fernet) (s : ServerState) (plain : PanelState) :
    Prop where
  rows : Upgraded env fernet s.panel.rows plain.rows
  buckets : s.panel.bucketScopes = plain.bucketScopes
  processes : ∀ p process, s.processes p = some process →
    ProcessHolds env s.panel.rows plain.rows process

/-- The settings request of an event. -/
def ServerEvent.request? (fernet : Fernet) : ServerEvent → Option SettingsRequest
  | .saveSettings _ random payload => some (.saveSettings (fernet.encrypt random) payload)
  | .deleteKey _ provider => some (.deleteKey provider)
  | _ => none

/-- A request saves no secret that a startup has read as plain text and will encrypt. -/
def Undisturbed (s : ServerState) : ServerEvent → Prop
  | .saveSettings _ _ payload => ∀ p role attempt found,
      s.processes p = some ⟨role, .encrypting attempt (some found)⟩ →
        ∀ row ∈ found, row.2 ≠ [] → isEncrypted row.2 = false →
          ∀ value ∈ payload.lookup row.1, value.clean = []
  | _ => True

section Steps
variable {env : Environment} {fernet : Fernet} {s next : ServerState} {plain : PanelState}
variable {rows newRows plainRows newPlain : Str → Option Str}

/-- A process stays as it is while rows are added, removed secrets apart, and secrets are stored
encrypted. -/
theorem ProcessHolds.mono {process : Process} (holds : ProcessHolds env rows plainRows process)
    (added : ∀ key ∈ env.publicKeys, (rows key).isSome = true → (newRows key).isSome = true)
    (secret : ∀ key ∈ secretKeys, newRows key = rows key ∨
      ∀ value, newRows key = some value → isEncrypted value = true)
    (current : ∀ attempt found, process.phase = .encrypting attempt (some found) →
      Current plainRows found → Current newPlain found) :
    ProcessHolds env newRows newPlain process := by
  have complete (all : Complete env rows) : Complete env newRows := fun key listed =>
    added key listed (all key listed)
  obtain ⟨role, phase⟩ := process
  unfold ProcessHolds at holds ⊢
  match phase with
  | .seeding _ none => trivial
  | .supervising => trivial
  | .seeding _ (some missing) =>
      obtain ⟨old, same, kept⟩ := holds
      exact ⟨old, same, fun key listed there => added key listed (kept key listed there)⟩
  | .encrypting _ none => exact complete holds
  | .encrypting attempt (some found) =>
      obtain ⟨all, now, old, same, kept⟩ := holds
      refine ⟨complete all, current attempt found rfl now, old, same, fun key listed => ?_⟩
      rcases secret key listed with stays | encrypted
      · rw [stays]
        exact kept key listed
      · exact .inr encrypted
  | .serving =>
      refine ⟨complete holds.1, fun stable key listed value stored => ?_⟩
      rcases secret key listed with stays | encrypted
      · rw [stays] at stored
        exact holds.2 stable key listed value stored
      · exact .inr (encrypted value stored)

theorem Refines.setProcess (before : Refines env fernet s plain) {p : Nat} {new : Option Process}
    (holds : ∀ process, new = some process → ProcessHolds env s.panel.rows plain.rows process) :
    Refines env fernet (s.setProcess p new) plain := by
  refine ⟨before.rows, before.buckets, fun q process here => ?_⟩
  simp only [ServerState.setProcess] at here
  by_cases same : q = p
  · rw [same, Function.update_self] at here
    exact holds process here
  · rw [Function.update_of_ne same] at here
    exact before.processes q process here

theorem Refines.retry (before : Refines env fernet s plain) {p attempt : Nat} {role : Role}
    {phase : Nat → Phase}
    (holds : ∀ attempt, ProcessHolds env s.panel.rows plain.rows ⟨role, phase attempt⟩) :
    Refines env fernet (s.retry p role attempt phase) plain := by
  unfold ServerState.retry
  refine before.setProcess fun process here => ?_
  split at here
  · cases here
    exact holds _
  · cases here

/-- The seed of a startup fills in defaults. -/
theorem Refines.seed (before : Refines env fernet s plain) {p attempt : Nat} {role : Role}
    {missing : List (Str × Str)} (live : s.processes p = some ⟨role, .seeding attempt (some missing)⟩)
    (absent : ∀ entry ∈ missing, s.panel.rows entry.1 = none) {panel : PanelState}
    (rows : panel.rows = missing.foldl ServerState.insertRow s.panel.rows)
    (buckets : panel.bucketScopes = s.panel.bucketScopes) :
    Refines env fernet
      { s.setProcess p
          (some ⟨role, if role = .supervisor then .supervising else .encrypting 0 none⟩) with
        panel := panel } plain := by
  obtain ⟨old, same, kept⟩ := before.processes p _ live
  dsimp only at same
  have inDefaults : missing.Sublist env.defaults := by
    rw [same]
    cases role with
    | supervisor => exact List.nil_sublist _
    | alone | worker => exact List.filter_sublist
  have value (key : Str) : panel.rows key = (missing.lookup key).or (s.panel.rows key) := by
    rw [rows, foldl_insertRow ((defaults_distinct env).sublist (inDefaults.map Prod.fst))]
  have added {key text : Str} (found : missing.lookup key = some text) :
      s.panel.rows key = none ∧ env.defaults.lookup key = some text := by
    obtain ⟨front, back, split, _⟩ := List.lookup_eq_some_iff.mp found
    have member : (key, text) ∈ missing := by
      rw [split]
      simp
    exact ⟨absent _ member, lookup_of_mem (defaults_distinct env) (inDefaults.subset member)⟩
  have public_ {key : Str} (there : (s.panel.rows key).isSome = true) :
      (panel.rows key).isSome = true := by
    rw [value, Option.isSome_or, there, Bool.or_true]
  have secret {key : Str} (listed : key ∈ secretKeys) : panel.rows key = s.panel.rows key := by
    rw [value]
    cases found : missing.lookup key with
    | none => rfl
    | some text => cases (lookup_defaults_secret env listed).symm.trans (added found).2
  refine ⟨⟨fun key plain_ => ?_, fun key listed => ?_⟩, buckets.trans before.buckets,
    fun q process here => ?_⟩
  · dsimp only
    rw [value]
    cases found : missing.lookup key with
    | none => exact before.rows.settings key plain_
    | some text =>
        obtain ⟨none_, default⟩ := added found
        refine .inr ⟨?_, default.symm⟩
        rcases before.rows.settings key plain_ with stays | ⟨gone, _⟩
        · exact stays ▸ none_
        · exact gone
  · dsimp only
    rw [secret listed]
    exact before.rows.secrets key listed
  · dsimp only at here ⊢
    by_cases one : q = p
    · simp only [ServerState.setProcess, one, Function.update_self] at here
      cases here
      split
      · trivial
      · next works =>
          intro key listed
          obtain ⟨entry, member, rfl⟩ := List.mem_map.mp listed
          cases there : old entry.1 with
          | some text => exact public_ (kept entry.1 listed (by rw [there]; rfl))
          | none =>
              have inMissing : entry ∈ missing := by
                rw [same]
                refine List.mem_filter.mpr ⟨?_, by rw [there]; rfl⟩
                cases role with
                | supervisor => exact absurd rfl works
                | alone | worker => exact member
              rw [value, Option.isSome_or, List.lookup_isSome_iff.mpr
                ⟨entry, inMissing, beq_self_eq_true _⟩, Bool.true_or]
    · simp only [ServerState.setProcess, Function.update_of_ne one] at here
      exact (before.processes q process here).mono (fun _ _ => public_)
        (fun key listed => .inl (secret listed)) fun _ _ _ => id

/-- The secrets that a startup has read are encrypted. -/
theorem Refines.encrypt (before : Refines env fernet s plain) {p attempt random : Nat} {role : Role}
    {found : List (Str × Str)} (live : s.processes p = some ⟨role, .encrypting attempt (some found)⟩)
    {panel : PanelState}
    (rows : panel.rows = found.foldl (ServerState.encryptRow (fernet.encrypt random)) s.panel.rows)
    (buckets : panel.bucketScopes = s.panel.bucketScopes) :
    Refines env fernet { s.setProcess p (some ⟨role, .serving⟩) with panel := panel } plain := by
  obtain ⟨complete, current, old, same, kept⟩ := before.processes p _ live
  have secretFound {row : Str × Str} (read : row ∈ found) : row.1 ∈ secretKeys := by
    rw [same] at read
    exact (mem_secretRows.mp read).1
  -- A secret was read as plain text and is encrypted, or its row stays as it is.
  have value (key : Str) :
      (∃ text, (key, text) ∈ found ∧ text ≠ [] ∧ isEncrypted text = false ∧ panel.rows key =
        (s.panel.rows key).map fun _ => encryptSecret (fernet.encrypt random) text) ∨
      panel.rows key = s.panel.rows key ∧
        ∀ text, (key, text) ∈ found → text = [] ∨ isEncrypted text = true := by
    by_cases read : ∃ text, (key, text) ∈ found ∧ text ≠ [] ∧ isEncrypted text = false
    · obtain ⟨text, member, filled, bare⟩ := read
      refine .inl ⟨text, member, filled, bare, ?_⟩
      rw [rows]
      exact foldl_encryptRow _ (same ▸ secretRows_distinct old) member filled bare
    · have other : ∀ text, (key, text) ∈ found → text = [] ∨ isEncrypted text = true := by
        intro text member
        by_contra plain_
        rw [not_or, Bool.not_eq_true] at plain_
        exact read ⟨text, member, plain_⟩
      refine .inr ⟨?_, other⟩
      rw [rows]
      exact foldl_encryptRow_other _ other
  have secret (key : Str) : panel.rows key = s.panel.rows key ∨
      ∀ value, panel.rows key = some value → isEncrypted value = true := by
    rcases value key with ⟨text, _, _, _, stored⟩ | ⟨stays, _⟩
    · refine .inr fun value new => ?_
      rw [stored] at new
      obtain ⟨_, _, rfl⟩ := Option.map_eq_some_iff.mp new
      exact isEncrypted_encryptSecret _ _
    · exact .inl stays
  have public_ : ∀ key ∈ env.publicKeys, panel.rows key = s.panel.rows key := by
    intro key listed
    rcases value key with ⟨text, read, _⟩ | ⟨stays, _⟩
    · rw [publicKeys_eq] at listed
      exact absurd listed (secretKeyName_not_public key (secretFound read))
    · exact stays
  refine ⟨⟨fun key plain_ => ?_, fun key listed => ?_⟩, buckets.trans before.buckets,
    fun q process here => ?_⟩
  · rcases value key with ⟨text, read, _⟩ | ⟨stays, _⟩
    · exact absurd (secretFound read) plain_
    · dsimp only
      rw [stays]
      exact before.rows.settings key plain_
  · dsimp only
    rcases value key with ⟨text, read, filled, bare, stored⟩ | ⟨stays, _⟩
    · rcases current (key, text) read filled bare with saved | removed
      · refine .inr ⟨text, random, saved, filled, bare, ?_⟩
        rw [stored]
        rcases before.rows.secrets key listed with stays | ⟨_, _, _, _, _, encrypted⟩
        · rw [stays, saved]
          rfl
        · rw [encrypted]
          rfl
      · refine .inl ?_
        dsimp only at removed
        rw [stored, removed]
        rcases before.rows.secrets key listed with stays | ⟨_, _, saved, _⟩
        · rw [stays, removed]
          rfl
        · cases saved.symm.trans removed
    · rw [stays]
      exact before.rows.secrets key listed
  · dsimp only at here ⊢
    by_cases one : q = p
    · simp only [ServerState.setProcess, one, Function.update_self] at here
      cases here
      refine ⟨fun key listed => (public_ key listed).symm ▸ complete key listed,
        fun _ key listed text stored => ?_⟩
      rcases value key with ⟨_, _, _, _, encrypted⟩ | ⟨stays, other⟩
      · rw [encrypted] at stored
        obtain ⟨_, _, rfl⟩ := Option.map_eq_some_iff.mp stored
        exact .inr (isEncrypted_encryptSecret _ _)
      · rw [stays] at stored
        rcases kept key listed with read | encrypted
        · rw [read] at stored
          refine other text ?_
          rw [same]
          exact mem_secretRows.mpr ⟨listed, stored⟩
        · exact .inr (encrypted text stored)
    · simp only [ServerState.setProcess, Function.update_of_ne one] at here
      exact (before.processes q process here).mono
        (fun key listed there => by rw [public_ key listed]; exact there)
        (fun key _ => secret key) fun _ _ _ => id

/-- A request to save settings is answered as it would be without the startups. -/
theorem Refines.save (before : Refines env fernet s plain) {p random : Nat} {payload : Payload}
    (undisturbed : Undisturbed s (.saveSettings p random payload)) {panel : PanelState}
    (saved : s.panel.step env (.saveSettings (fernet.encrypt random) payload) = some panel) :
    ∃ after, plain.step env (.saveSettings (fernet.encrypt random) payload) = some after ∧
      Refines env fernet { s with panel := panel } after := by
  have view : storedSettings env s.panel = storedSettings env plain := before.rows.settingsView
  simp only [PanelState.step, SettingsRequest.answer, saveSettings_eq, view] at saved ⊢
  cases accepted : acceptSettings env (storedSettings env plain) payload with
  | error refusal =>
      rw [accepted] at saved
      cases saved
      exact ⟨plain, rfl, before⟩
  | ok clean =>
      rw [accepted] at saved
      cases saved
      refine ⟨_, rfl, ⟨fun key plain_ => ?_, fun key listed => ?_⟩, ?_, fun p process here => ?_⟩
      · dsimp only
        rw [foldl_writeSetting _ clean.nodupKeys, foldl_writeSetting _ clean.nodupKeys]
        cases (clean.entries.dlookup key).bind (storedText (fernet.encrypt random) key) with
        | none => exact before.rows.settings key plain_
        | some text => exact .inl rfl
      · dsimp only
        rw [foldl_writeSetting _ clean.nodupKeys, foldl_writeSetting _ clean.nodupKeys]
        cases (clean.entries.dlookup key).bind (storedText (fernet.encrypt random) key) with
        | none => exact before.rows.secrets key listed
        | some text => exact .inl rfl
      · have windows : changesWindow env s.panel.rows clean = changesWindow env plain.rows clean := by
          simp only [changesWindow, before.rows.settingValue]
        dsimp only
        rw [windows, before.buckets]
      · refine (before.processes p process here).mono (fun key listed there => ?_)
          (fun key listed => ?_) fun attempt found reads current row read filled bare => ?_
        · dsimp only
          rw [foldl_writeSetting _ clean.nodupKeys, Option.isSome_or, there, Bool.or_true]
        · dsimp only
          rw [foldl_writeSetting _ clean.nodupKeys]
          cases given : clean.entries.dlookup key with
          | none => exact .inl rfl
          | some value =>
              rw [Option.bind_some, storedText, if_pos listed]
              split
              · exact .inl rfl
              · refine .inr fun text stored => ?_
                cases stored
                exact isEncrypted_encryptSecret _ _
        · -- The request gives no value for a secret that is waiting to be encrypted.
          obtain ⟨role, phase⟩ := process
          cases reads
          have secret : row.1 ∈ secretKeys := by
            obtain ⟨_, _, old, same, _⟩ := before.processes p _ here
            rw [same] at read
            exact (mem_secretRows.mp read).1
          have apart : row.1 ≠ ofString "captcha_hostname" := by
            intro equal
            rw [equal] at secret
            exact absurd secret (by decide +kernel)
          have unsaved : (clean.entries.dlookup row.1).bind
              (storedText (fernet.encrypt random) row.1) = none := by
            have given : clean.entries.dlookup row.1 = payload.lookup row.1 :=
              acceptSettings_lookup accepted apart
            rw [given]
            cases there : payload.lookup row.1 with
            | none => rfl
            | some value =>
                have blank := undisturbed p role attempt found here row read filled bare value there
                rw [Option.bind_some, storedText, if_pos secret, if_pos blank]
          dsimp only
          rw [foldl_writeSetting _ clean.nodupKeys, unsaved]
          exact current row read filled bare

theorem Refines.delete (before : Refines env fernet s plain) {provider : Str} {panel : PanelState}
    (deleted : s.panel.step env (.deleteKey provider) = some panel) :
    ∃ after, plain.step env (.deleteKey provider) = some after ∧
      Refines env fernet { s with panel := panel } after := by
  have view : storedSettings env s.panel = storedSettings env plain := before.rows.settingsView
  simp only [PanelState.step, SettingsRequest.answer, deleteKey_eq, view] at deleted ⊢
  cases accepted : acceptDelete (storedSettings env plain) provider with
  | error refusal =>
      rw [accepted] at deleted
      cases deleted
      exact ⟨plain, rfl, before⟩
  | ok name =>
      rw [accepted] at deleted
      cases deleted
      have known := acceptDelete_secret accepted
      refine ⟨_, rfl, ⟨fun key plain_ => ?_, fun key listed => ?_⟩, before.buckets,
        fun p process here => ?_⟩
      · have apart : key ≠ name := fun equal => plain_ (equal ▸ known)
        dsimp only
        rw [Function.update_of_ne apart, Function.update_of_ne apart]
        exact before.rows.settings key plain_
      · dsimp only
        by_cases same : key = name
        · rw [same, Function.update_self, Function.update_self]
          exact .inl rfl
        · rw [Function.update_of_ne same, Function.update_of_ne same]
          exact before.rows.secrets key listed
      · refine (before.processes p process here).mono (fun key listed there => ?_)
          (fun key listed => ?_) fun attempt found reads current row read filled bare => ?_
        · have apart : key ≠ name := by
            rintro rfl
            rw [publicKeys_eq] at listed
            exact secretKeyName_not_public key known listed
          dsimp only
          rw [Function.update_of_ne apart]
          exact there
        · dsimp only
          by_cases same : key = name
          · rw [same, Function.update_self]
            exact .inr fun value stored => absurd stored (Option.some_ne_none value).symm
          · exact .inl (Function.update_of_ne same _ _)
        · dsimp only
          by_cases same : row.1 = name
          · rw [same, Function.update_self]
            exact .inr rfl
          · rw [Function.update_of_ne same]
            exact current row read filled bare

/-- A step of the server answers its settings request, or leaves the settings as they read. -/
theorem Refines.step (before : Refines env fernet s plain) {event : ServerEvent}
    (undisturbed : Undisturbed s event) (stepped : s.step env fernet event = some next) :
    ∃ after, Machine.run (PanelState.step env) plain (event.request? fernet).toList = some after ∧
      Refines env fernet next after := by
  have single {request : SettingsRequest} {after : PanelState}
      (answered : plain.step env request = some after) :
      Machine.run (PanelState.step env) plain [request] = some after :=
    (Machine.run_cons _).mpr ⟨after, answered, rfl⟩
  cases event with
  | launch supervised =>
      simp only [ServerState.step] at stepped
      split at stepped <;> cases stepped
      refine ⟨plain, rfl, ?_⟩
      have started : Refines env fernet (s.setProcess s.started
          (some ⟨if supervised then .supervisor else .alone, .seeding 0 none⟩)) plain :=
        before.setProcess fun process here => by cases here; trivial
      exact ⟨started.rows, started.buckets, started.processes⟩
  | fork =>
      simp only [ServerState.step] at stepped
      split at stepped <;> cases stepped
      refine ⟨plain, rfl, ?_⟩
      have started : Refines env fernet
          (s.setProcess s.started (some ⟨.worker, .seeding 0 none⟩)) plain :=
        before.setProcess fun process here => by cases here; trivial
      exact ⟨started.rows, started.buckets, started.processes⟩
  | readSettings p =>
      simp only [ServerState.step] at stepped
      split at stepped <;> cases stepped
      refine ⟨plain, rfl, before.setProcess fun process here => ?_⟩
      cases here
      exact ⟨s.panel.rows, rfl, fun _ _ => id⟩
  | commitSeed p =>
      simp only [ServerState.step] at stepped
      split at stepped
      · next role attempt missing live =>
          split at stepped
          · cases stepped
            exact ⟨plain, rfl, before.retry fun _ => trivial⟩
          · next free =>
              cases stepped
              refine ⟨plain, rfl, ?_⟩
              have absent : ∀ entry ∈ missing, s.panel.rows entry.1 = none := by
                intro entry member
                rw [List.any_eq_true, not_exists] at free
                by_contra there
                exact free entry ⟨member, Option.isSome_iff_ne_none.mpr there⟩
              let panel : PanelState := { s.panel with
                rows := missing.foldl ServerState.insertRow s.panel.rows
                revision := s.panel.revision + 1 }
              have seeded : Refines env fernet { s.setProcess p (some ⟨role, if role = .supervisor
                  then .supervising else .encrypting 0 none⟩) with panel := panel } plain :=
                before.seed live absent rfl rfl
              exact ⟨seeded.rows, seeded.buckets, seeded.processes⟩
      · cases stepped
  | databaseError p =>
      simp only [ServerState.step] at stepped
      split at stepped
      · cases stepped
        exact ⟨plain, rfl, before.retry fun _ => trivial⟩
      · next role attempt found live =>
          cases stepped
          refine ⟨plain, rfl, before.retry fun _ => ?_⟩
          have holds := before.processes p _ live
          cases found with
          | none => exact holds
          | some found => exact holds.1
      · cases stepped
  | readSecrets p =>
      simp only [ServerState.step] at stepped
      split at stepped
      · next role attempt live =>
          have complete : Complete env s.panel.rows := before.processes p _ live
          split at stepped
          · cases stepped
            refine ⟨plain, rfl, before.setProcess fun process here => ?_⟩
            cases here
            refine ⟨complete, fun row read filled bare => ?_, s.panel.rows, rfl, fun _ _ => .inl rfl⟩
            obtain ⟨secret, stored⟩ := mem_secretRows.mp read
            rcases before.rows.secrets row.1 secret with same | ⟨_, _, _, _, _, encrypted⟩
            · exact .inl (same ▸ stored)
            · rw [stored] at encrypted
              rw [Option.some.inj encrypted, isEncrypted_encryptSecret] at bare
              cases bare
          · next unstable =>
              cases stepped
              refine ⟨plain, rfl, before.setProcess fun process here => ?_⟩
              cases here
              exact ⟨complete, fun stable => absurd stable unstable⟩
      · cases stepped
  | commitSecrets p random =>
      simp only [ServerState.step] at stepped
      split at stepped
      · next role attempt found live =>
          split at stepped
          · cases stepped
            exact ⟨plain, rfl, before.setProcess fun _ here => by cases here⟩
          · cases stepped
            exact ⟨plain, rfl, before.encrypt live rfl rfl⟩
      · cases stepped
  | saveSettings p random payload =>
      simp only [ServerState.step] at stepped
      split at stepped
      · obtain ⟨panel, saved, rfl⟩ := Option.map_eq_some_iff.mp stepped
        obtain ⟨after, answered, refines⟩ := before.save undisturbed saved
        exact ⟨after, single answered, refines⟩
      · cases stepped
  | deleteKey p provider =>
      simp only [ServerState.step] at stepped
      split at stepped
      · obtain ⟨panel, deleted, rfl⟩ := Option.map_eq_some_iff.mp stepped
        obtain ⟨after, answered, refines⟩ := before.delete deleted
        exact ⟨after, single answered, refines⟩
      · cases stepped
  | createJob p id =>
      simp only [ServerState.step] at stepped
      split at stepped <;> cases stepped
      exact ⟨plain, rfl, before.rows, before.buckets, before.processes⟩
  | job p id event =>
      simp only [ServerState.step] at stepped
      split at stepped
      · split at stepped
        · obtain ⟨state, _, rfl⟩ := Option.map_eq_some_iff.mp stepped
          exact ⟨plain, rfl, before.rows, before.buckets, before.processes⟩
        · cases stepped
      · cases stepped
  | crash p =>
      simp only [ServerState.step] at stepped
      split at stepped <;> cases stepped
      exact ⟨plain, rfl, before.setProcess fun _ here => by cases here⟩
  | shutdown =>
      cases stepped
      exact ⟨plain, rfl, before.rows, before.buckets, fun _ _ here => by cases here⟩

theorem Refines.initial (panel : PanelState) : Refines env fernet (.initial panel) panel where
  rows := ⟨fun _ _ => .inl rfl, fun _ _ => .inl rfl⟩
  buckets := rfl
  processes _ _ here := by cases here

end Steps

/-- The table of an earlier version has a secret in plain text. -/
def legacyPanel : PanelState :=
  { emptyPanel with
    rows := Function.update emptyPanel.rows (ofString "openai_api_key") (some (ofString "sk-1")) }

/-- Two workers seed the table and encrypt the secret at once; the second one has to try again. -/
def racingStartups : List ServerEvent :=
  [.launch true, .readSettings 0, .commitSeed 0, .fork, .fork, .readSettings 1, .readSettings 2,
    .commitSeed 1, .commitSeed 2, .readSettings 2, .commitSeed 2, .readSecrets 1, .readSecrets 2,
    .commitSecrets 1 5, .commitSecrets 2 6]

def newKey : ServerEvent :=
  .saveSettings 1 7 (payloadOf [("openai_api_key", "sk-2"), ("source_language", "French")])

end SubtitleTranslator.Server

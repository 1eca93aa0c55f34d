import SubtitleTranslator.Construction.Numbered
import SubtitleTranslator.Construction.RunJob
import SubtitleTranslator.Library.Json

namespace SubtitleTranslator.Engine
open Library Library.Text

/-- The entry `deepl` of `LANGS`. -/
def Language.deepl : Language → Str
  | .zhTw => ofString "ZH-HANT"
  | .zhCn => ofString "ZH-HANS"
  | .ja => ofString "JA"
  | .ko => ofString "KO"
  | .es => ofString "ES"
  | .fr => ofString "FR"
  | .de => ofString "DE"
  | .it => ofString "IT"
  | .ptBr => ofString "PT-BR"
  | .ru => ofString "RU"
  | .nl => ofString "NL"
  | .pl => ofString "PL"
  | .tr => ofString "TR"
  | .uk => ofString "UK"
  | .id => ofString "ID"

/-- The entry `style` of `LANGS`. -/
def Language.style : Language → Str
  | .zhTw => ofString ("Use Taiwan Mandarin vocabulary and idiom, not Chinese vocabulary " ++
      "mechanically converted to traditional glyphs. Use Taiwan full-width " ++
      "punctuation conventions.")
  | .zhCn => ofString "Use Chinese Mandarin vocabulary and standard simplified punctuation."
  | _ => []

/-- The keys of `LANGS` in order. -/
def Language.all : List Language :=
  [.zhTw, .zhCn, .ja, .ko, .es, .fr, .de, .it, .ptBr, .ru, .nl, .pl, .tr, .uk, .id]

structure HttpRequest where
  url : Str
  headers : List (Str × Str)
  payload : Json

/-- An answer with an error status; the body is `none` when it cannot be read. -/
structure HttpError where
  code : Nat
  body : Option Str
  header : Str → Option Str

/-- These are the ways in which a request ends. `dropped` is any OSError or HTTPException, `raises`
any exception that `_post_json` does not handle. -/
inductive Exchange where
  | answers (raw : List UInt8)
  | httpError (answer : HttpError)
  | urlError (reason : Str)
  | dropped (kind message : Str)
  | canceled
  | raises

/-- What `json.loads` makes of bytes: a value, ValueError or RecursionError. -/
inductive Loaded where
  | value (json : Json)
  | invalid
  | tooDeep

/-- The parts of the language that the clients use: `casefold`, `html.unescape` with its ValueError,
`json.loads`, the arithmetic of `float`, and the seconds until the time that a text names. -/
structure Outside where
  casefold : Str → Str
  unescape : Str → Option Str
  loads : List UInt8 → Loaded
  float : Str → Option Seconds
  times : Seconds → ℚ → Seconds
  sum : List Seconds → Seconds
  untilHttpDate : Str → Option ℚ
  untilIsoDate : Str → Option ℚ

/-- This function is `_seconds`. -/
def clampSeconds : Seconds → Option Seconds
  | .finite value => some (.finite (max 0 value))
  | _ => none

def untilMoment (delay : ℚ) : Seconds := .finite (max 0 delay)

/-- This function is `_parse_retry_after`. -/
def Outside.parseRetryAfter (outside : Outside) : Option Str → Option Seconds
  | none => none
  | some [] => none
  | some value =>
      match outside.float (strip value) with
      | some delay => clampSeconds delay
      | none => (outside.untilHttpDate (strip value)).map untilMoment

/-- These units are `_GO_UNITS`. -/
def goUnits : List (Str × ℚ) :=
  [(ofString "h", 3600), (ofString "ms", 1 / 1000), (ofString "us", 1 / 1000000),
    (ofString "µs", 1 / 1000000), (ofString "μs", 1 / 1000000), (ofString "ns", 1 / 1000000000),
    (ofString "m", 60), (ofString "s", 1)]

/-- A pattern of several words prefers the earlier word. -/
def oneOf {Value : Type} (words : List (Str × Value)) : Pattern CodePoint Value := fun s =>
  words.filterMap fun word =>
    if word.1.isPrefixOf s then some (word.2, s.drop word.1.length) else none

/-- This pattern is `\d+(?:\.\d+)?`. -/
def goAmount : Pattern CodePoint Str := .captured do
  let _ ← .many1 isDecimal
  .optional do
    let _ ← .one (· == 0x2e)
    .many1 isDecimal

/-- This pattern is `_GO_DURATION_PART_RE`; a unit gives its seconds. -/
def goPart : Pattern CodePoint (Str × ℚ) := do
  let amount ← goAmount
  let unit ← oneOf goUnits
  pure (amount, unit)

/-- This pattern is `_GO_DURATION_RE`. -/
def goDuration : Pattern CodePoint Unit := do
  let _ ← goPart
  let _ ← .star goPart
  pure ()

/-- This function is `_parse_rate_limit_reset`. -/
def Outside.parseRateLimitReset (outside : Outside) (header : Option Str) : Option Seconds :=
  match outside.parseRetryAfter header, header with
  | some after, _ => some after
  | none, none => none
  | none, some [] => none
  | none, some value =>
      let value := strip value
      if (goDuration.fullmatch? value).isSome then
        clampSeconds (outside.sum ((goPart.findall value).map fun part =>
          outside.times ((outside.float part.1).getD .nan) part.2))
      else
        let zulu := value.getLast? = some 0x5a ∨ value.getLast? = some 0x7a
        let iso := if zulu then value.dropLast ++ ofString "+00:00" else value
        (outside.untilIsoDate iso).map untilMoment

/-- The headers that name the end of a rate limit. -/
def resetHeaders : List Str :=
  [ofString "anthropic-ratelimit-input-tokens-reset",
    ofString "anthropic-ratelimit-requests-reset", ofString "x-ratelimit-reset-requests"]

/-- The wait that a rate-limited answer asks for. -/
def Outside.retryAfter (outside : Outside) (header : Str → Option Str) : Option Seconds :=
  match outside.parseRetryAfter (header (ofString "retry-after")) with
  | some after => some after
  | none => resetHeaders.findSome? fun name => outside.parseRateLimitReset (header name)

/-- This function is `_http_error`. -/
def Outside.httpFailure (outside : Outside) (e : HttpError) : Failure :=
  let body := (e.body.getD []).take 800
  let label := ofString "HTTP " ++ decimal e.code ++ ofString ": "
  if e.code ∈ [429, 529] then .rateLimit (label ++ body.take 200) (outside.retryAfter e.header)
  else if e.code ∈ [400, 401, 403, 404] then .fatal (label ++ body)
  else .translation (label ++ body)

/-- This function is `_post_json`, given how each request ends. -/
def Outside.postJson (outside : Outside) (service : HttpRequest → Exchange)
    (request : HttpRequest) : Except Failure (List (Str × Json)) :=
  match service request with
  | .canceled => .error .canceled
  | .raises => .error .other
  | .httpError e => .error (outside.httpFailure e)
  | .urlError reason => .error (.translation (ofString "network error: " ++ reason))
  | .dropped kind message =>
      .error (.translation ((ofString "network error: " ++ kind ++ ofString ": " ++
        message).rdropWhile fun c => c == 0x3a || c == 0x20))
  | .answers raw =>
      match outside.loads raw with
      | .tooDeep => .error .other
      | .invalid =>
          .error (.translation (ofString "provider returned a response that is not JSON"))
      | .value (.object result) => .ok result
      | .value _ =>
          .error (.translation (ofString "provider returned an unexpected JSON response"))

/-- A client posts requests and gives the translations of a batch. -/
abbrev Client := (HttpRequest → Except Failure (List (Str × Json))) → List Str → Str → Language →
  Except Failure (List Str)

/-- This function is `SYSTEM_PROMPT.format`. -/
def systemPrompt (src name style : Str) : Str := join [0xa]
  [ofString ("You are a professional subtitle translator. Translate each " ++
      "numbered line from ") ++ src ++ ofString " into " ++ name ++ ofString ".",
    [], style, [],
    ofString "Rules, all mandatory:",
    ofString ("1. Output EXACTLY one line per input number, in the form " ++
      "`<number>\t<translation>`,"),
    ofString "   tab-separated. Same count, same numbers, same order. No preamble, no commentary,",
    ofString "   no blank lines, no markdown.",
    ofString "2. Never merge, split, drop or reorder lines. A line that is a sentence fragment",
    ofString "   stays a fragment — later lines continue it.",
    ofString "3. Copy any ⟦N⟧ sentinel through verbatim and in the same relative position.",
    ofString "   They are markup placeholders, not text.",
    ofString "4. Keep it tight. Subtitles are read in about two seconds; prefer the shorter",
    ofString "   natural phrasing over the literal one.",
    ofString "5. Preserve register, profanity strength, humour and wordplay. Localise idioms",
    ofString "   rather than translating them word for word. If a pun cannot survive, write a",
    ofString "   line that lands the same joke.",
    ofString "6. Do not add honorifics, names or explanations that are not in the source.",
    ofString "7. Leave lines that are purely numbers, timecodes or sound-effect symbols unchanged.",
    ofString "8. Never use full-width Latin letters or digits."]

/-- The system prompt for a target language. -/
def Language.prompt (target : Language) (src : Str) : Str :=
  systemPrompt src (ofString target.name) target.style

/-- A message of a chat. -/
def message (role : String) (content : Str) : Json :=
  .object [(ofString "role", .string (ofString role)), (ofString "content", .string content)]

/-- The text parts of the blocks of an answer, or `none` when a block is not an object. -/
def textParts (blocks : List Json) : Option (List (Option Json)) :=
  (blocks.mapM Json.object?).map fun blocks =>
    (blocks.filter fun block =>
      (Json.find block "type").bind Json.text? = some (ofString "text")).map (Json.find · "text")

/-- This function is `make_anthropic`. -/
def makeAnthropic (model apiKey : Str) : Client := fun post texts src target => do
  let resp ← post {
    url := ofString "https://api.anthropic.com/v1/messages"
    headers := [(ofString "content-type", ofString "application/json"),
      (ofString "x-api-key", apiKey), (ofString "anthropic-version", ofString "2023-06-01")]
    payload := .object [(ofString "model", .string model),
      (ofString "max_tokens", .number (ofString "8000")),
      (ofString "system", .string (target.prompt src)),
      (ofString "messages", .array [message "user" (numberedPrompt texts)])] }
  let unexpected := Failure.translation (ofString "Anthropic API returned an unexpected response")
  match Json.find resp "content" with
  | some (.array blocks) =>
      match textParts blocks with
      | none => .error unexpected
      | some parts =>
          match parts.mapM fun part => part.bind Json.text? with
          | none => .error unexpected
          | some parts => parseNumbered parts.flatten texts.length
  | _ => .error unexpected

/-- The value of `resp["choices"][0]["message"]["content"]`. -/
def chatContent (resp : List (Str × Json)) : Except Json.Fault Json := do
  let choices ← (Json.object resp).item "choices"
  let choice ← choices.first
  let message ← choice.item "message"
  message.item "content"

/-- This function is `make_openai`. -/
def makeOpenai (model apiKey baseUrl : Str) : Client := fun post texts src target => do
  let resp ← post {
    url := baseUrl.rdropWhile (· == 0x2f) ++ ofString "/chat/completions"
    headers := [(ofString "content-type", ofString "application/json"),
      (ofString "authorization", ofString "Bearer " ++ apiKey)]
    payload := .object [(ofString "model", .string model),
      (ofString "messages", .array [message "system" (target.prompt src),
        message "user" (numberedPrompt texts)]),
      (ofString "temperature", .number (ofString "0.2"))] }
  match chatContent resp with
  | .error _ =>
      .error (.translation (ofString "OpenAI-compatible API returned an unexpected response"))
  | .ok (.string out) => parseNumbered out texts.length
  | .ok _ => .error (.translation (ofString "OpenAI-compatible API returned no text content"))

/-- The texts under a key of the items of a list with an expected length. The exceptions that are
caught are KeyError, TypeError and ValueError, the last for `none`. -/
def itemTexts (key : String) (read : Str → Option Str) (expected : Nat) :
    Json → Except (Option Json.Fault) (List Str)
  | .array items =>
      if items.length ≠ expected then .error none
      else items.mapM fun item => do
        match ← (item.item key).mapError some with
        | .string text => (match read text with | some text => .ok text | none => .error none)
        | _ => .error none
  | _ => .error none

/-- This function is `make_deepl`. -/
def makeDeepl (apiKey : Str) : Client := fun post texts _ target => do
  let host := if (ofString ":fx").isSuffixOf apiKey then ofString "api-free.deepl.com"
    else ofString "api.deepl.com"
  let resp ← post {
    url := ofString "https://" ++ host ++ ofString "/v2/translate"
    headers := [(ofString "content-type", ofString "application/json"),
      (ofString "authorization", ofString "DeepL-Auth-Key " ++ apiKey)]
    payload := .object [(ofString "text", .array (texts.map .string)),
      (ofString "target_lang", .string target.deepl),
      (ofString "preserve_formatting", .boolean true)] }
  match ((Json.object resp).item "translations").mapError some >>=
      itemTexts "text" some texts.length with
  | .ok result => .ok result
  | .error _ => .error (.translation (ofString "DeepL API returned an unexpected response"))

/-- One byte of a query: these bytes stand for themselves, and a space is `+`. -/
def quoteByte (byte : UInt8) : Str :=
  let c : CodePoint := ⟨byte.toNat, byte.toNat_lt.trans (by decide)⟩
  if isAsciiLetter c || isAsciiDigit c || (ofString "_.-~").contains c then [c]
  else if c == 0x20 then [0x2b]
  else [0x25, hexPoint (c.val / 16), hexPoint (c.val % 16)]
where
  /-- The digit of a number below 16. -/
  hexPoint (n : Nat) : CodePoint := (ofString "0123456789ABCDEF").getD n 0

/-- This function is `quote_plus`; `none` is UnicodeEncodeError. -/
def quotePlus (s : Str) : Option Str := (utf8? s).map fun bytes => bytes.flatMap quoteByte

/-- The pattern `[A-Za-z]{2,3}(?:-[A-Za-z0-9]{2,8})*` of a language tag. -/
def languageTag : Pattern CodePoint Unit := do
  let _ ← .between isAsciiLetter 2 3
  let _ ← .star do
    let _ ← .one (· == 0x2d)
    .between (fun c => isAsciiLetter c || isAsciiDigit c) 2 8
  pure ()

/-- The table `source_codes`; a later entry replaces an earlier one. -/
def Outside.sourceCodes (outside : Outside) : List (Str × Str) :=
  (ofString "english", ofString "en") ::
    (Language.all.map fun language =>
      (outside.casefold (ofString language.name), language.key)).reverse

/-- The code of the source language, when the client knows one. -/
def Outside.sourceCode (outside : Outside) (src : Str) : Option Str :=
  let source := strip src
  match outside.sourceCodes.lookup (outside.casefold source) with
  | some code => some code
  | none => if (languageTag.fullmatch? source).isSome then some source else none

/-- This function is `make_google` with the quoted key. -/
def Outside.makeGoogle (outside : Outside) (quotedKey : Str) : Client :=
  fun post texts src target => do
    if 128 < texts.length then
      .error (.fatal (ofString
        "Google Cloud Translation accepts at most 128 strings per request"))
    else
      let resp ← post {
        url := ofString "https://translation.googleapis.com/language/translate/v2?key=" ++ quotedKey
        headers := [(ofString "content-type", ofString "application/json; charset=utf-8")]
        payload := .object ([(ofString "q", .array (texts.map .string)),
          (ofString "target", .string target.key), (ofString "format", .string (ofString "text"))] ++
          (outside.sourceCode src).toList.map fun code => (ofString "source", .string code)) }
      let translations : Except (Option Json.Fault) Json :=
        ((Json.object resp).item "data" >>= Json.item "translations").mapError some
      match translations >>= itemTexts "translatedText" outside.unescape texts.length with
      | .ok result => .ok result
      | .error _ => .error (.translation (ofString
          "Google Cloud Translation API returned an unexpected response"))

/-- This function is `make_echo`. -/
def makeEcho : Client := fun _ texts _ target =>
  .ok (texts.map fun text => ofString "[" ++ target.key ++ ofString "] " ++ text)

/-- The key of a provider's settings, if it is set. -/
def providerKey (settings : Str → Option Str) (name label : String) : Except Failure Str :=
  match settings (ofString name) with
  | some (c :: key) => .ok (c :: key)
  | _ => .error (.fatal (ofString label ++ ofString " API key is not configured"))

/-- The model of a job, or the setting for it; a setting that is missing is KeyError. -/
def providerModel (settings : Str → Option Str) (name : String) :
    Option Str → Except Failure Str
  | some (c :: model) => .ok (c :: model)
  | _ =>
      match settings (ofString name) with
      | some model => .ok model
      | none => .error .other

/-- This function is `provider_for`. -/
def Outside.providerFor (outside : Outside) (debug : Bool) (settings : Str → Option Str)
    (name : Str) (model : Option Str) : Except Failure Client :=
  if name = ofString "echo" then
    if debug then .ok makeEcho
    else .error (.fatal (ofString "Echo provider is available only in debug mode"))
  else if name = ofString "anthropic" then do
    let key ← providerKey settings "anthropic_api_key" "Anthropic"
    let model ← providerModel settings "anthropic_model" model
    pure (makeAnthropic model key)
  else if name = ofString "openai" then do
    let key ← providerKey settings "openai_api_key" "OpenAI-compatible"
    let model ← providerModel settings "openai_model" model
    match settings (ofString "openai_base_url") with
    | some baseUrl => pure (makeOpenai model key baseUrl)
    | none => .error .other
  else if name = ofString "deepl" then do
    let key ← providerKey settings "deepl_api_key" "DeepL"
    pure (makeDeepl key)
  else if name = ofString "google" then do
    let key ← providerKey settings "google_api_key" "Google Cloud Translation"
    match quotePlus key with
    | some quoted => pure (outside.makeGoogle quoted)
    | none => .error .value
  else .error (.fatal (ofString "Unknown provider: " ++ name))

/-- A provider call ends with the outcome of its client. -/
def Answer.ofOutcome : Except Failure (List Str) → Answer
  | .ok output => .returns (some (output.map some))
  | .error failure => .raises failure

end SubtitleTranslator.Engine

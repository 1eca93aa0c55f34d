import SubtitleTranslator.Construction.BatchDriver
import SubtitleTranslator.Library.Fallible

namespace SubtitleTranslator.Engine
open Library Library.Text

/-- Some provider call for the target returned a valid output that translates the source text
to this text. -/
def Translated (calls : List ProviderCall) (target : Language) (source text : Str) : Prop :=
  ∃ call ∈ calls, call.target = target ∧ ∃ output : List Str,
    call.answer = .returns (some (output.map some)) ∧
      validateOutput call.texts (some (output.map some)) = .ok output ∧
      (source, text) ∈ call.texts.zip output

/-- Some provider call for the target had the text. -/
def Sent (calls : List ProviderCall) (target : Language) (source : Str) : Prop :=
  ∃ call ∈ calls, call.target = target ∧ source ∈ call.texts

theorem Translated.mono {calls more : List ProviderCall} {target : Language} {source text : Str}
    (translated : Translated calls target source text) (kept : calls ⊆ more) :
    Translated more target source text := by
  obtain ⟨call, member, answered⟩ := translated
  exact ⟨call, kept member, answered⟩

theorem Sent.mono {calls more : List ProviderCall} {target : Language} {source : Str}
    (sent : Sent calls target source) (kept : calls ⊆ more) : Sent more target source := by
  obtain ⟨call, member, asked⟩ := sent
  exact ⟨call, kept member, asked⟩

/-- A validated line is the provider's string. -/
theorem validateLine_ok {position : Nat} {source line : Str} {translated : Option Str}
    (valid : validateLine position source translated = .ok line) : translated = some line := by
  cases translated with
  | none => cases valid
  | some translated =>
      rw [validateLine] at valid
      split at valid
      · cases valid
      · obtain ⟨matching, _, decided⟩ := Fallible.bind_ok.mp valid
        cases matching with
        | false => cases decided
        | true =>
            cases decided
            rfl

theorem validateLines_ok {position : Nat} {texts lines : List Str} {output : List (Option Str)}
    (same : output.length = texts.length)
    (valid : validateLines position texts output = .ok lines) : output = lines.map some := by
  induction texts generalizing position output lines with
  | nil =>
      rw [List.length_nil, List.length_eq_zero_iff] at same
      subst same
      cases valid
      rfl
  | cons source texts ih =>
      cases output with
      | nil => cases same
      | cons translated output =>
          obtain ⟨line, first, others⟩ := Fallible.bind_ok.mp valid
          obtain ⟨rest, tail, done⟩ := Fallible.bind_ok.mp others
          cases done
          rw [validateLine_ok first, ih (Nat.succ.inj same) tail]
          rfl

/-- A validated output is a list of as many strings as the texts. -/
theorem validateOutput_ok {texts lines : List Str} {output : Option (List (Option Str))}
    (valid : validateOutput texts output = .ok lines) :
    output = some (lines.map some) ∧ lines.length = texts.length := by
  cases output with
  | none => cases valid
  | some output =>
      rw [validateOutput] at valid
      split at valid
      · rename_i same
        have strings := validateLines_ok same valid
        refine ⟨congrArg some strings, ?_⟩
        rw [← same, strings, List.length_map]
      · cases valid

/-- The answer of a successful attempt is a validated output. -/
theorem checkedAnswer_ok {texts output : List Str} {attempt : Attempt}
    (checked : checkedAnswer texts attempt = .ok output) :
    attempt.answer = .returns (some (output.map some)) ∧
      validateOutput texts (some (output.map some)) = .ok output ∧
      output.length = texts.length := by
  unfold checkedAnswer at checked
  split at checked
  · cases checked
  · rename_i returned answered
    split at checked
    · cases checked
    · obtain ⟨strings, same⟩ := validateOutput_ok checked
      subst strings
      exact ⟨answered, checked, same⟩

/-- A call that succeeds has a provider call with its texts and a validated output, and every
failure that leaves the retry loop came from a provider call or a cancellation. -/
theorem callWithRetry_spec {request : Request} {texts : List Str} {label : Str}
    {soft limited : Nat} {script : List Attempt} {called : Called (List Str)}
    (ran : callWithRetry request texts label soft limited script = some called) :
    (called.outcome = .error .canceled ∨
      ∃ call ∈ called.calls, call.target = request.target ∧ call.texts = texts) ∧
    ∀ output, called.outcome = .ok output → output.length = texts.length ∧
      ∀ pair ∈ texts.zip output, Translated called.calls request.target pair.1 pair.2 := by
  induction script generalizing soft limited called with
  | nil => cases ran
  | cons attempt rest ih =>
      rw [callWithRetry] at ran
      split at ran
      · cases ran
        exact ⟨.inl rfl, nofun⟩
      · dsimp only at ran
        split at ran
        · rename_i output checked
          obtain ⟨answered, valid, same⟩ := checkedAnswer_ok checked
          cases ran
          refine ⟨.inr ⟨_, List.mem_singleton_self _, rfl, rfl⟩, ?_⟩
          rintro _ ⟨⟩
          exact ⟨same, fun pair member =>
            ⟨_, List.mem_singleton_self _, rfl, output, answered, valid, member⟩⟩
        · split at ran
          · cases ran
            exact ⟨.inr ⟨_, List.mem_singleton_self _, rfl, rfl⟩, nofun⟩
          · split at ran
            · cases ran
              exact ⟨.inl rfl, nofun⟩
            · obtain ⟨later, again, rfl⟩ := Option.map_eq_some_iff.mp ran
              obtain ⟨asked, translated⟩ := ih again
              refine ⟨.inr ⟨_, List.mem_cons_self, rfl, rfl⟩, fun output done => ?_⟩
              obtain ⟨same, pairs⟩ := translated output done
              exact ⟨same, fun pair member =>
                (pairs pair member).mono (List.subset_cons_self _ _)⟩

/-- A finished line passed its text through or is a translation of it. -/
def LineFits (calls : List ProviderCall) (target : Language) (text : Str) (line : Line) : Prop :=
  if line.passedThrough then line.text = text else Translated calls target text line.text

theorem LineFits.mono {calls more : List ProviderCall} {target : Language} {text : Str}
    {line : Line} (fits : LineFits calls target text line) (kept : calls ⊆ more) :
    LineFits more target text line := by
  unfold LineFits at fits ⊢
  split_ifs at fits ⊢ with passed
  · exact fits
  · exact fits.mono kept

/-- The lines that a fallback loop returns fit their texts. -/
theorem runLines_spec {request : Request} {texts : List Str} {script : List Attempt}
    {called : Called (List Line)} {lines : List Line}
    (ran : runLines request texts script = some called) (done : called.outcome = .ok lines) :
    List.Forall₂ (LineFits called.calls request.target) texts lines := by
  induction texts generalizing script called lines with
  | nil =>
      cases ran
      cases done
      exact .nil
  | cons text texts ih =>
      obtain ⟨first, tried, continued⟩ := Option.bind_eq_some_iff.mp ran
      cases lined : lineOf text first.outcome with
      | error failure =>
          rw [lined] at continued
          cases continued
          cases done
      | ok line =>
          rw [lined] at continued
          obtain ⟨others, later, whole⟩ := Option.bind_eq_some_iff.mp continued
          cases whole
          cases rest : others.outcome with
          | error failure =>
              rw [rest] at done
              cases done
          | ok tail =>
              rw [rest] at done
              cases done
              have front : LineFits first.calls request.target text line := by
                obtain ⟨_, translated⟩ := callWithRetry_spec tried
                revert lined translated
                cases first.outcome with
                | error failure =>
                    cases failure <;> intro lined _ <;> cases lined
                    rfl
                | ok output =>
                    cases output with
                    | nil => exact nofun
                    | cons translation more =>
                        intro lined translated
                        cases lined
                        exact (translated _ rfl).2 (text, translation) List.mem_cons_self
              refine .cons (front.mono (List.subset_append_left _ _)) ?_
              exact (ih later rest).imp fun _ _ fits => fits.mono (List.subset_append_right _ _)

/-- A finished batch has sent its texts, and its lines fit them. -/
theorem runBatch_spec {request : Request} {texts : List Str} {script : List Attempt}
    {called : Called (List Line)} {lines : List Line}
    (ran : runBatch request texts script = some called) (done : called.outcome = .ok lines) :
    (∀ text ∈ texts, Sent called.calls request.target text) ∧
      List.Forall₂ (LineFits called.calls request.target) texts lines := by
  obtain ⟨first, tried, continued⟩ := Option.bind_eq_some_iff.mp ran
  obtain ⟨asked, translated⟩ := callWithRetry_spec tried
  have sent (notCanceled : first.outcome ≠ .error .canceled) (text : Str) (member : text ∈ texts) :
      Sent first.calls request.target text := by
    obtain ⟨call, inCalls, target, same⟩ := asked.resolve_left notCanceled
    exact ⟨call, inCalls, target, same ▸ member⟩
  split at continued
  · rename_i output outcome
    cases continued
    cases done
    refine ⟨sent (by rw [outcome]; nofun), ?_⟩
    obtain ⟨same, pairs⟩ := translated output outcome
    rw [List.forall₂_map_right_iff, List.forall₂_iff_zip]
    exact ⟨same.symm, fun member => pairs _ member⟩
  · rename_i outcome
    have sentFirst := sent (by rw [outcome]; nofun)
    split at continued
    · cases continued
      cases done
      refine ⟨sentFirst, ?_⟩
      rw [List.forall₂_map_right_iff, List.forall₂_same]
      exact fun _ _ => rfl
    · obtain ⟨others, later, whole⟩ := Option.bind_eq_some_iff.mp continued
      cases whole
      refine ⟨fun text member => (sentFirst text member).mono (List.subset_append_left _ _), ?_⟩
      exact (runLines_spec later done).imp fun _ _ fits =>
        fits.mono (List.subset_append_right _ _)
  · cases continued
    cases done

section Loop
variable {Key : Type} {digest : Str → Key} {request : Request}

/-- The keys of `LANGS` have no NUL, so that a key of the cache has one target and one text. -/
theorem Language.nul_notMem_key (target : Language) : 0 ∉ target.key := by
  cases target <;> decide

theorem Language.key_injective : Function.Injective Language.key := by
  intro first second same
  cases first <;> cases second <;> first | rfl | exact absurd same (by decide)

theorem cacheKey_injective (injective : Function.Injective digest) {first second : Language}
    {source other : Str} (same : cacheKey digest first source = cacheKey digest second other) :
    first = second ∧ source = other := by
  have texts := injective same
  simp only [List.append_assoc, List.singleton_append] at texts
  have prefixes : first.key = second.key := by
    have front := congrArg (List.takeWhile (· ≠ 0)) texts
    rw [List.takeWhile_append_of_pos, List.takeWhile_append_of_pos] at front
    · simpa using front
    · intro c member
      exact decide_eq_true fun nul => second.nul_notMem_key (nul ▸ member)
    · intro c member
      exact decide_eq_true fun nul => first.nul_notMem_key (nul ▸ member)
  rw [prefixes] at texts
  exact ⟨Language.key_injective prefixes, (List.cons.inj (List.append_cancel_left texts)).2⟩

/-- Every entry of the cache is a translation of its own text for its own target. -/
def CacheFits (digest : Str → Key) (calls : List ProviderCall) (cache : Key → Option Str) : Prop :=
  ∀ key text, cache key = some text →
    ∃ target source, key = cacheKey digest target source ∧ Translated calls target source text

theorem CacheFits.mono {calls more : List ProviderCall} {cache : Key → Option Str}
    (fits : CacheFits digest calls cache) (kept : calls ⊆ more) : CacheFits digest more cache := by
  intro key text stored
  obtain ⟨target, source, same, translated⟩ := fits key text stored
  exact ⟨target, source, same, translated.mono kept⟩

/-- A result entry is the segment's own text without text to translate, a translation of it, or
its source text that fell back. -/
inductive Entry (calls : List ProviderCall) (target : Language) (seg : Segment) (text : Str) :
    Bool → Prop where
  | own (blank : needsTranslation seg = false) (same : text = seg.text) :
      Entry calls target seg text false
  | provider (needed : needsTranslation seg = true)
      (translated : Translated calls target seg.text text) : Entry calls target seg text false
  | fallback (needed : needsTranslation seg = true) (same : text = seg.text) :
      Entry calls target seg text true

theorem Entry.mono {calls more : List ProviderCall} {target : Language} {seg : Segment}
    {text : Str} {fallen : Bool} (entry : Entry calls target seg text fallen)
    (kept : calls ⊆ more) : Entry more target seg text fallen := by
  cases entry with
  | own blank same => exact .own blank same
  | provider needed translated => exact .provider needed (translated.mono kept)
  | fallback needed same => exact .fallback needed same

/-- The slices of a list hold its elements in order. -/
theorem slices_flatten {size : Nat} (positive : 0 < size) (todo : List Nat) :
    (slices size todo).flatten = todo := by
  have front (count : Nat) :
      ((List.range count).map fun k => (todo.drop (k * size)).take size).flatten =
        todo.take (count * size) := by
    induction count with
    | zero => simp
    | succ count ih =>
        rw [List.range_succ, List.map_append, List.flatten_append, ih, Nat.succ_mul, List.take_add]
        simp
  rw [slices, front]
  apply List.take_of_length_le
  have whole := Nat.div_add_mod (todo.length + size - 1) size
  have small := Nat.mod_lt (todo.length + size - 1) positive
  rw [Nat.mul_comm] at whole
  omega

/-- No slice is empty. -/
theorem slices_pos {size : Nat} (positive : 0 < size) {todo batch : List Nat}
    (member : batch ∈ slices size todo) : 0 < batch.length := by
  obtain ⟨k, inRange, rfl⟩ := List.mem_map.mp member
  have bound : k * size < todo.length := by
    have last := Nat.mul_le_of_le_div size (k + 1) _ (List.mem_range.mp inRange)
    rw [Nat.succ_mul] at last
    omega
  rw [List.length_take, List.length_drop]
  omega

/-- Progress grows from report to report, and the total stays. -/
def ProgressStep (before after : Nat × Nat) : Prop := before.1 < after.1 ∧ before.2 = after.2

/-- The results, the cache and the counters of a call agree while its batches finish. -/
structure LoopState.Consistent (digest : Str → Key) (request : Request) (todo : List Nat)
    (s : LoopState Key) : Prop where
  cache : CacheFits digest s.calls s.cache
  results : s.results.length = request.segs.length
  inside : ∀ i ∈ s.pending.flatten, i < request.segs.length
  open_ : ∀ i ∈ s.pending.flatten, i ∈ todo
  needed : ∀ i ∈ todo, ∀ seg, request.segs[i]? = some seg → needsTranslation seg = true
  distinct : s.pending.flatten.Nodup
  nonempty : ∀ batch ∈ s.pending, 0 < batch.length
  entries : ∃ fallen : Finset Nat, s.fallbacks.sum = fallen.card ∧
    (∀ i ∈ fallen, i < request.segs.length ∧ i ∉ s.pending.flatten) ∧
    ∀ i seg, request.segs[i]? = some seg → i ∉ s.pending.flatten →
      ∃ text, s.results[i]? = some (some text) ∧
        Entry s.calls request.target seg text (i ∈ fallen)
  sent : ∀ i ∈ todo, i ∉ s.pending.flatten → Sent s.calls request.target (request.text i)
  count : s.done + s.pending.flatten.length = todo.length
  cached : s.cached + todo.length = request.segs.length
  first : s.progress.head? = some (s.cached, request.segs.length)
  last : s.progress.getLast? = some (s.cached + s.done, request.segs.length)
  grows : s.progress.IsChain ProgressStep

/-- More provider calls keep the accounts. -/
theorem LoopState.Consistent.addCalls {todo : List Nat} {s : LoopState Key}
    (before : s.Consistent digest request todo) (calls : List ProviderCall)
    (raised : Option Failure) :
    LoopState.Consistent digest request todo
      { s with calls := s.calls ++ calls, raised := raised } := by
  obtain ⟨fallen, total, finished, entries⟩ := before.entries
  have kept := List.subset_append_left s.calls calls
  exact { before with
    cache := before.cache.mono kept
    entries := ⟨fallen, total, finished, fun i seg found closed => by
      obtain ⟨text, stored, entry⟩ := entries i seg found closed
      exact ⟨text, stored, entry.mono kept⟩⟩
    sent := fun i member closed => (before.sent i member closed).mono kept }

/-- The segment of an index has its text. -/
theorem Request.text_of_getElem? {i : Nat} {seg : Segment} (found : request.segs[i]? = some seg) :
    request.text i = seg.text := by
  rw [Request.text, found]
  rfl

/-- The first look at a segment gives its own text, a translation of it, or nothing yet. -/
theorem cacheHit_ok (injective : Function.Injective digest) {calls : List ProviderCall}
    {cache : Key → Option Str} (fits : CacheFits digest calls cache) {seg : Segment}
    {hit : Option Str} (looked : cacheHit digest request cache seg = .ok hit) :
    (hit = none → needsTranslation seg = true) ∧
      ∀ text, hit = some text → Entry calls request.target seg text false := by
  unfold cacheHit at looked
  split at looked
  · rename_i needed
    refine ⟨fun _ => needed, fun text same => ?_⟩
    subst same
    split at looked
    · cases looked
    · rename_i stored found
      obtain ⟨matching, _, decided⟩ := Fallible.bind_ok.mp looked
      cases matching with
      | false => cases decided
      | true =>
          cases decided
          obtain ⟨target, source, same, translated⟩ := fits _ _ found
          obtain ⟨rfl, rfl⟩ := cacheKey_injective injective same
          exact .provider needed translated
  · rename_i blank
    cases looked
    refine ⟨nofun, fun text same => ?_⟩
    cases same
    exact .own (by simpa using blank) rfl

theorem mem_missing {results : List (Option Str)} {i : Nat} :
    i ∈ missing results ↔ results[i]? = some none := by
  rw [missing, List.mem_filter, List.mem_range, decide_eq_true_iff, and_iff_right_iff_imp]
  exact fun found => (List.getElem?_eq_some_iff.mp found).1

/-- The accounts of a call agree when its batches are submitted. -/
theorem LoopState.start_consistent (injective : Function.Injective digest)
    {cache : Key → Option Str} {calls : List ProviderCall} {first : LoopState Key}
    (fits : CacheFits digest calls cache)
    (started : LoopState.start digest request cache calls = .ok first) :
    first.Consistent digest request (missing first.results) := by
  obtain ⟨results, looked, same⟩ := Fallible.bind_ok.mp started
  cases same
  have hits := Fallible.mapM_ok.mp looked
  have length : results.length = request.segs.length := hits.length_eq.symm
  have pending := slices_flatten request.batchSize_pos (missing results)
  have bound (i : Nat) (member : i ∈ missing results) : i < request.segs.length := by
    rw [mem_missing, List.getElem?_eq_some_iff] at member
    exact length ▸ member.1
  have hitOf (i : Nat) (seg : Segment) (found : request.segs[i]? = some seg) :
      ∃ hit, results[i]? = some hit ∧ cacheHit digest request cache seg = .ok hit := by
    obtain ⟨inSegs, rfl⟩ := List.getElem?_eq_some_iff.mp found
    have inResults : i < results.length := length ▸ inSegs
    exact ⟨results[i], List.getElem?_eq_getElem inResults, hits.get inSegs inResults⟩
  have few : (missing results).length ≤ request.segs.length :=
    calc
      (missing results).length ≤ (List.range results.length).length := List.length_filter_le _ _
      _ = request.segs.length := by rw [List.length_range, length]
  refine {
    cache := fits, results := length, inside := ?_, open_ := ?_, needed := ?_, distinct := ?_
    nonempty := fun batch member => slices_pos request.batchSize_pos member
    entries := ⟨∅, rfl, nofun, ?_⟩, sent := ?_, count := ?_, cached := Nat.sub_add_cancel few
    first := rfl, last := rfl, grows := List.isChain_singleton _ }
  · rw [pending]
    exact bound
  · rw [pending]
    exact fun i member => member
  · intro i member seg found
    obtain ⟨hit, stored, looked⟩ := hitOf i seg found
    rw [mem_missing.mp member] at stored
    cases stored
    exact (cacheHit_ok injective fits looked).1 rfl
  · rw [pending]
    exact List.nodup_range.filter _
  · intro i seg found closed
    rw [pending, mem_missing] at closed
    obtain ⟨hit, stored, looked⟩ := hitOf i seg found
    cases hit with
    | none => exact absurd stored closed
    | some text => exact ⟨text, stored, (cacheHit_ok injective fits looked).2 text rfl⟩
  · rw [pending]
    exact fun i member closed => absurd member closed
  · rw [pending]
    exact Nat.zero_add _

/-- What a returned call promises about its results, its fallback counts and its progress. -/
structure Reply.Consistent (calls : List ProviderCall) (reply : Reply) : Prop where
  length : reply.results.length = reply.request.segs.length
  entries : ∃ fallen : Finset Nat, reply.fallbacks.sum = fallen.card ∧
    (∀ i ∈ fallen, i < reply.request.segs.length) ∧
    ∀ i seg, reply.request.segs[i]? = some seg →
      ∃ text, reply.results[i]? = some text ∧
        Entry calls reply.request.target seg text (i ∈ fallen)
  sent : ∀ i ∈ reply.todo, Sent calls reply.request.target (reply.request.text i)
  first : reply.progress.head? =
    some (reply.request.segs.length - reply.todo.length, reply.request.segs.length)
  last : reply.progress.getLast? = some (reply.request.segs.length, reply.request.segs.length)
  grows : reply.progress.IsChain ProgressStep

theorem Reply.Consistent.mono {calls more : List ProviderCall} {reply : Reply}
    (before : reply.Consistent calls) (kept : calls ⊆ more) : reply.Consistent more := by
  obtain ⟨fallen, total, bound, entries⟩ := before.entries
  exact { before with
    entries := ⟨fallen, total, bound, fun i seg found => by
      obtain ⟨text, stored, entry⟩ := entries i seg found
      exact ⟨text, stored, entry.mono kept⟩⟩
    sent := fun i member => (before.sent i member).mono kept }

/-- A call whose batches are all collected returns consistent results. -/
theorem LoopState.Consistent.reply {todo : List Nat} {s : LoopState Key}
    (final : s.Consistent digest request todo) (finished : s.pending = []) :
    Reply.Consistent s.calls
      ⟨request, todo, s.results.map (·.getD []), s.progress, s.fallbacks⟩ := by
  have closed (i : Nat) : i ∉ s.pending.flatten := by
    rw [finished]
    exact List.not_mem_nil
  obtain ⟨fallen, total, bound, entries⟩ := final.entries
  have counted := final.count
  rw [finished, List.flatten_nil, List.length_nil, Nat.add_zero] at counted
  have cached := final.cached
  refine ⟨?_, ⟨fallen, total, fun i member => (bound i member).1, ?_⟩,
    fun i member => final.sent i member (closed i), ?_, ?_, final.grows⟩
  · rw [List.length_map]
    exact final.results
  · intro i seg found
    obtain ⟨text, stored, entry⟩ := entries i seg found (closed i)
    refine ⟨text, ?_, entry⟩
    rw [List.getElem?_map, stored]
    rfl
  · show s.progress.head? = some (request.segs.length - todo.length, request.segs.length)
    rw [final.first, ← cached, Nat.add_sub_cancel]
  · show s.progress.getLast? = some (request.segs.length, request.segs.length)
    rw [final.last, counted, cached]

/-- The shared cache and every reply agree with the log of provider calls. -/
structure SharedState.Consistent (digest : Str → Key) (s : SharedState Key) : Prop where
  cache : CacheFits digest s.calls s.cache
  replies : ∀ reply ∈ s.replies, reply.Consistent s.calls

theorem SharedState.initial_consistent : SharedState.Consistent digest SharedState.initial :=
  ⟨fun _ _ => nofun, fun _ => nofun⟩

variable [DecidableEq Key]

/-- Writing the lines of a batch touches only its indices and keeps the cache. -/
theorem foldl_write {calls : List ProviderCall} {pairs : List (Nat × Line)} {s : LoopState Key}
    (distinct : (pairs.map Prod.fst).Nodup) (cache : CacheFits digest calls s.cache)
    (fits : ∀ pair ∈ pairs, LineFits calls request.target (request.text pair.1) pair.2)
    (inside : ∀ pair ∈ pairs, pair.1 < s.results.length) :
    let written := pairs.foldl (LoopState.write digest request) s
    CacheFits digest calls written.cache ∧ written.results.length = s.results.length ∧
      (∀ pair ∈ pairs, written.results[pair.1]? = some (some pair.2.text)) ∧
      (∀ i ∉ pairs.map Prod.fst, written.results[i]? = s.results[i]?) := by
  induction pairs generalizing s with
  | nil => exact ⟨cache, rfl, nofun, fun _ _ => rfl⟩
  | cons pair pairs ih =>
      rw [List.map_cons, List.nodup_cons] at distinct
      have cacheNext : CacheFits digest calls (s.write digest request pair).cache := by
        have line := fits pair List.mem_cons_self
        unfold LineFits at line
        unfold LoopState.write
        split_ifs at line ⊢ with passed
        · exact cache
        · intro key text stored
          dsimp only at stored
          by_cases same : key = cacheKey digest request.target (request.text pair.1)
          · subst same
            rw [Function.update_self] at stored
            cases stored
            exact ⟨_, _, rfl, line⟩
          · rw [Function.update_of_ne same] at stored
            exact cache key text stored
      have lengthNext : (s.write digest request pair).results.length = s.results.length :=
        List.length_set
      obtain ⟨cacheLast, lengthLast, hits, misses⟩ := ih distinct.2 cacheNext
        (fun other member => fits other (List.mem_cons_of_mem _ member))
        (fun other member => lengthNext ▸ inside other (List.mem_cons_of_mem _ member))
      refine ⟨cacheLast, lengthLast.trans lengthNext, ?_, ?_⟩
      · rintro other (_ | ⟨_, member⟩)
        · rw [List.foldl_cons, misses pair.1 distinct.1]
          exact List.getElem?_set_self (inside pair List.mem_cons_self)
        · exact hits other member
      · intro i absent
        rw [List.map_cons, List.mem_cons, not_or] at absent
        rw [List.foldl_cons, misses i absent.2]
        exact List.getElem?_set_ne (Ne.symm absent.1)

theorem foldl_write_frame (digest : Str → Key) (request : Request) (pairs : List (Nat × Line)) (s : LoopState Key) :
    let written := pairs.foldl (LoopState.write digest request) s
    written = { s with results := written.results, cache := written.cache } := by
  induction pairs generalizing s with
  | nil => rfl
  | cons pair pairs ih => exact ih (s.write digest request pair)

/-- The indices of the lines that passed through. -/
def passedIndices (batch : List Nat) (lines : List Line) : List Nat :=
  ((batch.zip lines).filter (·.2.passedThrough)).map Prod.fst

theorem mem_passedIndices {batch : List Nat} {lines : List Line} {i : Nat} :
    i ∈ passedIndices batch lines ↔
      ∃ line, (i, line) ∈ batch.zip lines ∧ line.passedThrough = true := by
  simp [passedIndices]

theorem passedIndices_card {batch : List Nat} {lines : List Line} (distinct : batch.Nodup)
    (lengths : batch.length = lines.length) :
    (passedIndices batch lines).toFinset.card = lines.countP (·.passedThrough) := by
  have indices : (batch.zip lines).map Prod.fst = batch := List.map_fst_zip lengths.le
  have sublist : (passedIndices batch lines).Sublist batch := by
    have kept := (List.filter_sublist (p := (·.2.passedThrough)) (l := batch.zip lines)).map Prod.fst
    rwa [indices] at kept
  rw [List.toFinset_card_of_nodup (sublist.nodup distinct), passedIndices, List.length_map,
    ← List.countP_eq_length_filter]
  conv => rhs; rw [← List.map_snd_zip lengths.ge, List.countP_map]
  rfl

/-- A pending batch finishes with fitting lines, beside the batches that still run. -/
structure Finishes (digest : Str → Key) (request : Request) (s : LoopState Key) (batch : List Nat)
    (lines : List Line) : Prop where
  indices : (batch.zip lines).map Prod.fst = batch
  distinct : batch.Nodup
  others : (s.pending.erase batch).flatten.Nodup
  apart : ∀ i ∈ batch, i ∉ (s.pending.erase batch).flatten
  split : ∀ i, i ∈ s.pending.flatten ↔ i ∈ batch ∨ i ∈ (s.pending.erase batch).flatten
  fits : ∀ pair ∈ batch.zip lines, LineFits s.calls request.target (request.text pair.1) pair.2
  cache : CacheFits digest s.calls (s.collect digest request batch lines).cache
  length : (s.collect digest request batch lines).results.length = s.results.length
  hits : ∀ pair ∈ batch.zip lines,
    (s.collect digest request batch lines).results[pair.1]? = some (some pair.2.text)
  misses : ∀ i ∉ batch, (s.collect digest request batch lines).results[i]? = s.results[i]?

theorem LoopState.Consistent.finishes {todo batch : List Nat} {lines : List Line}
    {s : LoopState Key} (before : s.Consistent digest request todo) (member : batch ∈ s.pending)
    (fits : List.Forall₂ (LineFits s.calls request.target) (batch.map request.text) lines) :
    Finishes digest request s batch lines := by
  have split : s.pending.flatten.Perm (batch ++ (s.pending.erase batch).flatten) :=
    (List.perm_cons_erase member).flatten
  have apart := List.nodup_append'.mp (split.nodup_iff.mp before.distinct)
  have mem_split (i : Nat) :
      i ∈ s.pending.flatten ↔ i ∈ batch ∨ i ∈ (s.pending.erase batch).flatten := by
    rw [split.mem_iff, List.mem_append]
  have lengths : batch.length = lines.length := by
    rw [← fits.length_eq, List.length_map]
  have indices : (batch.zip lines).map Prod.fst = batch := List.map_fst_zip lengths.le
  have pairFits (pair : Nat × Line) (inZip : pair ∈ batch.zip lines) :
      LineFits s.calls request.target (request.text pair.1) pair.2 := by
    rw [List.forall₂_map_left_iff, List.forall₂_iff_zip] at fits
    exact fits.2 inZip
  obtain ⟨cache, length, hits, misses⟩ := foldl_write (indices.symm ▸ apart.1) before.cache
    pairFits fun pair inZip =>
      before.results ▸ before.inside _ ((mem_split _).mpr (.inl (List.of_mem_zip inZip).1))
  rw [indices] at misses
  exact ⟨indices, apart.1, apart.2.1, fun i inBatch inRest => apart.2.2 inBatch inRest, mem_split,
    pairFits, cache, length, hits, misses⟩

/-- The lines that passed through join the positions that fell back. -/
theorem LoopState.Consistent.collect_entries {todo batch : List Nat} {lines : List Line}
    {s : LoopState Key} (before : s.Consistent digest request todo)
    (finishes : Finishes digest request s batch lines) (lengths : batch.length = lines.length) :
    ∃ fallen : Finset Nat, (s.collect digest request batch lines).fallbacks.sum = fallen.card ∧
      (∀ i ∈ fallen, i < request.segs.length ∧ i ∉ (s.pending.erase batch).flatten) ∧
      ∀ i seg, request.segs[i]? = some seg → i ∉ (s.pending.erase batch).flatten →
        ∃ text, (s.collect digest request batch lines).results[i]? = some (some text) ∧
          Entry s.calls request.target seg text (i ∈ fallen) := by
  obtain ⟨fallen, total, finished, entries⟩ := before.entries
  have inBatch (pair : Nat × Line) (inZip : pair ∈ batch.zip lines) : pair.1 ∈ batch :=
    (List.of_mem_zip inZip).1
  have disjoint : Disjoint fallen (passedIndices batch lines).toFinset := by
    rw [Finset.disjoint_left]
    intro i inFallen inPassed
    rw [List.mem_toFinset, mem_passedIndices] at inPassed
    obtain ⟨line, inZip, _⟩ := inPassed
    exact (finished i inFallen).2 ((finishes.split i).mpr (.inl (inBatch _ inZip)))
  refine ⟨fallen ∪ (passedIndices batch lines).toFinset, ?_, ?_, ?_⟩
  · rw [Finset.card_union_of_disjoint disjoint, passedIndices_card finishes.distinct lengths, ← total]
    rw [LoopState.collect]
    dsimp only
    split
    · rename_i none_
      rw [none_, Nat.add_zero]
    · rw [List.sum_append, List.sum_singleton]
  · intro i inUnion
    rcases Finset.mem_union.mp inUnion with inFallen | inPassed
    · obtain ⟨bound, closed⟩ := finished i inFallen
      exact ⟨bound, fun inRest => closed ((finishes.split i).mpr (.inr inRest))⟩
    · rw [List.mem_toFinset, mem_passedIndices] at inPassed
      obtain ⟨line, inZip, _⟩ := inPassed
      have member := inBatch _ inZip
      exact ⟨before.inside i ((finishes.split i).mpr (.inl member)), finishes.apart i member⟩
  · intro i seg found closed
    by_cases member : i ∈ batch
    · have unmatched : i ∉ fallen := fun inFallen =>
        (finished i inFallen).2 ((finishes.split i).mpr (.inl member))
      have needed := before.needed i (before.open_ i ((finishes.split i).mpr (.inl member))) seg found
      obtain ⟨line, inZip⟩ : ∃ line, (i, line) ∈ batch.zip lines := by
        obtain ⟨⟨_, line⟩, inZip, rfl⟩ := List.mem_map.mp (finishes.indices.symm ▸ member)
        exact ⟨line, inZip⟩
      have lineFits := finishes.fits _ inZip
      have passes : i ∈ fallen ∪ (passedIndices batch lines).toFinset ↔ line.passedThrough = true := by
        rw [Finset.mem_union, List.mem_toFinset, mem_passedIndices, or_iff_right unmatched]
        constructor
        · rintro ⟨other, inZipOther, passed⟩
          have same := List.inj_on_of_nodup_map (finishes.indices.symm ▸ finishes.distinct) inZip
            inZipOther rfl
          cases same
          exact passed
        · exact fun passed => ⟨line, inZip, passed⟩
      refine ⟨line.text, finishes.hits _ inZip, ?_⟩
      rw [LineFits, Request.text_of_getElem? found] at lineFits
      rw [decide_eq_decide.mpr passes]
      split at lineFits
      · rename_i passed
        rw [decide_eq_true passed]
        exact .fallback needed lineFits
      · rename_i translated
        rw [decide_eq_false translated]
        exact .provider needed lineFits
    · have notOpen : i ∉ s.pending.flatten := by
        rw [finishes.split]
        exact not_or.mpr ⟨member, closed⟩
      obtain ⟨text, stored, entry⟩ := entries i seg found notOpen
      have same : i ∈ fallen ∪ (passedIndices batch lines).toFinset ↔ i ∈ fallen := by
        rw [Finset.mem_union, List.mem_toFinset, mem_passedIndices]
        refine or_iff_left ?_
        rintro ⟨line, inZip, _⟩
        exact member (inBatch _ inZip)
      refine ⟨text, (finishes.misses i member).trans stored, ?_⟩
      rw [decide_eq_decide.mpr same]
      exact entry

/-- A batch that finishes with fitting lines keeps the accounts. -/
theorem LoopState.Consistent.collect {todo batch : List Nat} {lines : List Line}
    {s : LoopState Key} (before : s.Consistent digest request todo) (member : batch ∈ s.pending)
    (sent : ∀ text ∈ batch.map request.text, Sent s.calls request.target text)
    (fits : List.Forall₂ (LineFits s.calls request.target) (batch.map request.text) lines) :
    (s.collect digest request batch lines).Consistent digest request todo := by
  have finishes := before.finishes member fits
  have frame := foldl_write_frame digest request (batch.zip lines) s
  have calls : (s.collect digest request batch lines).calls = s.calls := by
    rw [LoopState.collect, frame]
  have cached : (s.collect digest request batch lines).cached = s.cached := by
    rw [LoopState.collect, frame]
  refine {
    cache := calls.symm ▸ finishes.cache, results := finishes.length.trans before.results
    inside := ?_, open_ := ?_, needed := before.needed, distinct := finishes.others, nonempty := ?_
    entries := ?_, sent := ?_, count := ?_, cached := cached.symm ▸ before.cached, first := ?_
    last := ?_, grows := ?_ }
  · exact fun i inRest => before.inside i ((finishes.split i).mpr (.inr inRest))
  · exact fun i inRest => before.open_ i ((finishes.split i).mpr (.inr inRest))
  · exact fun other inRest => before.nonempty other (List.mem_of_mem_erase inRest)
  · rw [calls]
    refine before.collect_entries finishes ?_
    rw [← fits.length_eq, List.length_map]
  · intro i inTodo closed
    rw [calls]
    by_cases member : i ∈ batch
    · exact sent _ (List.mem_map_of_mem member)
    · refine before.sent i inTodo ?_
      rw [finishes.split]
      exact not_or.mpr ⟨member, closed⟩
  · have counted := before.count
    rw [(List.perm_cons_erase member).flatten.length_eq, List.flatten_cons, List.length_append]
      at counted
    change s.done + batch.length + (s.pending.erase batch).flatten.length = todo.length
    omega
  · change (s.progress ++ [_]).head? = _
    rw [List.head?_append, before.first, cached]
    rfl
  · rw [cached]
    exact List.getLast?_concat
  · change (s.progress ++ [_]).IsChain ProgressStep
    rw [List.isChain_append]
    refine ⟨before.grows, List.isChain_singleton _, ?_⟩
    intro earlier isLast later isFirst
    rw [before.last, Option.mem_some_iff] at isLast
    rw [List.head?_singleton, Option.mem_some_iff] at isFirst
    subst isLast isFirst
    have positive := before.nonempty batch member
    constructor
    · change s.cached + s.done < s.cached + (s.done + batch.length)
      omega
    · rfl

/-- Each event of the main thread keeps the accounts. -/
theorem LoopState.Consistent.step {todo : List Nat} {s next : LoopState Key} {event : LoopEvent}
    (before : s.Consistent digest request todo)
    (stepped : s.step digest request event = some next) :
    next.Consistent digest request todo := by
  cases event with
  | cancel =>
      rw [LoopState.step] at stepped
      split at stepped <;> cases stepped
      exact { before with }
  | finish batch script =>
      rw [LoopState.step] at stepped
      split at stepped
      · rename_i guard
        obtain ⟨called, ran, continued⟩ := Option.bind_eq_some_iff.mp stepped
        have asked := before.addCalls called.calls s.raised
        dsimp only at continued
        split at continued
        · cases continued
          exact before.addCalls called.calls _
        · rename_i lines done
          cases continued
          obtain ⟨sent, fits⟩ := runBatch_spec ran done
          exact asked.collect guard.2
            (fun text member => (sent text member).mono (List.subset_append_right _ _))
            (fits.imp fun _ _ fit => fit.mono (List.subset_append_right _ _))
      · cases stepped

/-- A call keeps the log of the calls before it. -/
theorem LoopState.step_calls {s next : LoopState Key} {event : LoopEvent}
    (stepped : s.step digest request event = some next) : s.calls ⊆ next.calls := by
  cases event with
  | cancel =>
      rw [LoopState.step] at stepped
      split at stepped <;> cases stepped
      exact List.Subset.refl _
  | finish batch script =>
      rw [LoopState.step] at stepped
      split at stepped
      · obtain ⟨called, _, continued⟩ := Option.bind_eq_some_iff.mp stepped
        dsimp only at continued
        split at continued <;> cases continued
        · exact List.subset_append_left _ _
        · rw [LoopState.collect, foldl_write_frame]
          exact List.subset_append_left _ _
      · cases stepped

theorem SharedState.Consistent.step (injective : Function.Injective digest)
    {s next : SharedState Key} {call : TranslateCall} (before : s.Consistent digest)
    (stepped : s.step digest call = some next) : next.Consistent digest := by
  unfold SharedState.step at stepped
  split at stepped
  · cases stepped
    exact before
  · rename_i first started
    obtain ⟨last, ran, ended⟩ := Option.bind_eq_some_iff.mp stepped
    have final : last.Consistent digest call.request (missing first.results) :=
      Machine.run_invariant (LoopState.Consistent digest call.request (missing first.results))
        (fun _ _ _ consistent moved => consistent.step moved)
        (LoopState.start_consistent injective before.cache started) ran
    have kept : s.calls ⊆ last.calls := by
      refine Machine.run_invariant (fun now => s.calls ⊆ now.calls)
        (fun _ _ _ earlier moved => List.Subset.trans earlier (LoopState.step_calls moved)) ?_ ran
      obtain ⟨results, _, same⟩ := Fallible.bind_ok.mp started
      cases same
      exact List.Subset.refl _
    have older : ∀ reply ∈ s.replies, reply.Consistent last.calls :=
      fun reply member => (before.replies reply member).mono kept
    split at ended
    · cases ended
      exact ⟨final.cache, older⟩
    · split at ended
      · rename_i finished
        cases ended
        refine ⟨final.cache, ?_⟩
        rintro reply (_ | ⟨_, member⟩)
        · exact final.reply finished
        · exact older reply member
      · cases ended

/-- After any calls of `translate_segments` that share a cache, every call that returned has one
entry for each segment, of its own text, of a validated translation or of its source text, the
latter counted by the fallback reports; the cache holds only validated translations under their
own keys; and the progress reports grow from the segments that were not sent to all of them. -/
theorem batch_driver_consistent (injective : Function.Injective digest)
    {calls : List TranslateCall} {s : SharedState Key}
    (reached : Machine.run (SharedState.step digest) .initial calls = some s) :
    (∀ reply ∈ s.replies, reply.Consistent s.calls) ∧
    (∀ key text, s.cache key = some text → ∃ target source, key = cacheKey digest target source) ∧
    ∀ target source text, s.cache (cacheKey digest target source) = some text →
      Translated s.calls target source text := by
  have final : s.Consistent digest :=
    Machine.run_invariant (SharedState.Consistent digest)
      (fun _ _ _ before moved => before.step injective moved) SharedState.initial_consistent
      reached
  refine ⟨final.replies, ?_, ?_⟩
  · intro key text stored
    obtain ⟨target, source, same, _⟩ := final.cache key text stored
    exact ⟨target, source, same⟩
  · intro target source text stored
    obtain ⟨other, original, same, translated⟩ := final.cache _ text stored
    obtain ⟨rfl, rfl⟩ := cacheKey_injective injective same
    exact translated

end Loop

/-- A request for three segments, of which the last is markup only. -/
def sampleRequest : Request where
  segs := [⟨0, ofString "a", [], false, false⟩, ⟨1, ofString "b", [], false, false⟩,
    ⟨2, ofString "⟦0⟧", [ofString "<i>"], false, false⟩]
  target := .fr
  src := ofString "en"
  batchSize := 2
  batchSize_pos := by decide
  retries := 1
  rateRetries := 1

/-- The batch fails, one of its lines is translated and the other passes through; a second call
finds the translation in the cache. -/
def sampleCalls : List TranslateCall :=
  let good : Attempt := { answer := .returns (some [some (ofString "A")]) }
  let bad : Attempt := { answer := .raises (.translation []) }
  [⟨sampleRequest, [.finish [0, 1] [bad, good, bad]]⟩, ⟨sampleRequest, [.finish [1] [bad]]⟩]

theorem sampleCalls_run :
    ((Machine.run (SharedState.step id) .initial sampleCalls).map fun s =>
      s.replies.map fun reply => (reply.results, reply.fallbacks, reply.progress)) =
      some [([ofString "A", ofString "b", ofString "⟦0⟧"], [1], [(2, 3), (3, 3)]),
        ([ofString "A", ofString "b", ofString "⟦0⟧"], [1], [(1, 3), (3, 3)])] := by
  decide +kernel

theorem batch_driver_consistent_example :
    ∃ s, Machine.run (SharedState.step id) .initial sampleCalls = some s ∧
      s.replies.map Reply.fallbacks = [[1], [1]] ∧
      (∀ reply ∈ s.replies, reply.Consistent s.calls) ∧
      ∀ target source text, s.cache (cacheKey id target source) = some text →
        Translated s.calls target source text := by
  obtain ⟨s, ran, seen⟩ := Option.map_eq_some_iff.mp sampleCalls_run
  have consistent := batch_driver_consistent Function.injective_id ran
  refine ⟨s, ran, ?_, consistent.1, consistent.2.2⟩
  have reports := congrArg (List.map fun entry => entry.2.1) seen
  rw [List.map_map] at reports
  exact reports

end SubtitleTranslator.Engine

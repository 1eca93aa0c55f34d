import SubtitleTranslator.Proof.AssFrame
import SubtitleTranslator.Proof.RebuildFidelity
import SubtitleTranslator.Proof.SrtNormalForm

namespace SubtitleTranslator.Engine
open Library Library.Text

/-- Byte order marks and line ends do not meet. -/
theorem stripMark_normalizeNewlines (s : Str) :
    stripMark (normalizeNewlines s) = normalizeNewlines (stripMark s) := by
  induction s with
  | nil => rfl
  | cons c s ih =>
      by_cases mark : c = 0xfeff
      · have kept : stripMark (c :: s) = stripMark s := List.dropWhile_cons_of_pos (by simp [mark])
        rw [kept, ← ih, normalizeNewlines_cons_of_ne (by rw [mark]; decide)]
        exact List.dropWhile_cons_of_pos (by simp [mark])
      · have kept : stripMark (c :: s) = c :: s := List.dropWhile_cons_of_neg (by simp [mark])
        rw [kept]
        by_cases cr : c = 0xd
        · subst cr
          apply stripMark_eq_self
          cases s with
          | nil => decide
          | cons d s =>
              rw [normalizeNewlines, replaceCrLf]
              split
              · simp
              · simp
        · rw [normalizeNewlines_cons_of_ne cr]
          exact stripMark_eq_self (by simpa using mark)

/-- The lines of a file that its adapters see. -/
def fileLines (text : Str) : List Str := lines (stripMark text)

theorem splitOn_stripMark (text : Str) :
    (stripMark (normalizeNewlines text)).splitOn 0xa = fileLines text := by
  rw [stripMark_normalizeNewlines]
  rfl

theorem parseSrt_normalizeNewlines (text : Str) : parseSrt (normalizeNewlines text) = parseSrt text := by
  rw [parseSrt, lines, stripMark_normalizeNewlines, normalizeNewlines_idempotent]
  rfl

/-- The newline of a document is the one that its file shows first. -/
def newlineOf (text : Str) : Newline :=
  if occurs [0xd, 0xa] (text.take 8192) then .crLf else .lf

theorem parseSubtitle_srt {bom : Bool} {text : Str} {doc : Document} :
    parseSubtitle .srt bom text = .ok doc ↔
      ∃ cues, parseSrt text = .ok cues ∧ cues ≠ [] ∧ doc = ⟨.srt, cues, newlineOf text, bom⟩ := by
  rw [parseSubtitle, parseSrt_normalizeNewlines]
  cases parsed : parseSrt text with
  | error failure => exact ⟨nofun, fun ⟨_, same, _⟩ => by cases same⟩
  | ok cues =>
      show (if cues = [] then _ else Except.ok _) = _ ↔ _
      split
      · rename_i none_
        refine ⟨nofun, fun ⟨_, same, some_, _⟩ => ?_⟩
        cases same
        exact absurd none_ some_
      · rename_i some_
        constructor
        · intro same
          cases same
          exact ⟨cues, rfl, some_, rfl⟩
        · rintro ⟨_, same, _, rfl⟩
          cases same
          rfl

/-- The format of an ASS or SSA document. -/
def scriptFormat (ssa : Bool) : FileFormat := if ssa then .ssa else .ass

theorem parseSubtitle_ass {ssa bom : Bool} {text : Str} {doc : Document} :
    parseSubtitle (scriptFormat ssa) bom text = .ok doc ↔
      ∃ events, readEvents false [] 0 0 (fileLines text) = .ok events ∧ events ≠ [] ∧
        doc = ⟨.ass ssa (fileLines text) (events.map Prod.snd), events.map Prod.fst,
          newlineOf text, bom⟩ := by
  have reads : parseSubtitle (scriptFormat ssa) bom text = (do
      let doc ← parseAss (normalizeNewlines text) ssa (newlineOf text) bom
      if doc.cues = [] then .error (.format (ofString "No subtitle cues were found in the file."))
      else pure doc) := by
    cases ssa <;> rfl
  rw [reads, parseAss, splitOn_stripMark]
  cases read : readEvents false [] 0 0 (fileLines text) with
  | error failure => exact ⟨nofun, fun ⟨_, same, _⟩ => by cases same⟩
  | ok events =>
      show (if events.map Prod.fst = [] then _ else Except.ok _) = _ ↔ _
      split
      · rename_i none_
        rw [List.map_eq_nil_iff] at none_
        refine ⟨nofun, fun ⟨_, same, some_, _⟩ => ?_⟩
        cases same
        exact absurd none_ some_
      · rename_i some_
        rw [List.map_eq_nil_iff] at some_
        constructor
        · intro same
          cases same
          exact ⟨events, rfl, some_, rfl⟩
        · rintro ⟨_, same, _, rfl⟩
          cases same
          rfl

section Rebuild
variable (wide : CodePoint → Bool) (target : Language) (width : ℚ) (maxLines : Nat)

/-- A cue is rebuilt from its own segments: its lines are new when one of them needs translation,
and everything else stays. -/
theorem rebuildCue_eq {cue new : Cue} {items : List (Segment × Str)}
    (rebuilt : rebuildCue wide target width maxLines cue items = .ok new) :
    (isRewritten items = false ∧ new = cue) ∨
      isRewritten items = true ∧ ∃ body, new = { cue with lines := body } ∧
        rebuiltLines wide target width maxLines (cue.dialect = .vtt) items = .ok body := by
  rw [rebuildCue] at rebuilt
  split at rebuilt
  · rename_i rewritten
    obtain ⟨body, made, same⟩ := Fallible.bind_ok.mp rebuilt
    cases same
    exact .inr ⟨rewritten, body, rfl, made⟩
  · rename_i untouched
    cases rebuilt
    exact .inl ⟨by simpa using untouched, rfl⟩

/-- The cues are rebuilt one by one. -/
theorem rebuildCues_eq {cues result : List Cue} {segs : List Segment} {out : List Str}
    (rebuilt : rebuildCues wide target width maxLines cues segs out = .ok result) :
    result.length = cues.length ∧ ∀ i cue new, cues[i]? = some cue → result[i]? = some new →
      rebuildCue wide target width maxLines cue (itemsOf segs out i) = .ok new := by
  rw [rebuildCues] at rebuilt
  split at rebuilt
  · have all := Fallible.mapM_ok.mp rebuilt
    have length : result.length = cues.length := by
      rw [← all.length_eq, List.length_zipIdx]
    refine ⟨length, fun i cue new found stored => ?_⟩
    obtain ⟨inCues, rfl⟩ := List.getElem?_eq_some_iff.mp found
    obtain ⟨inResult, rfl⟩ := List.getElem?_eq_some_iff.mp stored
    have here := all.get (by rwa [List.length_zipIdx]) inResult
    simpa [itemsOf] using here
  · cases rebuilt

/-- The lines of a translated cue are not empty. -/
theorem rebuiltLines_ne_nil {vtt : Bool} {items : List (Segment × Str)} {body : List Str}
    (rewritten : isRewritten items = true)
    (made : rebuiltLines wide target width maxLines vtt items = .ok body) : body ≠ [] := by
  unfold rebuiltLines at made
  split at made
  · rename_i item
    obtain ⟨s, _, same⟩ := Fallible.bind_ok.mp made
    cases same
    rw [ne_eq, List.map_eq_nil_iff]
    cases lines : wrapText wide target width maxLines (strip s) with
    | nil => exact absurd lines (wrapText_ne_nil wide target width maxLines (strip s))
    | cons first rest =>
        rw [dashBody]
        split
        · exact List.cons_ne_nil _ _
        · exact List.cons_ne_nil _ _
  · rename_i items _
    rintro rfl
    have same := Fallible.mapM_ok.mp made
    rw [List.forall₂_nil_right_iff] at same
    subst same
    cases rewritten

end Rebuild

end SubtitleTranslator.Engine

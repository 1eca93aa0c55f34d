import SubtitleTranslator.Proof.Masking

namespace SubtitleTranslator.Engine
open Library Library.Text

/-- A token of the lead of a dash: whitespace or a sentinel. -/
def Token.isLeading : Token → Prop
  | .char c => isSpace c = true
  | .sentinel before digits after => (Token.sentinel before digits after).Clean

/-- Each match of the pattern takes leading tokens. -/
def TakesLead {β : Type} (x : Pattern CodePoint β) : Prop :=
  ∀ s, ∀ result ∈ x s, ∃ tokens : List Token, (∀ token ∈ tokens, token.isLeading) ∧
    s = tokens.flatMap Token.text ++ result.2

theorem takesLead_pure {β : Type} (value : β) : TakesLead (pure value) := by
  intro s result member
  rw [Pattern.mem_pure] at member
  subst member
  exact ⟨[], nofun, rfl⟩

theorem TakesLead.bind {β γ : Type} {first : Pattern CodePoint β} {next : β → Pattern CodePoint γ}
    (before : TakesLead first) (after : ∀ value, TakesLead (next value)) :
    TakesLead (first >>= next) := by
  intro s result member
  obtain ⟨middle, inFirst, inNext⟩ := Pattern.mem_bind.mp member
  obtain ⟨front, leading, same⟩ := before s middle inFirst
  obtain ⟨back, leadingBack, sameBack⟩ := after middle.1 _ result inNext
  refine ⟨front ++ back, List.forall_mem_append.mpr ⟨leading, leadingBack⟩, ?_⟩
  rw [same, sameBack, List.flatMap_append, List.append_assoc]

theorem TakesLead.starUpTo {β : Type} {x : Pattern CodePoint β} (takes : TakesLead x)
    (fuel : Nat) : TakesLead (Pattern.starUpTo x fuel) := by
  induction fuel with
  | zero => exact takesLead_pure []
  | succ fuel ih =>
      intro s result member
      rcases Pattern.mem_either.mp member with more | stop
      · exact takes.bind (fun _ => ih.bind fun _ => takesLead_pure _) s result more
      · exact takesLead_pure [] s result stop

theorem flatMap_char (s : Str) : (s.map Token.char).flatMap Token.text = s := by
  rw [List.flatMap_map]
  exact List.flatMap_singleton' s

theorem takesLead_spaces : TakesLead (Pattern.many isSpace) := by
  intro s result member
  obtain ⟨same, spaces⟩ := Pattern.of_mem_many member
  refine ⟨result.1.map Token.char, ?_, ?_⟩
  · intro token inRun
    obtain ⟨c, inside, rfl⟩ := List.mem_map.mp inRun
    exact spaces c inside
  · rw [flatMap_char]
    exact same

/-- One sentinel of the lead with the whitespace after it. -/
theorem takesLead_sentinel : TakesLead leadSentinelRe := by
  intro s result member
  obtain ⟨⟨first, s₁⟩, opening, h⟩ := Pattern.mem_bind.mp member
  obtain ⟨⟨digits, s₂⟩, decimals, h⟩ := Pattern.mem_bind.mp h
  obtain ⟨⟨last, s₃⟩, closing, h⟩ := Pattern.mem_bind.mp h
  obtain ⟨tokens, leading, same⟩ := takesLead_spaces _ _ h
  obtain ⟨rfl, isFirst⟩ := Pattern.mem_one.mp opening
  obtain ⟨rfl, nonempty, allDigits⟩ := Pattern.of_mem_many1 decimals
  obtain ⟨rfl, isLast⟩ := Pattern.mem_one.mp closing
  refine ⟨.sentinel [] digits [] :: tokens,
    List.forall_mem_cons.mpr ⟨⟨nofun, nonempty, allDigits, nofun⟩, leading⟩, ?_⟩
  have opens : first = 0x27e6 := by simpa [isOpening] using isFirst
  have closes : last = 0x27e7 := by simpa [isClosing] using isLast
  dsimp only at same
  simp [Token.text, opens, closes, same]

theorem TakesLead.suffixes {β : Type} {x : Pattern CodePoint β} (takes : TakesLead x) :
    x.Suffixes := by
  intro s result member
  obtain ⟨tokens, _, same⟩ := takes s result member
  exact ⟨_, same.symm⟩

theorem takesLead_leadRe : TakesLead leadRe :=
  takesLead_spaces.bind fun _ s result member =>
    takesLead_sentinel.starUpTo s.length s result member

/-- The dashes of `DASH_RE`. -/
def isDash (c : CodePoint) : Bool := c == 0x2d || c == 0x2013 || c == 0x2014

/-- A dash splits a text after leading tokens, before some whitespace and a visible rest, and it is
no minus sign. -/
theorem of_match_dashRe {masked lead rest : Str} (matched : dashRe.match? masked = some (lead, rest)) :
    ∃ (tokens : List Token) (dash : CodePoint) (spaces : Str),
      (∀ token ∈ tokens, token.isLeading) ∧ lead = tokens.flatMap Token.text ∧
      masked = lead ++ dash :: (spaces ++ rest) ∧ (Token.char dash).Clean ∧
      (∀ c ∈ spaces, isSpace c = true) ∧ (∃ c ∈ rest.head?, Visible c) ∧ isDash dash = true ∧
      (dash = 0x2d → ∀ c ∈ (spaces ++ rest).head?, isDecimal c = false) := by
  obtain ⟨⟨lead', s₁⟩, leads, h⟩ := Pattern.mem_bind.mp (Pattern.match?_mem matched)
  obtain ⟨⟨_, s₂⟩, dashes, h⟩ := Pattern.mem_bind.mp h
  obtain ⟨⟨spaces, s₃⟩, blanks, h⟩ := Pattern.mem_bind.mp h
  obtain ⟨⟨_, s₄⟩, looks, h⟩ := Pattern.mem_bind.mp h
  rw [Pattern.mem_pure] at h
  obtain ⟨rfl, rfl⟩ := Prod.mk.inj h
  obtain ⟨same, value, inside⟩ := Pattern.of_mem_captured takesLead_leadRe.suffixes leads
  obtain ⟨tokens, leading, spelled⟩ := takesLead_leadRe _ _ inside
  dsimp only at same spelled
  have leadText : lead = tokens.flatMap Token.text :=
    List.append_cancel_right (same.symm.trans spelled)
  obtain ⟨blanksSame, blank⟩ := Pattern.of_mem_many blanks
  have dashed : ∃ dash, s₁ = dash :: s₂ ∧ (Token.char dash).Clean ∧ isDash dash = true ∧
      (dash = 0x2d → ∀ c ∈ s₂.head?, isDecimal c = false) := by
    rcases Pattern.mem_either.mp dashes with hyphen | long
    · obtain ⟨⟨dash, s₅⟩, isDash, looksOn⟩ := Pattern.mem_bind.mp hyphen
      obtain ⟨split, isHyphen⟩ := Pattern.mem_one.mp isDash
      have left := Pattern.of_mem_notAhead looksOn
      have unfollowed := Pattern.head_of_mem_notAhead looksOn
      dsimp only at split isHyphen left unfollowed
      rw [beq_iff_eq] at isHyphen
      subst left
      refine ⟨dash, split, ?_, ?_, fun _ => unfollowed⟩
      · rw [isHyphen]
        exact ⟨by decide, by decide⟩
      · rw [isHyphen]
        rfl
    · obtain ⟨⟨dash, s₅⟩, isDash, final⟩ := Pattern.mem_bind.mp long
      rw [Pattern.mem_pure] at final
      obtain ⟨split, isLong⟩ := Pattern.mem_one.mp isDash
      dsimp only at split isLong final
      have left := (Prod.mk.inj final).2
      rw [Bool.or_eq_true, beq_iff_eq, beq_iff_eq] at isLong
      refine ⟨dash, by rw [split, left], ?_⟩
      rcases isLong with rfl | rfl <;>
        exact ⟨⟨by decide, by decide⟩, by decide, fun hyphen => absurd hyphen (by decide)⟩
  obtain ⟨dash, dashSame, clean, isDash, minus⟩ := dashed
  obtain ⟨restSame, c, front, seen⟩ := Pattern.of_mem_ahead looks
  dsimp only at blanksSame blank restSame front
  refine ⟨tokens, dash, spaces, leading, leadText, ?_, clean, blank, ⟨c, ?_, ?_⟩, isDash, ?_⟩
  · rw [same, dashSame, blanksSame, restSame]
  · rw [restSame]
    exact front
  · simpa [Visible] using seen
  · rw [restSame, ← blanksSame]
    exact minus

theorem Token.isLeading.clean {token : Token} (leading : token.isLeading) : token.Clean := by
  cases token with
  | sentinel before digits after => exact leading
  | char c =>
      constructor
      · by_contra opening
        rw [Bool.not_eq_false, isOpening, beq_iff_eq] at opening
        rw [opening] at leading
        change isSpace 0x27e6 = true at leading
        revert leading
        decide
      · by_contra closing
        rw [Bool.not_eq_false, isClosing, beq_iff_eq] at closing
        rw [closing] at leading
        change isSpace 0x27e7 = true at leading
        revert leading
        decide

theorem solid_sentinel (before digits after : Str) :
    Solid (Token.sentinel before digits after).text := by
  refine ⟨⟨0x27e6, rfl, rfl⟩, 0x27e7, ?_, rfl⟩
  rw [Token.text, ← List.append_assoc, ← List.append_assoc, ← List.cons_append,
    List.getLast?_concat]
  rfl

/-- A part that a reading leaves empty can be dropped from the front. -/
theorem flatMap_dropWhile {β γ : Type} {f : β → List γ} {blank : β → Bool} {pieces : List β}
    (empty : ∀ piece ∈ pieces, blank piece = true → f piece = []) :
    (pieces.dropWhile blank).flatMap f = pieces.flatMap f := by
  induction pieces with
  | nil => rfl
  | cons piece pieces ih =>
      rw [List.forall_mem_cons] at empty
      cases kind : blank piece with
      | true =>
          rw [List.dropWhile_cons_of_pos kind, ih empty.2, List.flatMap_cons, empty.1 kind]
          rfl
      | false => rw [List.dropWhile_cons_of_neg (by simp [kind])]

/-- A part that a reading leaves empty can be dropped from the back. -/
theorem flatMap_rdropWhile {β γ : Type} {f : β → List γ} {blank : β → Bool} {pieces : List β}
    (empty : ∀ piece ∈ pieces, blank piece = true → f piece = []) :
    (pieces.rdropWhile blank).flatMap f = pieces.flatMap f := by
  induction pieces using List.reverseRecOn with
  | nil => rfl
  | append_singleton pieces piece ih =>
      rw [List.forall_mem_append, List.forall_mem_singleton] at empty
      cases kind : blank piece with
      | true =>
          rw [List.rdropWhile_concat_pos _ _ _ kind, ih empty.1, List.flatMap_append,
            List.flatMap_singleton, empty.2 kind, List.append_nil]
      | false => rw [List.rdropWhile_concat_neg _ _ _ (by simp [kind])]

/-- Stripping leading tokens leaves some of them, and drops nothing that can be seen. -/
theorem strip_leading {tokens : List Token} (leading : ∀ token ∈ tokens, token.isLeading) :
    ∃ kept : List Token, (∀ token ∈ kept, token.isLeading) ∧
      strip (tokens.flatMap Token.text) = kept.flatMap Token.text ∧
      ∀ (γ : Type) (f : Token → List γ), (∀ c, isSpace c = true → f (.char c) = []) →
        kept.flatMap f = tokens.flatMap f := by
  let blank : Token → Bool := fun token =>
    match token with
    | .char _ => true
    | .sentinel _ _ _ => false
  refine ⟨(tokens.dropWhile blank).rdropWhile blank, ?_, strip_flatMap ?_ ?_, ?_⟩
  · intro token member
    exact leading token ((List.dropWhile_sublist blank).subset
      ((List.rdropWhile_prefix blank _).subset member))
  · intro token member kind c inside
    cases token with
    | sentinel before digits after => cases kind
    | char space =>
        rw [Token.text, List.mem_singleton] at inside
        exact inside ▸ leading _ member
  · intro token member kind
    cases token with
    | sentinel before digits after => exact solid_sentinel before digits after
    | char space => cases kind
  · intro γ f unseen
    have empty (token : Token) (member : token ∈ tokens) (kind : blank token = true) :
        f token = [] := by
      cases token with
      | sentinel before digits after => cases kind
      | char space => exact unseen space (leading _ member)
    rw [flatMap_rdropWhile, flatMap_dropWhile empty]
    exact fun token member => empty token ((List.dropWhile_sublist blank).subset member)

/-- `int` reads a written number or raises. -/
theorem int_decimal {k m : Nat} (read : int (decimal k) = .ok m) : m = k := by
  unfold int at read
  rw [int?_decimal] at read
  split at read
  · rename_i value same
    split at same
    · cases same
      cases read
      rfl
    · cases same
  · cases read

/-- The numbers of a masked text are those of its tags. -/
theorem Masked.numbers {text : Str} {tags : List Str} (masked : Masked text tags) :
    sentinelRe.findall text = (List.range tags.length).map decimal := by
  obtain ⟨tokens, clean, rfl, numbers⟩ := masked.spelled
  have read := scan_tokens clean []
  rw [List.append_nil, Pattern.scan_nil, List.append_nil] at read
  rw [Pattern.findall, read, numbers]

/-- The line without its dash still has something to see. -/
theorem splitDash_visible {line : Str} {split : SplitLine} {ass : Bool} (solid : Solid line)
    (done : splitDash line ass = .ok split) : visible split.body ≠ [] := by
  obtain ⟨⟨masked, tags⟩, masks, continued⟩ := Fallible.bind_ok.mp done
  have back : ∀ c ∈ line.getLast?, Visible c := by
    obtain ⟨last, isLast, seen⟩ := solid.back
    intro c other
    cases Option.mem_unique isLast other
    exact seen
  have isMasked := maskTags_masked back masks
  dsimp only at continued
  split at continued
  · cases continued
    obtain ⟨c, front, seen⟩ := solid.front
    exact visible_ne_nil (List.mem_of_mem_head? front) seen
  · rename_i lead rest matched
    obtain ⟨body, unmasked, same⟩ := Fallible.bind_ok.mp continued
    cases same
    obtain ⟨tokens, dash, spaces, leading, rfl, split, clean, blank, ⟨c, front, seen⟩, _⟩ :=
      of_match_dashRe matched
    obtain ⟨kept, keptLeading, strips, _⟩ := strip_leading leading
    obtain ⟨texts, parts, same⟩ := Fallible.bind_ok.mp unmasked
    cases same
    rw [strips, scan_tokens fun token member => (keptLeading token member).clean] at parts
    -- The rest is read as in the masked line, so that its sentinels have tags.
    have read : sentinelRe.scan masked =
        (tokens ++ .char dash :: spaces.map Token.char).map Token.read ++ sentinelRe.scan rest := by
      rw [split, ← scan_tokens]
      · rw [List.flatMap_append, List.flatMap_cons, flatMap_char]
        simp [Token.text]
      · intro token member
        rcases List.mem_append.mp member with inLead | (_ | ⟨_, inSpaces⟩)
        · exact (leading token inLead).clean
        · exact clean
        · obtain ⟨space, inside, rfl⟩ := List.mem_map.mp inSpaces
          exact (show (Token.char space).isLeading from blank space inside).clean
    have spec := Fallible.mapM_ok.mp parts
    suffices seenPart : ∃ part ∈ sentinelRe.scan rest, ∀ text, unmaskPart tags part = .ok text →
        ∃ c ∈ text, Visible c by
      obtain ⟨part, inScan, sees⟩ := seenPart
      obtain ⟨text, inTexts, unmasks⟩ :=
        Fallible.exists_of_forall₂ spec (List.mem_append_right _ inScan)
      obtain ⟨c, inText, seen⟩ := sees text unmasks
      exact visible_ne_nil (List.mem_flatten.mpr ⟨text, inTexts, inText⟩) seen
    cases rest with
    | nil => cases front
    | cons first others =>
        cases front
        cases hit : sentinelRe.match? (c :: others) with
        | none =>
            rw [Pattern.scan_cons_of_none hit]
            refine ⟨_, List.mem_cons_self, ?_⟩
            rintro text ⟨⟩
            exact ⟨c, List.mem_singleton_self _, seen⟩
        | some result =>
            obtain ⟨digits, left⟩ := result
            obtain ⟨head, taken, taking⟩ := sentinelRe_consumes _ _ (Pattern.match?_mem hit)
            dsimp only at taking
            obtain ⟨rfl, rfl⟩ := List.cons.inj taking
            rw [Pattern.scan_cons_of_some hit] at read ⊢
            refine ⟨_, List.mem_cons_self, fun text unmasks => ?_⟩
            have numbered : digits ∈ sentinelRe.findall masked := by
              rw [Pattern.findall, read, List.mem_filterMap]
              exact ⟨.inr digits, List.mem_append_right _ List.mem_cons_self, rfl⟩
            rw [isMasked.numbers] at numbered
            obtain ⟨k, inRange, rfl⟩ := List.mem_map.mp numbered
            obtain ⟨m, number, final⟩ := Fallible.bind_ok.mp unmasks
            obtain rfl := int_decimal number
            rw [List.mem_range] at inRange
            cases final
            have solidTag := isMasked.solid _ (List.getElem_mem inRange)
            obtain ⟨c, isFirst, seenTag⟩ := solidTag.front
            refine ⟨c, ?_, seenTag⟩
            rw [List.getElem?_eq_getElem inRange]
            exact List.mem_of_mem_head? isFirst

/-- The texts of a speaker are solid. -/
def Speaker.Fits (speaker : Speaker) : Prop :=
  speaker.bodies ≠ [] ∧ ∀ body ∈ speaker.bodies, Solid body

theorem addSpeaker_fits {groups : List Speaker} {line : SplitLine}
    (before : ∀ speaker ∈ groups, speaker.Fits) (seen : visible line.body ≠ []) :
    ∀ speaker ∈ addSpeaker groups line, speaker.Fits := by
  have body : Solid (strip line.body) := strip_solid (strip_ne_nil seen)
  have fresh : Speaker.Fits ⟨line.dashed, line.inside, [strip line.body]⟩ :=
    ⟨List.cons_ne_nil _ _, List.forall_mem_singleton.mpr body⟩
  cases groups with
  | nil => exact List.forall_mem_singleton.mpr fresh
  | cons last others =>
      rw [addSpeaker]
      split
      · exact List.forall_mem_cons.mpr ⟨fresh, before⟩
      · rw [List.forall_mem_cons] at before ⊢
        refine ⟨⟨?_, ?_⟩, before.2⟩
        · exact List.append_ne_nil_of_right_ne_nil _ (List.cons_ne_nil _ _)
        · exact List.forall_mem_append.mpr ⟨before.1.2, List.forall_mem_singleton.mpr body⟩

theorem foldl_addSpeaker_fits {parsed : List SplitLine} {groups : List Speaker}
    (before : ∀ speaker ∈ groups, speaker.Fits)
    (seen : ∀ line ∈ parsed, visible line.body ≠ []) :
    ∀ speaker ∈ parsed.foldl addSpeaker groups, speaker.Fits := by
  induction parsed generalizing groups with
  | nil => exact before
  | cons line parsed ih =>
      rw [List.forall_mem_cons] at seen
      exact ih (addSpeaker_fits before seen.1) seen.2

/-- A segment that is masked from a text that ends visibly is well masked. -/
theorem maskSegment_masked {unescape : Str → Str} {cue : Cue} {cueIndex : Nat}
    {dashed inside : Bool} {text : Str} {seg : Segment}
    (ends : ∀ c ∈ text.getLast?, Visible c)
    (masks : maskSegment unescape cue cueIndex dashed inside text = .ok seg) :
    seg.cueIndex = cueIndex ∧ Masked seg.text seg.tags := by
  obtain ⟨⟨masked, tags⟩, masking, same⟩ := Fallible.bind_ok.mp masks
  cases same
  exact ⟨rfl, maskTags_masked ends masking⟩

/-- Each segment of a cue has its index and is well masked. -/
theorem segmentCue_masked {unescape : Str → Str} {cue : Cue} {cueIndex : Nat} {segs : List Segment}
    (segmented : segmentCue unescape cue cueIndex = .ok segs) :
    ∀ seg ∈ segs, seg.cueIndex = cueIndex ∧ Masked seg.text seg.tags := by
  obtain ⟨parsed, splits, continued⟩ := Fallible.bind_ok.mp segmented
  have lines := Fallible.mapM_ok.mp splits
  have seen : ∀ line ∈ parsed, visible line.body ≠ [] := by
    intro line member
    obtain ⟨stripped, inLines, split⟩ := Fallible.forall_of_forall₂ lines member
    obtain ⟨raw, nonempty⟩ := List.mem_filter.mp inLines
    obtain ⟨original, _, rfl⟩ := List.mem_map.mp raw
    exact splitDash_visible (strip_solid (of_decide_eq_true nonempty)) split
  split at continued
  · intro seg member
    have masks := Fallible.mapM_ok.mp continued
    obtain ⟨speaker, inGroups, masked⟩ := Fallible.forall_of_forall₂ masks member
    have fits := foldl_addSpeaker_fits (List.forall_mem_nil _) seen speaker (List.mem_reverse.mp inGroups)
    refine maskSegment_masked (fun c back => ?_) masked
    obtain ⟨last, isLast, seenLast⟩ := (Solid.join fits.1 fits.2).back
    cases Option.mem_unique isLast back
    exact seenLast
  · obtain ⟨line, _, continued⟩ := Fallible.bind_ok.mp continued
    obtain ⟨seg, masked, same⟩ := Fallible.bind_ok.mp continued
    cases same
    rw [List.forall_mem_singleton]
    refine maskSegment_masked (fun c back => ?_) masked
    have nonempty : strip line.body ≠ [] := by
      intro empty
      rw [empty] at back
      cases back
    obtain ⟨last, isLast, seenLast⟩ := (strip_solid nonempty).back
    cases Option.mem_unique isLast back
    exact seenLast

/-- Each segment of a job has the index of some cue and is well masked. -/
theorem segmentCues_masked {unescape : Str → Str} {cues : List Cue} {segs : List Segment}
    (segmented : segmentCues unescape cues = .ok segs) :
    ∀ seg ∈ segs, Masked seg.text seg.tags := by
  obtain ⟨lists, each, same⟩ := Fallible.bind_ok.mp segmented
  cases same
  intro seg member
  obtain ⟨list, inLists, inList⟩ := List.mem_flatten.mp member
  obtain ⟨⟨cue, cueIndex⟩, _, done⟩ := Fallible.forall_of_forall₂ (Fallible.mapM_ok.mp each) inLists
  exact (segmentCue_masked done seg inList).2

end SubtitleTranslator.Engine

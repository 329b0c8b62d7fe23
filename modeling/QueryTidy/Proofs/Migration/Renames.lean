import QueryTidy.Proofs.Lexing.Splices
import QueryTidy.Proofs.Migration.Findings
import QueryTidy.Proofs.Migration.Language

/-! What the fixes that rename a construct do to the tokens around it. A new name may run together
with the tokens beside it where the old construct was no name, and a slash behind it may be read
in another way. Main statement: `rename_keeps_iff`. -/
namespace QueryTidy.Token

def IsName (w : Text) : Prop := w.head?.any isLetter ∧ 1 < w.length ∧ w.all isWordChar

instance : DecidablePred IsName := fun _ => inferInstanceAs (Decidable (_ ∧ _ ∧ _))

def ofName (w : Text) : Token := ⟨if isKeyword w then .keyword else .identifier, w⟩

variable {allowed : Bool} {kind : Kind} {t w old new rest : Text}
  {before inside after : List Token}

theorem IsName.slashless (h : IsName w) : Slashless w := by
  refine ⟨?_, ?_⟩
  · rintro rfl
    simp [IsName] at h
  · intro c hc
    have hw := List.all_eq_true.1 h.2.2 c hc
    exact ⟨ne_of_class hw rfl, ne_of_class hw rfl, ne_of_class hw rfl⟩

theorem IsName.head_append (h : IsName w) (rest : Text) : (w ++ rest).head?.any isLetter := by
  obtain ⟨hl, -⟩ := h
  cases w with
  | nil => simp at hl
  | cons c x => exact hl

theorem IsName.reads (h : IsName w) (hr : rest.head?.all (!isWordChar ·)) :
    Reads allowed (ofName w).kind w rest := by
  obtain ⟨hl, h1, hc⟩ := h
  rw [List.all_eq_true] at hc
  cases w with
  | nil => simp at h1
  | cons c x =>
    have hx : x ≠ [] := by
      rintro rfl
      simp at h1
    refine .word ?_ (fun d hd => hc d (List.mem_cons_of_mem c hd)) hr ?_ rfl
    · simp_all [startsWord]
    · intro _ he
      exact absurd he hx

theorem tokenize_name (h : IsName w) : tokenize w = [ofName w] :=
  lexFrom_eq_iff.2 ⟨⟨h.reads rfl, trivial⟩, by simp [ofName]⟩

theorem allowsRegex_ofName (w : Text) : allowsRegex (some (ofName w)) = isKeyword w := by
  cases h : isKeyword w <;> simp [ofName, h, allowsRegex]

theorem IsName.reads_iff (h : IsName w) :
    Reads allowed (ofName w).kind w rest ↔ rest.head?.all (!isWordChar ·) := by
  refine ⟨fun hr => hr.head_behind_word ?_ ?_, h.reads⟩
  · cases hk : isKeyword w <;> simp [ofName, hk]
  · intro hw
    simp [IsName, hw, isLetter] at h

theorem lexesBefore_inside (ht : tokenize t = before ++ (inside ++ after)) :
    LexesBefore ((inside ++ after).flatMap text) none before ∧
      LexesBefore (after.flatMap text) before.getLast? inside := by
  have h : Lexes none (before ++ (inside ++ after)) := ht ▸ lexes_lexFrom none t
  rw [lexes_append_iff, lexes_append_iff, Option.or_none] at h
  exact ⟨h.1, h.2.1⟩

theorem not_takesLetters_before (ht : tokenize t = before ++ (inside ++ after))
    (hl : (inside.flatMap text).head?.any isLetter) :
    ∀ token ∈ before.getLast?, ¬ TakesLetters token := by
  have hb := (lexesBefore_inside ht).1
  rw [List.flatMap_append] at hb
  cases hx : inside.flatMap text with
  | nil => simp [hx] at hl
  | cons c x =>
    rw [hx] at hb hl
    exact hb.not_takesLetters hl

/-- A text between two others has the tokens that it has by itself, and the tokens of these keep
their texts. -/
def Fits (before after : List Token) (new : Text) : Prop :=
  (tokenize (before.flatMap text ++ (new ++ after.flatMap text))).map text =
    before.map text ++ ((tokenize new).map text ++ after.map text)

theorem fits_name_iff (ht : tokenize t = before ++ (inside ++ after))
    (hi : inside.flatMap text = old) (ho : IsName old) (hn : IsName new)
    (hr : (after.flatMap text).head?.all (!isWordChar ·)) :
    Fits before after new ↔
      isKeyword old = isKeyword new ∨ ¬ StartsRegex (after.flatMap text) := by
  have hb := not_takesLetters_before ht (hi ▸ ho.1)
  have hs : Slashless (inside.flatMap text) := hi ▸ ho.slashless
  obtain rfl : inside = [ofName old] := (lexesBefore_inside ht).2.eq_singleton hi (ho.reads hr)
  have hread : LexesBefore (after.flatMap text) before.getLast? [ofName new] :=
    ⟨hn.reads hr, trivial⟩
  rw [Fits, map_text_splice_iff ht hs hn.slashless hn.1, tokenize_name hn]
  rw [and_iff_right hb, and_iff_right hread]
  simp [allowsRegex_ofName]

theorem fits_arrow_iff (ht : tokenize t = before ++ (inside ++ after))
    (hi : inside.flatMap text = ['=', '>']) (hn : IsName new) (hk : isKeyword new = false) :
    Fits before after new ↔
      (∀ token ∈ before.getLast?, ¬ TakesLetters token) ∧
        (after.flatMap text).head?.all (!isWordChar ·) ∧ ¬ StartsRegex (after.flatMap text) := by
  obtain rfl : inside = [⟨.operator, ['=', '>']⟩] :=
    (lexesBefore_inside ht).2.eq_singleton hi (.double (by simp [doubleOperators]))
  have hread : LexesBefore (after.flatMap text) before.getLast? [ofName new] ↔
      (after.flatMap text).head?.all (!isWordChar ·) := (and_iff_left trivial).trans hn.reads_iff
  rw [Fits, map_text_splice_iff ht (by simp [Slashless]) hn.slashless hn.1, tokenize_name hn, hread]
  have ha : allowsRegex (some ⟨.operator, ['=', '>']⟩) = true := rfl
  simp [allowsRegex_ofName, hk, ha]

theorem reads_callMark {c : Char} (hc : c ∈ ['(', ',', ')']) :
    Reads allowed .punctuation [c] rest := by
  simp only [List.mem_cons, List.not_mem_nil, or_false] at hc
  obtain rfl | rfl | rfl := hc
  all_goals
    refine .mark rfl (by decide) (by decide) ?_ (fun h => absurd h (by decide))
    cases rest <;> simp [doubleOperators]

theorem reads_parenthesis : Reads allowed .punctuation ['('] rest := reads_callMark (by simp)

def isOpening (c : Char) : Bool := isWordChar c || Migration.isSpace c || c == '('

theorem Reads.of_last_parenthesis (h : Reads allowed kind t rest) (hl : t.getLast? = some '(')
    (ht : ∀ c ∈ t, isOpening c) : kind = .punctuation ∧ t = ['('] := by
  have hm := List.mem_of_getLast? hl
  cases h with
  | newline => simp at hl
  | blanks hc hx =>
    obtain rfl | hm := List.mem_cons.1 hm
    · cases hc
    · cases hx _ hm
  | lineComment => cases ht '-' (by simp)
  | blockComment => cases ht '/' (by simp)
  | @string q _ _ hq => exact absurd hq (not_isQuote_of_class (ht q (by simp)) (by decide))
  | @marked _ q _ _ _ hq => exact absurd hq (not_isQuote_of_class (ht q (by simp)) (by decide))
  | regex => cases ht '/' (by simp)
  | @number c x _ hc hx =>
    have hr : Reads allowed .number (c :: x) rest := .number hc hx
    cases hr.of_number '(' hm
  | word hc hx =>
    obtain rfl | hm := List.mem_cons.1 hm
    · cases hc
    · cases hx _ hm
  | backticks => cases ht '\x60' (by simp)
  | pipe => simp at hl
  | pipeInto => simp at hl
  | concat => simp at hl
  | spread => simp at hl
  | double hd =>
    obtain rfl : _ = '(' := by simpa using hl
    simp [doubleOperators] at hd
  | single hc =>
    obtain rfl : _ = '(' := by simpa using hl
    simp [singleOperators] at hc
  | mark => simpa using hl

theorem getLast_of_opening (ht : tokenize t = before ++ (inside ++ after))
    (hl : (inside.flatMap text).getLast? = some '(')
    (ho : ∀ c ∈ inside.flatMap text, isOpening c) :
    inside.getLast? = some ⟨.punctuation, ['(']⟩ := by
  cases hi : inside.getLast? with
  | none => simp [List.getLast?_eq_none_iff.1 hi] at hl
  | some last =>
    obtain ⟨front, rfl⟩ := List.getLast?_eq_some_iff.1 hi
    have hcut : tokenize t = (before ++ front) ++ last :: after := by simp [ht]
    have h : Lexes none ((before ++ front) ++ last :: after) := hcut ▸ lexes_lexFrom none t
    obtain ⟨hr, -⟩ := h.split
    rw [List.flatMap_append, List.flatMap_singleton] at hl ho
    rw [List.getLast?_append_of_ne_nil _ hr.ne_nil] at hl
    obtain ⟨hk, hx⟩ := hr.of_last_parenthesis hl fun c hc => ho c (List.mem_append_right _ hc)
    exact congrArg some (congrArg₂ Token.mk hk hx)

theorem fits_callOpening {b : Text} (ht : tokenize t = before ++ (inside ++ after))
    (hi : inside.flatMap text = old ++ (b ++ ['('])) (ho : IsName old) (hn : IsName new)
    (hb : Migration.Blank b) (hl : '\n' ∉ b) : Fits before after (new ++ ['(']) := by
  have hopen : ∀ c ∈ inside.flatMap text, isOpening c ∧ c ≠ '\n' := by
    intro c hc
    rw [hi, List.mem_append, List.mem_append, List.mem_singleton] at hc
    obtain hc | hc | rfl := hc
    · have hw := List.all_eq_true.1 ho.2.2 c hc
      exact ⟨by simp [isOpening, hw], ne_of_class hw rfl⟩
    · exact ⟨by simp [isOpening, hb c hc], fun he => hl (he ▸ hc)⟩
    · decide
  have hlast := getLast_of_opening ht (by simp [hi]) fun c hc => (hopen c hc).1
  have hs : Slashless (inside.flatMap text) := by
    refine ⟨by simp [hi], ?_⟩
    intro c hc
    obtain ⟨h, hn⟩ := hopen c hc
    exact ⟨hn, ne_of_class h rfl, ne_of_class h rfl⟩
  have hnew : Slashless (new ++ ['(']) := by
    refine ⟨by simp, List.forall_mem_append.2 ⟨hn.slashless.2, by simp⟩⟩
  have htok : tokenize (new ++ ['(']) = [ofName new, ⟨.punctuation, ['(']⟩] :=
    lexFrom_eq_iff.2 ⟨⟨hn.reads rfl, reads_parenthesis, trivial⟩, by simp [ofName]⟩
  rw [Fits, map_text_splice_iff ht hs hnew (hn.head_append _), hlast, htok]
  refine ⟨not_takesLetters_before ht ?_, ⟨hn.reads rfl, reads_parenthesis, trivial⟩, .inl rfl⟩
  rw [hi]
  exact ho.head_append _

end QueryTidy.Token

namespace QueryTidy
open Token Position

variable {t : Text} {range : Range} {before inside after : List Token}

/-- The range starts and ends where tokens do, and holds the tokens `inside`. -/
structure Range.HoldsTokens (range : Range) (t : Text) (before inside after : List Token) :
    Prop where
  tokens_eq : tokenize t = before ++ (inside ++ after)
  start_eq : endOf (before.flatMap text) = range.start
  stop_eq : endOf ((before ++ inside).flatMap text) = range.stop

theorem Range.HoldsTokens.texts (h : range.HoldsTokens t before inside after) {a m c : Text}
    (ht : t = a ++ (m ++ c)) (hs : endOf a = range.start) (he : endOf (a ++ m) = range.stop) :
    before.flatMap text = a ∧ inside.flatMap text = m ∧ after.flatMap text = c := by
  have hw : before.flatMap text ++ (inside.flatMap text ++ after.flatMap text) = a ++ (m ++ c) := by
    have hl := flatMap_text_lexFrom none t
    rw [← tokenize, h.tokens_eq] at hl
    simpa [ht] using hl
  obtain ⟨rfl, -⟩ := eq_of_after_eq hw (h.start_eq.trans hs.symm)
  have hstop := h.stop_eq.trans he.symm
  rw [List.flatMap_append] at hstop
  obtain ⟨hm, rfl⟩ := eq_of_after_eq (by simpa using hw) hstop
  exact ⟨rfl, List.append_cancel_left hm, rfl⟩

namespace Migration
variable {f : Finding} {code : String} {pattern : Pattern} {new : Text}

def Renames (code : String) (pattern : Pattern) (new : Text) : Prop :=
  ∀ rule ∈ registry, rule.code = code →
    rule.pattern = pattern ∧ rule.substitution = none ∧ rule.replacement = some new

instance : Decidable (Renames code pattern new) :=
  inferInstanceAs (Decidable (∀ rule ∈ registry, _ → _))

theorem Renames.exists_regex (h : Renames code pattern new) (hf : f ∈ scan registry t)
    (hc : f.diagnostic.code = code) :
    ∃ edit a m u v b, f.fix = some edit ∧ edit.newText = new ∧ t = a ++ (m ++ (v ++ b)) ∧
      endOf a = edit.range.start ∧ endOf (a ++ m) = edit.range.stop ∧ '\n' ∉ m ∧
      b.head?.all (· == '\n') ∧ pattern.regex u m v := by
  obtain ⟨l, line, hl, hf⟩ := mem_scan.1 hf
  obtain ⟨rule, hr, found, hm, -, rfl⟩ := mem_findingsOn.1 hf
  obtain ⟨rfl, hs, hn⟩ := h rule hr hc
  obtain ⟨u, v, hline, hu, hreg⟩ :=
    Pattern.regex_of_mem_matchesIn (isPlain_of_mem_registry rule hr) hm
  have hfix : (finding rule l line found).fix = _ := fix_finding hline hu
  rw [hline] at hl
  obtain ⟨a, b, ht, hbreak, hb, h1, h2⟩ := exists_around_part hl
  simp only [Rule.newText, hs, hn, Option.map_some] at hfix
  exact ⟨_, a, found.capture.matched, u, v, b, hfix, rfl, ht, h1, h2, hbreak, hb, hreg⟩

theorem Renames.keeps_iff {P : List Token → Text → Prop} (hr : Renames code pattern new)
    (hf : f ∈ scan registry t) (hc : f.diagnostic.code = code)
    (hfit : ∀ {before inside after u v}, tokenize t = before ++ (inside ++ after) →
      '\n' ∉ inside.flatMap text → pattern.regex u (inside.flatMap text) v →
      (v.head?.any isWordChar = false → (after.flatMap text).head?.all (!isWordChar ·)) →
      (Fits before after new ↔ P before (after.flatMap text))) :
    ∃ edit r, f.fix = some edit ∧ edit.apply t = .ok r ∧
      ∀ before inside after, edit.range.HoldsTokens t before inside after →
        ((tokenize r).map text =
            before.map text ++ ((tokenize edit.newText).map text ++ after.map text) ↔
          P before (after.flatMap text)) := by
  obtain ⟨edit, a, m, u, v, b, hfix, rfl, ht, hs, he, hm, hb, hreg⟩ :=
    hr.exists_regex hf hc
  refine ⟨edit, _, hfix, Edit.apply_eq_ok_iff.2 ⟨a, m, v ++ b, ht, hs, he, rfl⟩, ?_⟩
  intro before inside after h
  obtain ⟨rfl, rfl, hafter⟩ := h.texts ht hs he
  rw [← hafter, ← hfit h.tokens_eq hm hreg ?_, Fits]
  -- Behind a line stands a line break, or nothing.
  intro hv
  rw [hafter]
  cases v with
  | nil =>
    cases b with
    | nil => rfl
    | cons c b =>
      obtain rfl : c = '\n' := by simpa using hb
      rfl
  | cons c v => simpa using hv

/-- What has to stand around a construct for its new name to fit there. A regular expression may
start behind `=>` but not behind `into`, and behind `fn` but not behind `func`; and in place of
`=>`, a name runs together with the names and numbers beside it. -/
def LeavesRoom (code : String) (before : List Token) (rest : Text) : Prop :=
  (code = "deprecated-func" ∨ code = "deprecated-arrow" → ¬ StartsRegex rest) ∧
    (code = "deprecated-arrow" → rest.head?.all (!isWordChar ·) ∧
      ∀ token ∈ before.getLast?, ¬ TakesLetters token)

/-- The fixes that put a new name in place of a construct apply. Where the construct starts and
ends with tokens, the tokens in front of it and behind it are kept, with those of the new name
between them, just when the construct leaves room for the name. -/
theorem rename_keeps_iff {t : Text} {f : Finding} (hf : f ∈ scan registry t)
    (hc : f.diagnostic.code ∈ ["deprecated-yield", "deprecated-func", "deprecated-arrow",
      "deprecated-parse-zson"]) :
    ∃ edit r, f.fix = some edit ∧ edit.apply t = .ok r ∧
      ∀ before inside after, edit.range.HoldsTokens t before inside after →
        ((tokenize r).map text =
            before.map text ++ ((tokenize edit.newText).map text ++ after.map text) ↔
          LeavesRoom f.diagnostic.code before (after.flatMap text)) := by
  simp only [List.mem_cons, List.not_mem_nil, or_false] at hc
  obtain hc | hc | hc | hc := hc
  · have hr : Renames "deprecated-yield" (.word "yield".toList) "values".toList := by decide
    refine hr.keeps_iff hf hc ?_
    intro before inside after u v ht _ hreg hv
    obtain ⟨-, hi, ha⟩ := (Pattern.regex_word_iff (by decide) (by decide)).1 hreg
    have hk : isKeyword "yield".toList = isKeyword "values".toList := by decide
    rw [fits_name_iff ht hi (by decide) (by decide) (hv ha)]
    exact iff_of_true (.inl hk) (by simp [LeavesRoom, hc])
  · have hr : Renames "deprecated-func" (.word "func".toList) "fn".toList := by decide
    refine hr.keeps_iff hf hc ?_
    intro before inside after u v ht _ hreg hv
    obtain ⟨-, hi, ha⟩ := (Pattern.regex_word_iff (by decide) (by decide)).1 hreg
    have hk : isKeyword "func".toList ≠ isKeyword "fn".toList := by decide
    rw [fits_name_iff ht hi (by decide) (by decide) (hv ha), or_iff_right hk]
    simp [LeavesRoom, hc]
  · have hr : Renames "deprecated-arrow" (.literal "=>".toList) "into".toList := by decide
    refine hr.keeps_iff hf hc ?_
    intro before inside after u v ht _ hreg _
    rw [fits_arrow_iff ht hreg (by decide) (by decide)]
    simp only [LeavesRoom, hc]
    tauto
  · have hr : Renames "deprecated-parse-zson" (.callOpening "parse_zson".toList)
        "parse_sup(".toList := by decide
    refine hr.keeps_iff hf hc ?_
    intro before inside after u v ht hm hreg _
    obtain ⟨-, b, hi, hb⟩ := (Pattern.regex_callOpening_iff (by decide)).1 hreg
    have hbreak : '\n' ∉ b := by
      intro h
      exact hm (by simp [hi, h])
    have hfits : Fits before after ("parse_sup".toList ++ ['(']) :=
      fits_callOpening ht hi (by decide) (by decide) hb hbreak
    simpa [LeavesRoom, hc] using hfits

/-- A name in backticks and a string leave room for a name in place of an arrow. -/
theorem rename_keeps_iff_quoted :
    let t : Text := "\x60é\x60=>'x'".toList
    let f : Finding := finding arrow 0 t ⟨3, ⟨"=>".toList, []⟩⟩
    let before : List Token := [⟨.identifier, "\x60é\x60".toList⟩]
    let inside : List Token := [⟨.operator, "=>".toList⟩]
    let after : List Token := [⟨.string, "'x'".toList⟩]
    f ∈ scan registry t ∧ f.diagnostic.code = "deprecated-arrow" ∧
      ∃ edit r, f.fix = some edit ∧ edit.apply t = .ok r ∧
        edit.range.HoldsTokens t before inside after ∧
        (tokenize r).map text = before.map text ++ ("into".toList :: after.map text) := by
  intro t f before inside after
  have hf : f ∈ scan registry t := by decide +kernel
  obtain ⟨edit, r, hfix, hr, h⟩ := rename_keeps_iff hf (by decide)
  have hedit : f.fix = some ⟨.onLine 0 4 2, "into".toList⟩ := by decide
  obtain rfl := Option.some.inj (hfix.symm.trans hedit)
  have hold : Range.HoldsTokens (.onLine 0 4 2) t before inside after :=
    ⟨by decide +kernel, by decide, by decide⟩
  have hroom : LeavesRoom "deprecated-arrow" before (after.flatMap text) := by
    refine ⟨fun _ h => ?_, fun _ => ⟨by decide, ?_⟩⟩
    · cases (startsRegex_cons_iff.1 h).1
    · decide
  have hnew : (tokenize "into".toList).map text = ["into".toList] := by decide +kernel
  refine ⟨hf, rfl, _, r, hfix, hr, hold, ?_⟩
  rw [(h before inside after hold).2 hroom, hnew]
  rfl

/-- Between names, the new name in place of an arrow runs together with both. Behind `fn`, a slash
opens a regular expression where it divided behind `func`. -/
theorem rename_disturbs_neighbours :
    (∃ f ∈ scan registry "x=>y".toList, f.diagnostic.code = "deprecated-arrow" ∧
      f.fix = some ⟨.onLine 0 1 2, "into".toList⟩ ∧
      Range.HoldsTokens (.onLine 0 1 2) "x=>y".toList [⟨.identifier, ['x']⟩]
        [⟨.operator, "=>".toList⟩] [⟨.identifier, ['y']⟩] ∧
      Edit.apply ⟨.onLine 0 1 2, "into".toList⟩ "x=>y".toList = .ok "xintoy".toList ∧
      (tokenize "xintoy".toList).map text = ["xintoy".toList]) ∧
    ∃ f ∈ scan registry "func/a/".toList, f.diagnostic.code = "deprecated-func" ∧
      f.fix = some ⟨.onLine 0 0 4, "fn".toList⟩ ∧
      Range.HoldsTokens (.onLine 0 0 4) "func/a/".toList [] [⟨.identifier, "func".toList⟩]
        [⟨.operator, ['/']⟩, ⟨.identifier, ['a']⟩, ⟨.operator, ['/']⟩] ∧
      Edit.apply ⟨.onLine 0 0 4, "fn".toList⟩ "func/a/".toList = .ok "fn/a/".toList ∧
      (tokenize "fn/a/".toList).map text = ["fn".toList, "/a/".toList] := by
  constructor
  · obtain ⟨f, hf, hc, hfix⟩ : ∃ f ∈ scan registry "x=>y".toList,
        f.diagnostic.code = "deprecated-arrow" ∧
          f.fix = some ⟨.onLine 0 1 2, "into".toList⟩ := by decide +kernel
    exact ⟨f, hf, hc, hfix, ⟨by decide +kernel, by decide, by decide⟩, by decide +kernel⟩
  · obtain ⟨f, hf, hc, hfix⟩ : ∃ f ∈ scan registry "func/a/".toList,
        f.diagnostic.code = "deprecated-func" ∧
          f.fix = some ⟨.onLine 0 0 4, "fn".toList⟩ := by decide +kernel
    exact ⟨f, hf, hc, hfix, ⟨by decide +kernel, by decide, by decide⟩, by decide +kernel⟩

end Migration
end QueryTidy

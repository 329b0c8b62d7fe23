import QueryTidy.Layout.Rendering
import QueryTidy.Proofs.Layout.Spacing
import QueryTidy.Proofs.Lexing.Shape

/-! Reading the output of the layout gives the tokens that were written. Main statements:
`lexes_relaidFrom`, `visible_tokenize_format`. -/
namespace QueryTidy.Layout
open Token

variable {unit : Text} {cursor : Cursor} {token : Token} {tokens : List Token}

theorem isSpacing_eq_false_iff :
    isSpacing token = false ↔ token.kind ≠ .whitespace ∧ token.kind ≠ .newline := by
  simp [isSpacing]

theorem layoutFrom_newline (h : token.kind = .newline) :
    layoutFrom unit cursor (token :: tokens) =
      '\n' :: layoutFrom unit (cursor.next token tokens.head?) tokens := by
  rw [layoutFrom_cons]
  simp [relay, h, lineBreak]

theorem layoutFrom_whitespace (h : token.kind = .whitespace) :
    layoutFrom unit cursor (token :: tokens) =
      layoutFrom unit (cursor.next token tokens.head?) tokens := by
  rw [layoutFrom_cons]
  simp [relay, h]

theorem layoutFrom_visible (h : isSpacing token = false) :
    layoutFrom unit cursor (token :: tokens) =
      (lead unit cursor token).flatMap text ++
        (token.text ++ layoutFrom unit (cursor.next token tokens.head?) tokens) := by
  rw [layoutFrom_cons, relay_of_visible h]
  simp

theorem lead_on_line (unit : Text) (token : Token) (h : cursor.atLineStart = false) :
    ((lead unit cursor token).flatMap text).head? = some '\n' ∧ token.kind = .pipe ∨
      (lead unit cursor token).flatMap text = [' '] ∧
        (asksSpace cursor.previous token || cursor.owesSpace) = true ∨
      (lead unit cursor token).flatMap text = [] ∧
        asksSpace cursor.previous token = false ∧ cursor.owesSpace = false := by
  rw [flatMap_text_lead, blanksBefore, h]
  by_cases hp : token.kind = .pipe
  · exact .inl (by simp [hp])
  · cases ha : asksSpace cursor.previous token <;> cases ho : cursor.owesSpace <;> simp [hp]

theorem next_whitespace_of_line (h : token.kind = .whitespace) (hl : cursor.atLineStart = false)
    (following : Option Token) :
    cursor.next token following = ⟨cursor.depth, false, true, some token⟩ := by
  simp [Cursor.next, h, hl]

theorem head_of_owed (hl : cursor.atLineStart = false) (ho : cursor.owesSpace = true) :
    (layoutFrom unit cursor tokens).head?.all isGap := by
  induction tokens generalizing cursor with
  | nil => rfl
  | cons token tokens ih =>
    by_cases hn : token.kind = .newline
    · rw [layoutFrom_newline hn]
      rfl
    by_cases hw : token.kind = .whitespace
    · rw [layoutFrom_whitespace hw, next_whitespace_of_line hw hl]
      exact ih rfl rfl
    · rw [layoutFrom_visible (isSpacing_eq_false_iff.2 ⟨hw, hn⟩)]
      obtain ⟨h, -⟩ | ⟨h, -⟩ | ⟨-, -, h⟩ := lead_on_line unit token hl
      · simp [h, isGap]
      · simp [h, isGap, isBlank]
      · simp [ho] at h

theorem startsAlike_layoutFrom {previous : Option Token} (h : Lexes previous tokens)
    (hl : cursor.atLineStart = false) :
    StartsAlike (tokens.flatMap text) (layoutFrom unit cursor tokens) := by
  induction tokens generalizing cursor previous with
  | nil => exact .inl rfl
  | cons token tokens ih =>
    obtain ⟨hr, ht⟩ := h
    by_cases hn : token.kind = .newline
    · rw [layoutFrom_newline hn]
      exact .inl rfl
    by_cases hw : token.kind = .whitespace
    · rw [layoutFrom_whitespace hw, next_whitespace_of_line hw hl]
      exact .inl (head_of_owed rfl rfl)
    · have hv := isSpacing_eq_false_iff.2 ⟨hw, hn⟩
      rw [layoutFrom_visible hv]
      obtain ⟨h, -⟩ | ⟨h, -⟩ | ⟨h, -⟩ := lead_on_line unit token hl
      · exact .inl (by simp [h, isGap])
      · exact .inl (by simp [h, isGap, isBlank])
      · rw [h, List.nil_append, List.flatMap_cons]
        obtain ⟨c, x, hx⟩ := List.exists_cons_of_ne_nil hr.ne_nil
        rw [hx]
        refine .inr ⟨c, _, _, rfl, rfl, ?_⟩
        refine HeadAlike.append_left (ih ht ?_).headAlike x
        rw [next_of_visible hv]

theorem head_of_asksSpace {previous : Option Token} {rest : Text}
    (h : Reads (allowsRegex previous) token.kind token.text rest)
    (ha : asksSpace previous token = true) (hp : allowsRegex previous = false) :
    ∀ c ∈ token.text.head?, c ≠ '/' ∧ c ≠ '\\' := by
  obtain ⟨kind, t⟩ := token
  refine h.head_plain ?_ ?_ ?_ ?_
  · intro he
    subst he
    simp [h.allowed_of_regex] at hp
  · intro he
    subst he
    cases ha
  · intro he
    subst he
    cases ha
  · intro he
    subst he
    obtain rfl := h.kind_of_slash
    cases ha

theorem of_last_backslash {allowed : Bool} {rest : Text}
    (h : Reads allowed token.kind token.text rest) (hl : token.text.getLast? = some '\\') :
    allowsRegex (some token) = false ∧
      ∀ previous following, leavesSpace previous token following = false := by
  obtain ⟨kind, t⟩ := token
  obtain hk | ⟨rfl, rfl⟩ := h.of_last_backslash hl
  · simp only [List.mem_cons, List.not_mem_nil, or_false] at hk
    obtain rfl | rfl | rfl | rfl | rfl | rfl := hk <;> exact ⟨rfl, fun _ _ => rfl⟩
  · exact ⟨by decide, fun _ _ => by simp [leavesSpace]⟩

theorem slashAhead_lead {s s' : Bool} {rest : Text}
    (hr : Reads (allowsRegex cursor.previous) token.kind token.text rest)
    (hl : cursor.atLineStart = false) (ho : cursor.owesSpace = true → s = false)
    (hs : cursor.owesSpace = false → s' = s)
    (hp : s = true → allowsRegex cursor.previous = false) :
    ∃ s₁, (∀ y, slashAhead s (token.text ++ y) = slashAhead s₁ (token.text ++ y)) ∧
      ∀ y, slashAhead s₁ (token.text ++ y) = false →
        slashAhead s' ((lead unit cursor token).flatMap text ++ (token.text ++ y)) = false := by
  obtain ⟨hb, -⟩ | ⟨hb, ha⟩ | ⟨hb, -, ha⟩ := lead_on_line unit token hl
  · obtain ⟨y, hy⟩ : ∃ y, (lead unit cursor token).flatMap text = '\n' :: y := by
      cases he : (lead unit cursor token).flatMap text <;> simp_all
    exact ⟨s, fun _ => rfl, fun _ _ => by simp [hy, slashAhead]⟩
  · refine ⟨false, ?_, ?_⟩
    · intro y
      cases s with
      | false => rfl
      | true =>
        have hq : asksSpace cursor.previous token = true := by
          cases hc : cursor.owesSpace with
          | true => cases ho hc
          | false => simpa [hc] using ha
        have hc := head_of_asksSpace hr hq (hp rfl)
        obtain ⟨c, x, hx⟩ := List.exists_cons_of_ne_nil hr.ne_nil
        obtain ⟨h1, h2⟩ := hc c (by simp [hx])
        rw [hx]
        exact slashAhead_cons_plain h1 h2 true (x ++ y)
    · intro y hy
      rw [hb, List.singleton_append, slashAhead_cons_plain (by decide) (by decide)]
      simpa [slashAhead] using hy
  · refine ⟨s, fun _ => rfl, ?_⟩
    intro y hy
    rw [hb, List.nil_append, hs ha]
    exact hy

/-- The layout does not close a slash on its line that was not closed before. `s` and `s'` tell
whether a backslash takes the next character along, in the two texts; they differ at most where
the layout puts a space. -/
theorem slashAhead_layoutFrom {s s' : Bool} (h : Lexes cursor.previous tokens)
    (hl : cursor.atLineStart = false) (ho : cursor.owesSpace = true → s = false)
    (hs : cursor.owesSpace = false → s' = s) (hp : s = true → allowsRegex cursor.previous = false)
    (hf : slashAhead s (tokens.flatMap text) = false) :
    slashAhead s' (layoutFrom unit cursor tokens) = false := by
  induction tokens generalizing cursor s s' with
  | nil => rfl
  | cons token tokens ih =>
    obtain ⟨hr, ht⟩ := h
    rw [List.flatMap_cons] at hf
    by_cases hn : token.kind = .newline
    · rw [layoutFrom_newline hn]
      simp [slashAhead]
    by_cases hw : token.kind = .whitespace
    · rw [layoutFrom_whitespace hw, next_whitespace_of_line hw hl]
      rw [hw] at hr
      rw [slashAhead_append_of_some (slashState_blanks hr.ne_nil hr.of_whitespace.1 s)] at hf
      exact ih ht rfl (fun _ => rfl) (by simp) (by simp) hf
    have hv := isSpacing_eq_false_iff.2 ⟨hw, hn⟩
    rw [layoutFrom_visible hv]
    obtain ⟨s₁, h1, h2⟩ := slashAhead_lead hr hl ho hs hp
    refine h2 _ ?_
    rw [h1] at hf
    cases hx : slashState s₁ token.text with
    | none =>
      rw [slashAhead_append_of_none hx] at hf ⊢
      exact hf
    | some s₂ =>
      rw [slashAhead_append_of_some hx] at hf ⊢
      have hb : s₂ = true → token.text.getLast? = some '\\' := by
        intro he
        subst he
        exact getLast_of_slashState hr.ne_nil hx
      rw [next_of_visible hv]
      refine ih ht rfl ?_ (fun _ => rfl) ?_ hf
      · intro hleaves
        cases s₂ with
        | false => rfl
        | true => simp [(of_last_backslash hr (hb rfl)).2] at hleaves
      · intro he
        exact (of_last_backslash hr (hb he)).1

theorem continues_layoutFrom (h : Lexes cursor.previous tokens)
    (hl : cursor.atLineStart = false) :
    Continues (tokens.flatMap text) (layoutFrom unit cursor tokens) where
  ends := by
    intro he
    cases tokens with
    | nil => rfl
    | cons token tokens => exact absurd (List.append_eq_nil_iff.1 he).1 h.1.ne_nil
  breaks := by
    intro he
    cases tokens with
    | nil => rfl
    | cons token tokens =>
      obtain ⟨c, x, hx⟩ := List.exists_cons_of_ne_nil h.1.ne_nil
      have hc : token.text.head? = some '\n' := by simpa [hx] using he
      rw [layoutFrom_newline (h.1.kind_of_break hc)]
      rfl
  starts := startsAlike_layoutFrom h hl
  slash := by
    intro hf
    exact slashAhead_layoutFrom h hl (fun _ => rfl) (fun _ => rfl) (by simp) hf

theorem isBlank_blanksBefore (hu : ∀ c ∈ unit, isBlank c) (cursor : Cursor) (token : Token) :
    ∀ c ∈ blanksBefore unit cursor token, isBlank c := by
  intro c hc
  unfold blanksBefore at hc
  split at hc
  · simp only [List.mem_flatten, List.mem_replicate] at hc
    obtain ⟨x, ⟨-, rfl⟩, hc⟩ := hc
    exact hu c hc
  split at hc
  · obtain rfl : c = ' ' := by simpa using hc
    rfl
  · cases hc

theorem lexes_lead_append {previous : Option Token} {written : List Token}
    (hu : ∀ c ∈ unit, isBlank c) (hh : (written.flatMap text).head?.all (!isBlank ·))
    (h : ∀ p, (lead unit cursor token = [] → p = previous) →
      (lead unit cursor token ≠ [] → allowsRegex p = true) → Lexes p written) :
    Lexes previous (lead unit cursor token ++ written) := by
  have hb := isBlank_blanksBefore hu cursor token
  have blank (p : Option Token) {x : Text} (hx : x ≠ []) (hb : ∀ c ∈ x, isBlank c)
      (hw : Lexes (some ⟨.whitespace, x⟩) written) : Lexes p (⟨.whitespace, x⟩ :: written) :=
    ⟨reads_blanks hx hb hh, hw⟩
  generalize hL : lead unit cursor token = L at h ⊢
  simp only [lead, blankToken] at hL
  split at hL <;> split at hL <;> subst L
  · exact ⟨.newline, h _ (by simp) (by simp [allowsRegex, lineBreak])⟩
  · exact ⟨.newline, blank _ ‹_› hb (h _ (by simp) (by simp [allowsRegex]))⟩
  · exact h _ (by simp) (by simp)
  · exact blank _ ‹_› hb (h _ (by simp) (by simp [allowsRegex]))

/-- What the tokens before allow to start, as met by the pass and as written. -/
structure SameAllowance (cursor : Cursor) (written : Option Token) : Prop where
  met : cursor.atLineStart = true ∨ cursor.owesSpace = true → allowsRegex cursor.previous = true
  start : cursor.atLineStart = true → allowsRegex written = true
  line : cursor.atLineStart = false → cursor.owesSpace = false →
    allowsRegex written = allowsRegex cursor.previous

theorem allowsRegex_of_leavesSpace {previous following : Option Token}
    (h : leavesSpace previous token following = true) : allowsRegex (some token) = true := by
  obtain ⟨kind, t⟩ := token
  cases kind <;> simp_all [leavesSpace, allowsRegex]
  grind

theorem owesSpace_of_lead_eq_nil (h : lead unit cursor token = [])
    (hl : cursor.atLineStart = false) : cursor.owesSpace = false := by
  have ht : (lead unit cursor token).flatMap text = [] := by rw [h]; rfl
  obtain ⟨hb, -⟩ | ⟨hb, -⟩ | ⟨-, -, ho⟩ := lead_on_line unit token hl
  · simp [ht] at hb
  · simp [ht] at hb
  · exact ho

theorem reads_relaid {written p : Option Token} (hv : isSpacing token = false)
    (hr : Reads (allowsRegex cursor.previous) token.kind token.text (tokens.flatMap text))
    (ht : Lexes (some token) tokens) (hs : SameAllowance cursor written)
    (hnil : lead unit cursor token = [] → p = written)
    (hlead : lead unit cursor token ≠ [] → allowsRegex p = true) :
    Reads (allowsRegex p) token.kind token.text
      (layoutFrom unit (cursor.next token tokens.head?) tokens) := by
  have hk := isSpacing_eq_false_iff.1 hv
  have hc : Continues (tokens.flatMap text)
      (layoutFrom unit (cursor.next token tokens.head?) tokens) := by
    refine continues_layoutFrom ?_ ?_
    · rw [next_previous]
      exact ht
    · rw [next_of_visible hv]
  refine hr.change_rest hk.1 hc ?_ ?_
  · intro hx
    by_cases hn : lead unit cursor token = []
    · rw [hnil hn]
      cases hl : cursor.atLineStart with
      | true => exact hs.start hl
      | false =>
        rw [hs.line hl (owesSpace_of_lead_eq_nil hn hl)]
        rw [hx] at hr
        exact hr.allowed_of_regex
    · exact hlead hn
  · intro hx ha
    cases hl : cursor.atLineStart with
    | true => exact hs.met (.inl hl)
    | false =>
      cases ho : cursor.owesSpace with
      | true => exact hs.met (.inr ho)
      | false =>
        -- No space is asked for in front of a slash.
        have hop : token.kind = .operator := by
          rw [hx] at hr
          exact hr.kind_of_slash
        have hn : lead unit cursor token = [] := by
          simp [lead, blankToken, blanksBefore, asksSpace, isJoining, hop, hx, hl, ho]
        rw [hnil hn, hs.line hl ho] at ha
        exact ha

theorem lexes_relaidFrom {written : Option Token} (hu : ∀ c ∈ unit, isBlank c)
    (h : Lexes cursor.previous tokens) (hs : SameAllowance cursor written) :
    Lexes written (relaidFrom unit cursor tokens) := by
  induction tokens generalizing cursor written with
  | nil => trivial
  | cons token tokens ih =>
    obtain ⟨hr, ht⟩ := h
    by_cases hn : token.kind = .newline
    · rw [relaidFrom_newline hn]
      refine ⟨.newline, ih ?_ ?_⟩
      · rw [next_previous]
        exact ht
      · simp only [Cursor.next, hn]
        exact ⟨fun _ => by simp [allowsRegex, hn], fun _ => rfl, by simp⟩
    by_cases hw : token.kind = .whitespace
    · rw [relaidFrom_whitespace hw]
      refine ih ?_ ?_
      · rw [next_previous]
        exact ht
      · simp only [Cursor.next, hw]
        exact ⟨fun _ => by simp [allowsRegex, hw], hs.start, by simp_all⟩
    have hv := isSpacing_eq_false_iff.2 ⟨hw, hn⟩
    rw [relaidFrom_visible hv]
    refine lexes_lead_append hu ?_ ?_
    · obtain ⟨c, x, hx⟩ := List.exists_cons_of_ne_nil hr.ne_nil
      have hg := hr.head_not_gap hw hn
      simp_all [isGap]
    · intro p hnil hlead
      refine ⟨?_, ih ?_ ?_⟩
      · rw [flatMap_text_relaidFrom]
        exact reads_relaid hv hr ht hs hnil hlead
      · rw [next_previous]
        exact ht
      · rw [next_of_visible hv]
        refine ⟨?_, by simp, fun _ _ => rfl⟩
        intro h
        obtain hl | hl := h
        · cases hl
        · exact allowsRegex_of_leavesSpace hl

theorem isBlank_indent (options : Options) : ∀ c ∈ options.indent, isBlank c := by
  intro c hc
  unfold Options.indent at hc
  split at hc
  · obtain rfl := (List.mem_replicate.1 hc).2
    rfl
  · obtain rfl : c = '\t' := by simpa using hc
    rfl

theorem tokenize_body (options : Options) (t : Text) :
    tokenize (body options.indent (tokenize t)) = relaidFrom options.indent {} (tokenize t) := by
  have h : Lexes none (relaidFrom options.indent {} (tokenize t)) := by
    refine lexes_relaidFrom (isBlank_indent options) (lexes_lexFrom none t) ?_
    exact ⟨fun _ => rfl, fun _ => rfl, by simp⟩
  rw [tokenize, body, ← flatMap_text_relaidFrom]
  exact lexFrom_of_lexes h

/-- Layout keeps every token that is not spacing, whatever the indentation. -/
theorem visible_tokenize_format (options : Options) (t : Text) :
    visible (tokenize (format { options with
      trimTrailingWhitespace := false
      insertFinalNewline := false
      trimFinalNewlines := false } t)) = visible (tokenize t) := by
  have h := tokenize_body options t
  simp only [format, render, tidyEnds]
  change visible (tokenize (body options.indent (tokenize t))) = _
  rw [h, visible_relaidFrom]

end QueryTidy.Layout

import QueryTidy.Proofs.Lexing.Forms

/-! Reading a text line by line. Nothing but a token that lacks its closing mark goes on behind a
line break. Main statement: `tokenize_append_break_iff`. -/
namespace QueryTidy.Token

variable {allowed : Bool} {kind : Kind} {t rest : Text}

theorem slashAhead_append_break (s : Bool) (t b : Text) :
    slashAhead s (t ++ '\n' :: b) = slashAhead s t := by
  induction t generalizing s with
  | nil => simp [slashAhead]
  | cons c t ih => simp [slashAhead, ih]

theorem Reads.append_break (h : Reads allowed kind t rest) (hr : rest ≠ []) (b : Text) :
    Reads allowed kind t (rest ++ '\n' :: b) := by
  obtain ⟨c, u, rfl⟩ := List.exists_cons_of_ne_nil hr
  by_cases hk : kind = .whitespace
  · subst hk
    obtain ⟨h1, h2⟩ := h.of_whitespace
    exact reads_blanks h.ne_nil h1 h2
  · refine h.change_rest hk ?_ ?_ (fun _ ha => ha)
    · refine ⟨by simp, fun hb => ?_, ?_, ?_⟩
      · obtain rfl : c = '\n' := by simpa using hb
        rfl
      · refine .inr ⟨c, u, u ++ '\n' :: b, rfl, rfl, ?_⟩
        cases u with
        | nil => exact .inl rfl
        | cons d u => exact .inr rfl
      · intro hs
        rw [slashAhead_append_break, hs]
    · intro he
      subst he
      exact h.allowed_of_regex

theorem Reads.before_break (h : Reads allowed kind t [])
    (hk : kind ∉ [.blockComment, .string, .identifier]) (b : Text) :
    Reads allowed kind t ('\n' :: b) := by
  have hh : HeadAlike [] ('\n' :: b) := .inl rfl
  cases h with
  | newline => exact .newline
  | blanks hc hx => exact .blanks hc hx rfl
  | lineComment hx => exact .lineComment hx rfl
  | regex ha hs he hx => exact .regex ha hs he hx
  | number hc hx => exact .number hc (looksAtHead_numberTail _ _ _ _ hh hx)
  | word hc hx _ _ hk => exact .word hc hx rfl (fun _ _ => rfl) hk
  | pipe => exact .pipe (by simp) (by simp)
  | pipeInto => exact .pipeInto
  | concat => exact .concat
  | spread => exact .spread
  | double hd => exact .double hd
  | single hc hd =>
    exact .single hc (double_take_one hh hd) (by simp) (by simp) (by simp [slashAhead])
  | mark hc hp hs hd => exact .mark hc hp hs (double_take_one hh hd) (by simp)
  | blockComment | string | marked | backticks => simp at hk

theorem Reads.unclosed_or_before_break (h : Reads allowed kind t []) (b : Text) :
    Unclosed kind t ∨ Reads allowed kind t ('\n' :: b) := by
  have hb := h.before_break
  cases h with
  | blockComment hx =>
    obtain hx | ⟨-, hx⟩ := hx
    · exact .inr (.blockComment (.inl hx))
    · exact .inl (.blockComment ((runsOn_blockScan_iff false).1 hx))
  | string hq hx =>
    obtain hx | ⟨-, hx⟩ := hx
    · exact .inr (.string hq (.inl hx))
    · exact .inl (unclosed_of_runsOn [] (by simp) hq hx)
  | @marked p q x _ hp hq hx =>
    obtain hx | ⟨-, hx⟩ := hx
    · exact .inr (.marked hp hq (.inl hx))
    · exact .inl (unclosed_of_runsOn [p] (by simpa using hp) hq hx)
  | backticks hx =>
    obtain hx | ⟨-, hx⟩ := hx
    · exact .inr (.backticks (.inl hx))
    · exact .inl (.backticks (runsOn_backtickScan_iff.1 hx))
  | word hc hx _ _ hk => exact .inr (.word hc hx rfl (fun _ _ => rfl) hk)
  | _ => exact .inr (hb (by simp) b)

theorem Scan.Delimits.eq_nil {σ : Type} {scan : Scan σ} {s : σ} {x : Text}
    (hd : scan.Delimits s x rest) (hx : scan.runsOn s x = true) : rest = [] := by
  obtain hd | ⟨hr, -⟩ := hd
  · obtain ⟨y, c, rfl, -, hn⟩ := Scan.ends_iff.1 hd
    rw [hn] at hx
    cases hx
  · exact hr

theorem Reads.of_string {mark x : Text} {q : Char} (hm : mark ∈ [[], ['f'], ['r']])
    (hq : isQuote q) (h : Reads allowed .string (mark ++ q :: x) rest) :
    (quoteScan q).Delimits false x rest := by
  simp only [List.mem_cons, List.not_mem_nil, or_false] at hm
  generalize hk : Kind.string = kind at h
  generalize ht : mark ++ q :: x = t at h
  -- A quote is none of the letters that may stand in front of one, so both readings are alike.
  cases h with
  | string hq' hx =>
    obtain rfl | rfl | rfl := hm <;> obtain ⟨rfl, rfl⟩ := List.cons.inj ht
    · exact hx
    all_goals cases hq'
  | marked hp hq' hx =>
    obtain rfl | rfl | rfl := hm <;> obtain ⟨rfl, hr⟩ := List.cons.inj ht
    · obtain rfl | rfl := hp <;> cases hq
    all_goals
      obtain ⟨rfl, rfl⟩ := List.cons.inj hr
      exact hx
  | word _ _ _ _ hw => split at hw <;> simp_all
  | _ => simp at hk

theorem Reads.of_blockComment {x : Text}
    (h : Reads allowed .blockComment ('/' :: '*' :: x) rest) : blockScan.Delimits false x rest := by
  generalize hk : Kind.blockComment = kind at h
  generalize ht : '/' :: '*' :: x = t at h
  cases h with
  | blockComment hx =>
    obtain ⟨-, ht⟩ := List.cons.inj ht
    obtain ⟨-, rfl⟩ := List.cons.inj ht
    exact hx
  | word _ _ _ _ hw => split at hw <;> simp_all
  | _ => simp at hk

theorem Reads.eq_nil_of_unclosed (h : Reads allowed kind t rest) (hu : Unclosed kind t) :
    rest = [] := by
  cases hu with
  | blockComment hx => exact h.of_blockComment.eq_nil ((runsOn_blockScan_iff false).2 hx)
  | string hm hq hx =>
    have ho := (runsOn_quoteScan_iff (ne_of_class hq rfl)).2 (.inl hx)
    exact (h.of_string hm hq).eq_nil ho
  | stringEscape hm hq hx =>
    have ho := (runsOn_quoteScan_iff (ne_of_class hq rfl)).2 (.inr ⟨_, hx, rfl⟩)
    exact (h.of_string hm hq).eq_nil ho
  | backticks hx =>
    cases h with
    | backticks hd => exact hd.eq_nil (runsOn_backtickScan_iff.2 hx)
    | word hc => cases hc

/-- What came before matters to the next token only in that a regular expression may start. -/
theorem Lexes.change_previous {p p' : Option Token} {tokens : List Token} (h : Lexes p tokens)
    (hp : allowsRegex p = allowsRegex p') : Lexes p' tokens := by
  cases tokens with
  | nil => trivial
  | cons token tokens => exact ⟨hp ▸ h.1, h.2⟩

theorem Lexes.append_break {previous : Option Token} {tokens more : List Token}
    (h : Lexes previous tokens) (hm : Lexes none more)
    (hc : ∀ token ∈ tokens.getLast?, ¬ Unclosed token.kind token.text) :
    Lexes previous (tokens ++ ⟨.newline, ['\n']⟩ :: more) := by
  induction tokens generalizing previous with
  | nil => exact ⟨.newline, hm.change_previous rfl⟩
  | cons token tokens ih =>
    obtain ⟨hr, ht⟩ := h
    cases tokens with
    | nil =>
      obtain hu | hr := hr.unclosed_or_before_break (more.flatMap text)
      · exact absurd hu (hc token rfl)
      · exact ⟨hr, .newline, hm.change_previous rfl⟩
    | cons second tokens =>
      refine ⟨?_, ih ht (by simpa using hc)⟩
      have hn : (second :: tokens).flatMap text ≠ [] := fun he => by simpa using ht.eq_nil he
      simpa using hr.append_break hn (more.flatMap text)

/-- The tokens of two texts with a line break between them are those of either text, and the
break, unless the first text ends in a token that lacks its closing mark. -/
theorem tokenize_append_break_iff (a b : Text) :
    tokenize (a ++ '\n' :: b) = tokenize a ++ ⟨.newline, ['\n']⟩ :: tokenize b ↔
      ∀ token ∈ (tokenize a).getLast?, ¬ Unclosed token.kind token.text := by
  constructor
  · intro h token ht hu
    obtain ⟨before, hb⟩ := List.getLast?_eq_some_iff.1 ht
    obtain ⟨hl, -⟩ := lexFrom_eq_iff.1 h
    rw [hb, List.append_assoc] at hl
    exact absurd (hl.split.1.eq_nil_of_unclosed hu) (by simp)
  · intro h
    refine lexFrom_eq_iff.2 ⟨(lexes_lexFrom none a).append_break (lexes_lexFrom none b) h, ?_⟩
    simp [tokenize, flatMap_text_lexFrom]

end QueryTidy.Token

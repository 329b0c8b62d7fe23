import QueryTidy.Proofs.Layout.Spacing
import QueryTidy.Proofs.Migration.Coordinates
import QueryTidy.Proofs.Migration.Renames
import QueryTidy.Proofs.Migration.Weight

/-! What becomes of the pattern in a call to `grep` that gains `this`. A regular expression goes
between single quotes as it stands, so it stays one argument unless one of these quotes stands in it
without a backslash. Main statements: `argument_of_visible`, `visible_grep_string_iff`,
`grep_keeps_pattern_iff`. -/
namespace QueryTidy.Migration
open Token Layout

def solid (t : Text) : Text := t.filter (!isSpace ·)

def grepCall (arguments : List Token) : List Token :=
  [⟨.identifier, "grep".toList⟩, ⟨.punctuation, ['(']⟩] ++
    (arguments ++ [⟨.punctuation, [')']⟩])

/-- In `StringOf x t`, the text `t` is a string that is closed, and `x` stands between its quotes. -/
inductive StringOf (x : Text) : Text → Prop
  | intro {mark q} : mark ∈ [[], ['f'], ['r']] → isQuote q → InString q x →
      StringOf x (mark ++ q :: (x ++ [q]))

section
variable {c : Char} {s s' t t' b : Text} {token : Token} {tokens front back : List Token}

@[simp]
theorem solid_append (s t : Text) : solid (s ++ t) = solid s ++ solid t := List.filter_append ..

theorem solid_cons (hc : isSpace c = false) (t : Text) : solid (c :: t) = c :: solid t := by
  simp [solid, hc]

theorem mem_solid_iff (hc : isSpace c = false) : c ∈ solid t ↔ c ∈ t := by simp [solid, hc]

theorem Blank.solid_eq_nil (hb : Blank b) : solid b = [] := by
  rw [solid, List.filter_eq_nil_iff]
  intro c hc
  simp [hb c hc]

theorem isSpace_of_isBlank (h : isBlank c = true) : isSpace c = true := by
  simp only [isBlank, Bool.or_eq_true, beq_iff_eq] at h
  obtain (rfl | rfl) | rfl := h <;> rfl

theorem blank_text_of_isSpacing (hm : token ∈ tokenize t) (hs : isSpacing token = true) :
    Blank token.text := by
  obtain ⟨before, after, ht⟩ := List.append_of_mem hm
  have hl : Lexes none (before ++ token :: after) := ht ▸ lexes_lexFrom none t
  have hr := hl.split.1
  simp only [isSpacing, Bool.or_eq_true, decide_eq_true_eq] at hs
  obtain hk | hk := hs
  · rw [hk] at hr
    exact fun c hc => isSpace_of_isBlank (hr.of_whitespace.1 c hc)
  · rw [hk] at hr
    simp [Blank, hr.of_newline, isSpace]

theorem solid_visible (h : ∀ token ∈ tokens, isSpacing token = true → Blank token.text) :
    solid ((visible tokens).flatMap text) = solid (tokens.flatMap text) := by
  induction tokens with
  | nil => rfl
  | cons token tokens ih =>
    obtain ⟨hb, h⟩ := List.forall_mem_cons.1 h
    rw [List.flatMap_cons, solid_append, ← ih h]
    cases hs : isSpacing token with
    | false => simp [visible, hs]
    | true => simp [visible, hs, (hb hs).solid_eq_nil]

theorem solid_visible_tokenize (t : Text) :
    solid ((visible (tokenize t)).flatMap text) = solid t := by
  rw [solid_visible fun _ => blank_text_of_isSpacing, tokenize, flatMap_text_lexFrom]

theorem exists_of_visible_eq (h : visible tokens = front ++ token :: back) :
    ∃ before after, tokens = before ++ token :: after ∧ visible before = front ∧
      visible after = back := by
  obtain ⟨before, rest, rfl, hf, hr⟩ := List.filter_eq_append_iff.1 h
  obtain ⟨gap, after, rfl, hg, -, hb⟩ := List.filter_eq_cons_iff.1 hr
  refine ⟨before ++ gap, after, by simp, ?_, hb⟩
  rw [visible, List.filter_append, hf, List.filter_eq_nil_iff.2 hg, List.append_nil]

theorem append_cons_inj_of_first (hs : c ∉ s) (hs' : c ∉ s') (h : s ++ c :: t = s' ++ c :: t') :
    s = s' ∧ t = t' := by
  induction s generalizing s' with
  | nil =>
    cases s' with
    | nil => exact ⟨rfl, (List.cons.inj h).2⟩
    | cons d s' => exact absurd (List.cons.inj h).1 (List.ne_of_not_mem_cons hs')
  | cons d s ih =>
    cases s' with
    | nil => exact absurd (List.cons.inj h).1.symm (List.ne_of_not_mem_cons hs)
    | cons d' s' =>
      obtain ⟨rfl, htail⟩ := List.cons.inj h
      obtain ⟨rfl, rfl⟩ :=
        ih (List.not_mem_of_not_mem_cons hs) (List.not_mem_of_not_mem_cons hs') htail
      exact ⟨rfl, rfl⟩

end

section Call
variable {name argument b₁ b₂ b₃ : Text}

theorem solid_call (h₁ : Blank b₁) (h₂ : Blank b₂) (h₃ : Blank b₃) :
    solid (name ++ (b₁ ++ '(' :: (b₂ ++ (argument ++ (b₃ ++ [')']))))) =
      solid name ++ '(' :: (solid argument ++ [')']) := by
  rw [solid_append, solid_append, solid_cons (by decide), solid_append, solid_append, solid_append,
    h₁.solid_eq_nil, h₂.solid_eq_nil, h₃.solid_eq_nil]
  rfl

theorem solid_grepCall (arguments : List Token) :
    solid ((grepCall arguments).flatMap text) =
      solid "grep".toList ++ '(' :: (solid (arguments.flatMap text) ++ [')']) := by
  rw [grepCall, List.flatMap_append, List.flatMap_append, solid_append, solid_append]
  rfl

theorem solid_argument {arguments : List Token} (h₁ : Blank b₁) (h₂ : Blank b₂) (h₃ : Blank b₃)
    (hv : visible (tokenize ("grep".toList ++ (b₁ ++ '(' :: (b₂ ++ (argument ++ (b₃ ++ [')']))))))
      = grepCall arguments) :
    solid (arguments.flatMap text) = solid argument := by
  have h := solid_visible_tokenize
    ("grep".toList ++ (b₁ ++ '(' :: (b₂ ++ (argument ++ (b₃ ++ [')'])))))
  rw [hv, solid_grepCall, solid_call h₁ h₂ h₃] at h
  exact List.append_cancel_right (List.cons.inj (List.append_cancel_left h)).2

end Call

section
variable {m argument r x : Text}

theorem exists_around_regex (h : visible (tokenize m) = grepCall [⟨.regex, r⟩]) :
    ∃ u v x, m = u ++ (r ++ v) ∧ '/' ∉ u ∧ r = '/' :: (x ++ ['/']) ∧ InRegex x := by
  obtain ⟨before, after, ht, hb, -⟩ := exists_of_visible_eq h
  have hl : Lexes none (before ++ ⟨.regex, r⟩ :: after) := ht ▸ lexes_lexFrom none m
  have hform : Form after .regex r := form_of_reads hl.split.1 hl.split.2
  have hm : m = before.flatMap text ++ (r ++ after.flatMap text) := by
    have hw := flatMap_text_lexFrom none m
    rw [← tokenize, ht] at hw
    simpa using hw.symm
  have hu : '/' ∉ before.flatMap text := by
    rw [← mem_solid_iff (by decide), ← solid_visible, hb]
    · decide
    · intro token hmem
      exact blank_text_of_isSpacing (t := m) (by simp [ht, hmem])
  cases hform with
  | @regex x hx => exact ⟨_, _, x, hm, hu, rfl, hx⟩
  | unclosed hopen => cases hopen

theorem argument_of_visible (hc : Construct implicitGrep.pattern m argument)
    (hv : visible (tokenize m) = grepCall [⟨.regex, r⟩]) :
    r = argument ∧ ∃ x, argument = '/' :: (x ++ ['/']) ∧ InRegex x := by
  obtain ⟨d, hd, body, b₁, b₂, b₃, hbody, h₁, h₂, h₃, rfl, ha⟩ := construct_call_iff.1 hc
  obtain ⟨u, v, x, hr, hu, rfl, hx⟩ := exists_around_regex hv
  have hsolid := solid_argument h₁ h₂ h₃ hv
  rw [List.flatMap_singleton, solid_cons (by decide), ha] at hsolid
  -- Of the delimiters only the slash can start the regular expression.
  obtain rfl : d = .slashes := by
    simp only [List.mem_cons, List.not_mem_nil, or_false] at hd
    obtain rfl | rfl | rfl := hd
    · rfl
    all_goals
      rw [solid_cons (by decide)] at hsolid
      cases (List.cons.inj hsolid).1
  obtain rfl : argument = '/' :: (body ++ ['/']) := ha
  have hslash : '/' ∉ x := by
    rw [solid_cons (by decide), solid_append, solid_append] at hsolid
    rw [← mem_solid_iff (by decide), List.append_cancel_right (List.cons.inj hsolid).2,
      mem_solid_iff (by decide)]
    exact hbody
  have hfront : '/' ∉ "grep".toList ++ (b₁ ++ '(' :: b₂) := by
    rw [← mem_solid_iff (by decide), solid_append, solid_append, solid_cons (by decide),
      h₁.solid_eq_nil, h₂.solid_eq_nil]
    decide
  have hcut : ("grep".toList ++ (b₁ ++ '(' :: b₂)) ++ '/' :: (body ++ '/' :: (b₃ ++ [')'])) =
      u ++ '/' :: (x ++ '/' :: v) := by simpa using hr
  obtain ⟨-, hrest⟩ := append_cons_inj_of_first hfront hu hcut
  obtain ⟨rfl, -⟩ := append_cons_inj_of_first hbody hslash hrest
  exact ⟨rfl, body, rfl, hx⟩

theorem tokenize_grep_string (hx : InString '\x27' x) :
    tokenize ("grep('".toList ++ x ++ "', this)".toList) =
      [⟨.identifier, "grep".toList⟩, ⟨.punctuation, ['(']⟩, ⟨.string, '\x27' :: (x ++ ['\x27'])⟩,
        ⟨.punctuation, [',']⟩, ⟨.whitespace, [' ']⟩, ⟨.identifier, "this".toList⟩,
        ⟨.punctuation, [')']⟩] := by
  have hgrep : IsName "grep".toList ∧ IsName "this".toList := by decide
  have hkind : (ofName "grep".toList).kind = .identifier ∧
      (ofName "this".toList).kind = .identifier := by decide
  have hclosed : (quoteScan '\x27').ends false (x ++ ['\x27']) = true :=
    (ends_quoteScan_iff (by decide)).2 ⟨x, hx, rfl⟩
  refine lexFrom_eq_iff.2 ⟨⟨?_, ?_, ?_, ?_, ?_, ?_, ?_, trivial⟩, by simp⟩
  · exact hkind.1 ▸ hgrep.1.reads rfl
  · exact reads_callMark (by simp)
  · exact .string rfl (.inl hclosed)
  · exact reads_callMark (by simp)
  · exact .blanks rfl (by simp) rfl
  · exact hkind.2 ▸ hgrep.2.reads rfl
  · exact reads_callMark (by simp)

theorem visible_grep_string_iff :
    (∃ w, StringOf x w ∧ visible (tokenize ("grep('".toList ++ x ++ "', this)".toList)) =
      grepCall [⟨.string, w⟩, ⟨.punctuation, [',']⟩, ⟨.identifier, "this".toList⟩]) ↔
      InString '\x27' x := by
  constructor
  · intro h
    obtain ⟨w, hw, hv⟩ := h
    have he : "grep('".toList ++ x ++ "', this)".toList = "grep".toList ++
        ([] ++ '(' :: ([] ++ ('\x27' :: (x ++ "', this".toList) ++ ([] ++ [')'])))) := by simp
    have h₀ : Blank [] := fun _ h => by cases h
    rw [he] at hv
    have hsolid := solid_argument h₀ h₀ h₀ hv
    rw [List.flatMap_cons, solid_append, solid_cons (by decide)] at hsolid
    -- The string starts with the quote that was written.
    cases hw with
    | @intro mark q hm hq hx =>
      simp only [List.mem_cons, List.not_mem_nil, or_false] at hm
      obtain rfl | rfl | rfl := hm
      · have hspace : isSpace q = false := by
          simp only [isQuote, Bool.or_eq_true, beq_iff_eq] at hq
          obtain rfl | rfl := hq <;> rfl
        rw [List.nil_append, solid_cons hspace] at hsolid
        obtain rfl := (List.cons.inj hsolid).1
        exact hx
      all_goals
        rw [List.cons_append, solid_cons (by decide)] at hsolid
        cases (List.cons.inj hsolid).1
  · intro hx
    have hw : StringOf x ([] ++ '\x27' :: (x ++ ['\x27'])) := .intro (by simp) rfl hx
    refine ⟨_, hw, ?_⟩
    rw [tokenize_grep_string hx]
    rfl

end

/-- A fix that adds `this` to a call of `grep` replaces a construct on one line. Where the construct
is a call with a regular expression, what stood between the slashes stands between single quotes.
It is read as a string again just when no quote stands in it without a backslash. -/
theorem grep_keeps_pattern_iff {t : Text} {f : Finding} (hf : f ∈ scan registry t)
    (hc : f.diagnostic.code = "implicit-this-grep") :
    ∃ number line s e edit, t.lines[number]? = some line ∧ f.fix = some edit ∧
      edit.range.Covers number line s e ∧
      ∀ r, visible (tokenize (line.extract s e)) = grepCall [⟨.regex, r⟩] →
        ∃ x, r = '/' :: (x ++ ['/']) ∧ InRegex x ∧
          edit.newText = "grep('".toList ++ x ++ "', this)".toList ∧
          ((∃ w, StringOf x w ∧ visible (tokenize edit.newText) =
              grepCall [⟨.string, w⟩, ⟨.punctuation, [',']⟩, ⟨.identifier, "this".toList⟩]) ↔
            InString '\x27' x) := by
  have hone : ∀ rule ∈ registry, rule.code = "implicit-this-grep" → rule = implicitGrep := by
    decide
  obtain ⟨number, line, hl, found, hm, -, rfl⟩ := exists_match_of_code hone hf hc
  obtain ⟨u, rest, hline, hu, hconstruct⟩ := Pattern.exists_of_mem_matchesIn hm
  have hfix : (finding implicitGrep number line found).fix =
      some ⟨.onLine number u.utf8Size found.capture.matched.utf8Size,
        Substitution.grepThis.newText found.capture⟩ := fix_finding hline hu
  refine ⟨number, line, u.length, u.length + found.capture.matched.length, _, hl, hfix, ?_, ?_⟩
  · rw [hline]
    exact Range.covers_onLine number u found.capture.matched rest
  · intro r hv
    rw [hline, Text.extract_append] at hv
    obtain ⟨rfl, x, hargument, hx⟩ := argument_of_visible hconstruct hv
    have hnew : Substitution.grepThis.newText found.capture =
        "grep('".toList ++ x ++ "', this)".toList :=
      Substitution.newText_slashes (hargument ▸ Substitution.slashBody?_slashes x)
    refine ⟨x, hargument, hx, hnew, ?_⟩
    rw [hnew]
    exact visible_grep_string_iff

/-- A quote behind a backslash stays in the string. -/
theorem grep_keeps_pattern_iff_escaped :
    let x : Text := "it\\'s\\\\".toList
    let line : Text := "é grep( /it\\'s\\\\/ )".toList
    let f : Finding := finding implicitGrep 1 line
      ⟨2, ⟨"grep( /it\\'s\\\\/ )".toList, "/it\\'s\\\\/".toList⟩⟩
    f ∈ scan registry ('\n' :: line) ∧ f.diagnostic.code = "implicit-this-grep" ∧
      ∃ edit, f.fix = some edit ∧ edit.range.Covers 1 line 2 19 ∧
        visible (tokenize (line.extract 2 19)) = grepCall [⟨.regex, "/it\\'s\\\\/".toList⟩] ∧
        ∃ w, StringOf x w ∧ visible (tokenize edit.newText) =
          grepCall [⟨.string, w⟩, ⟨.punctuation, [',']⟩, ⟨.identifier, "this".toList⟩] := by
  intro x line f
  have hf : f ∈ scan registry ('\n' :: line) := by decide +kernel
  have hedit : f.fix = some ⟨.onLine 1 3 17, "grep('it\\'s\\\\', this)".toList⟩ := by decide
  have htokens : visible (tokenize (line.extract 2 19)) =
      grepCall [⟨.regex, "/it\\'s\\\\/".toList⟩] := by decide +kernel
  obtain ⟨number, line', s, e, edit, hl, hfix, hcovers, h⟩ := grep_keeps_pattern_iff hf rfl
  obtain rfl := Option.some.inj (hfix.symm.trans hedit)
  obtain rfl : 1 = number := hcovers.start_line
  obtain rfl : line = line' := Option.some.inj hl
  obtain rfl : 2 = s := Except.ok.inj hcovers.start_index
  obtain rfl : 19 = e := Except.ok.inj hcovers.stop_index
  obtain ⟨x', hx', -, -, hiff⟩ := h _ htokens
  obtain rfl : x = x' := List.append_cancel_right (List.cons.inj hx').2
  have hx : InString '\x27' x :=
    .single rfl (.single rfl (.pair rfl (.single rfl (.pair rfl .nil))))
  exact ⟨hf, rfl, _, hfix, hcovers, htokens, hiff.2 hx⟩

/-- A bare quote closes the string in the middle of the pattern, and another one is opened that has
no end. -/
theorem grep_loses_pattern :
    let t : Text := "grep(/it's/)".toList
    visible (tokenize t) = grepCall [⟨.regex, "/it's/".toList⟩] ∧
      ∃ f ∈ scan registry t, f.diagnostic.code = "implicit-this-grep" ∧
        f.fix = some ⟨.onLine 0 0 12, "grep('it's', this)".toList⟩ ∧
        visible (tokenize "grep('it's', this)".toList) =
          [⟨.identifier, "grep".toList⟩, ⟨.punctuation, ['(']⟩, ⟨.string, "'it'".toList⟩,
            ⟨.identifier, ['s']⟩, ⟨.string, "', this)".toList⟩] := by
  decide +kernel

end QueryTidy.Migration

import QueryTidy.Proofs.Layout.Idempotence
import QueryTidy.Proofs.Lexing.Breaks

/-! Laying out a text line by line. Of what stands in front of a line break, nothing but the
bracket depth matters behind it. Main statements: `body_append_break_at_depth`,
`format_append_break`. -/
namespace QueryTidy.Layout
open Token

variable {unit a b : Text}

theorem depth_next (cursor : Cursor) (token : Token) (following : Option Token) :
    (cursor.next token following).depth = depthBehind cursor.depth token := by
  cases h : isSpacing token with
  | false => rw [next_of_visible h]
  | true =>
    simp only [isSpacing, Bool.or_eq_true, decide_eq_true_eq] at h
    obtain h | h := h <;>
      simp [Cursor.next, h, depthBehind, depthAt, Token.isPunctuation]

theorem depth_along (cursor : Cursor) (tokens : List Token) :
    (cursor.along tokens).depth = tokens.foldl depthBehind cursor.depth := by
  induction tokens generalizing cursor with
  | nil => rfl
  | cons token tokens ih => rw [Cursor.along, ih, depth_next, List.foldl_cons]

theorem layoutFrom_behind_break (depth : Nat) (tokens : List Token) :
    layoutFrom unit ⟨depth, true, false, some lineBreak⟩ tokens =
      layoutFrom unit { depth } tokens := by
  cases tokens with
  | nil => rfl
  | cons token tokens =>
    -- A line break names no field, and at a line start no space is asked for.
    have hr : relay unit ⟨depth, true, false, some lineBreak⟩ token =
        relay unit { depth } token := by
      simp [relay, lead, blanksBefore]
    have hl (following : Option Token) :
        leavesSpace (some lineBreak) token following = leavesSpace none token following := by
      simp [leavesSpace, namesField, lineBreak]
    have hn : Cursor.next ⟨depth, true, false, some lineBreak⟩ token tokens.head? =
        Cursor.next { depth } token tokens.head? := by
      simp [Cursor.next, hl]
    rw [layoutFrom_cons, layoutFrom_cons, hr, hn]

/-- Two texts with a line break between them: the second one is laid out at the bracket depth
that the first one leaves. -/
theorem body_append_break_at_depth (unit b : Text)
    (ha : ∀ token ∈ (tokenize a).getLast?, ¬ Unclosed token.kind token.text) :
    body unit (tokenize (a ++ '\n' :: b)) =
      body unit (tokenize a) ++
        '\n' :: layoutFrom unit { depth := (tokenize a).foldl depthBehind 0 } (tokenize b) := by
  have ht : tokenize (a ++ '\n' :: b) = tokenize a ++ lineBreak :: tokenize b :=
    lexFrom_eq_iff.2 ⟨(lexes_lexFrom none a).append_break (lexes_lexFrom none b) ha,
      by simp [tokenize, flatMap_text_lexFrom, lineBreak]⟩
  have hd := depth_along {} (tokenize a)
  calc
    body unit (tokenize (a ++ '\n' :: b))
      = layoutFrom unit {} (tokenize a ++ lineBreak :: tokenize b) :=
        congrArg (body unit) ht
    _ = body unit (tokenize a) ++
        layoutFrom unit (Cursor.along {} (tokenize a)) (lineBreak :: tokenize b) :=
        layoutFrom_append rfl
    _ = body unit (tokenize a) ++ '\n' :: layoutFrom unit
          ⟨(tokenize a).foldl depthBehind 0, true, false, some lineBreak⟩ (tokenize b) := by
        rw [layoutFrom_cons, ← hd]
        rfl
    _ = _ := by rw [layoutFrom_behind_break]

/-- Behind a text that leaves no token and no bracket open, another one is laid out as it is by
itself. -/
theorem format_append_break (options : Options) (a b : Text)
    (ha : ∀ token ∈ (tokenize a).getLast?, ¬ Unclosed token.kind token.text)
    (hd : (tokenize a).foldl depthBehind 0 = 0) :
    let plain := { options with
      trimTrailingWhitespace := false
      insertFinalNewline := false
      trimFinalNewlines := false }
    format plain (a ++ '\n' :: b) = format plain a ++ '\n' :: format plain b := by
  have h := body_append_break_at_depth options.indent b ha
  rw [hd] at h
  exact h

/-- Brackets that close too often, an operator without its right side, and a line that starts with
a regular expression. -/
theorem format_append_break_unbalanced :
    let a := "f(x\x7d)]| r'\\'' <= ".toList
    let b := "/a b/ :\x7by".toList
    (tokenize a).foldl depthBehind 0 = 0 ∧
      format {} (a ++ '\n' :: b) = format {} a ++ '\n' :: format {} b := by
  intro a b
  have hl : (tokenize a).getLast? = some ⟨.whitespace, [' ']⟩ := by decide +kernel
  have hd : (tokenize a).foldl depthBehind 0 = 0 := by decide +kernel
  refine ⟨hd, format_append_break {} a b ?_ hd⟩
  intro token ht hu
  rw [hl] at ht
  obtain rfl := Option.some.inj ht
  cases hu

end QueryTidy.Layout

import QueryTidy.Proofs.Layout.Fixpoint
import QueryTidy.Proofs.Lexing.Trimmed

/-! Laying out a text twice is laying it out once. The layout leaves its output as it is also
when its line ends were tidied (`Settled.tidyEnds`). Main statement: `format_format`. -/
namespace QueryTidy.Layout
open Token

variable {unit : Text} {cursor : Cursor} {token : Token} {tokens : List Token}

def Cursor.along (cursor : Cursor) : List Token → Cursor
  | [] => cursor
  | token :: tokens => (cursor.next token tokens.head?).along tokens

theorem layoutFrom_append {a b : List Token} (hb : b.head?.any isClosing = false) :
    layoutFrom unit cursor (a ++ b) =
      layoutFrom unit cursor a ++ layoutFrom unit (cursor.along a) b := by
  induction a generalizing cursor with
  | nil => rfl
  | cons token a ih =>
    have hn : cursor.next token (a ++ b).head? = cursor.next token a.head? := by
      cases a with
      | nil =>
        unfold Cursor.next
        split
        · rfl
        · rfl
        · congr 1
          exact leavesSpace_following fun _ _ => hb
      | cons t a => rfl
    rw [List.cons_append, layoutFrom_cons, layoutFrom_cons, hn, ih, List.append_assoc]
    rfl

theorem head_not_closing (hk : token.kind ≠ .punctuation) :
    [token].head?.any isClosing = false := by
  cases hc : isClosing token with
  | true => exact absurd (kind_of_isClosing hc) hk
  | false => exact hc

theorem layoutFrom_lengthened (hk : token.kind ∈ [.blockComment, .string, .identifier]) (x : Text) :
    layoutFrom unit cursor [{ token with text := token.text ++ x }] =
      layoutFrom unit cursor [token] ++ x := by
  obtain ⟨kind, t⟩ := token
  simp only [List.mem_cons, List.not_mem_nil, or_false] at hk
  obtain rfl | rfl | rfl := hk <;> simp [layoutFrom, step, write, Cursor.gap]

theorem body_append_break (unit t : Text) :
    body unit (tokenize (t ++ ['\n'])) = body unit (tokenize t) ++ ['\n'] := by
  obtain ht | ⟨front, last, he, hk, ht⟩ := tokenize_append_break t
  · rw [ht]
    exact layoutFrom_append rfl
  · have hp : last.kind ≠ .punctuation := by
      intro hp
      simp [hp] at hk
    have hp' : [{ last with text := last.text ++ ['\n'] }].head?.any isClosing = false :=
      head_not_closing hp
    rw [ht, he, body, body, layoutFrom_append (head_not_closing hp), layoutFrom_append hp',
      layoutFrom_lengthened hk, List.append_assoc]

@[simp]
theorem isPunctuation_trimmed (token : Token) (marks : List Text) :
    (trimmed token).isPunctuation marks = token.isPunctuation marks := by
  by_cases hk : token.kind = .punctuation
  · rw [trimmed_of_kind (by simp [hk])]
  · simp [isPunctuation, hk]

theorem any_isPunctuation_trimmed (marks : List Text) (token : Option Token) :
    (token.map trimmed).any (·.isPunctuation marks) = token.any (·.isPunctuation marks) := by
  simp [Option.any_map]

theorem isJoining_trimmed (hk : token.kind = .operator) :
    isJoining (trimmed token).text = isJoining token.text := by
  rw [trimmed_of_kind (by simp [hk])]

theorem setsOffValue_trimmed (previous : Option Token) :
    setsOffValue (previous.map trimmed) = setsOffValue previous := by
  cases previous with
  | none => rfl
  | some previous =>
    by_cases hk : previous.kind ∈ [.whitespace, .newline, .punctuation, .operator]
    · rw [Option.map_some, trimmed_of_kind hk]
    · simp only [setsOffValue, Option.map_some, trimmed_kind]
      split <;> simp_all

theorem asksSpace_trimmed (previous : Option Token) (token : Token) :
    asksSpace (previous.map trimmed) (trimmed token) = asksSpace previous token := by
  unfold asksSpace
  rw [trimmed_kind, setsOffValue_trimmed, any_isPunctuation_trimmed]
  split <;> try rfl
  rename_i hk
  rw [isJoining_trimmed hk]

theorem leavesSpace_trimmed (previous following : Option Token) (token : Token) :
    leavesSpace (previous.map trimmed) (trimmed token) (following.map trimmed) =
      leavesSpace previous token following := by
  unfold leavesSpace
  rw [trimmed_kind]
  split
  · rfl
  · rename_i hk
    have hp : (previous.map trimmed).any namesField = previous.any namesField := by
      cases previous <;> simp [namesField]
    rw [trimmed_of_kind (by simp [hk]), hp]
  · rename_i hk
    rw [isJoining_trimmed hk]
    exact congrArg (!isJoining token.text && !·) (any_isPunctuation_trimmed _ following)
  · rfl

def Cursor.trimmed (cursor : Cursor) : Cursor :=
  { cursor with previous := cursor.previous.map Token.trimmed }

theorem depthBehind_trimmed (depth : Nat) (token : Token) :
    depthBehind depth (trimmed token) = depthBehind depth token := by
  simp [depthBehind, depthAt]

theorem lead_trimmed (cursor : Cursor) (token : Token) :
    lead unit cursor.trimmed (trimmed token) = lead unit cursor token := by
  simp [lead, blanksBefore, Cursor.trimmed, depthAt, asksSpace_trimmed]

theorem map_trimmed_lead (cursor : Cursor) (token : Token) :
    (lead unit cursor token).map trimmed = lead unit cursor token := by
  simp only [lead, blankToken]
  split <;> split <;> rfl

theorem next_trimmed (cursor : Cursor) (token : Token) (following : Option Token) :
    cursor.trimmed.next (trimmed token) (following.map trimmed) =
      (cursor.next token following).trimmed := by
  unfold Cursor.next
  rw [trimmed_kind]
  split
  · rfl
  · rfl
  · simp only [Cursor.trimmed, depthBehind_trimmed, leavesSpace_trimmed, Option.map_some]

/-- The layout does not look at what trimming changes. -/
theorem relaidFrom_trimmed (cursor : Cursor) (tokens : List Token) :
    relaidFrom unit cursor.trimmed (tokens.map trimmed) =
      (relaidFrom unit cursor tokens).map trimmed := by
  induction tokens generalizing cursor with
  | nil => rfl
  | cons token tokens ih =>
    have hr : relay unit cursor.trimmed (trimmed token) =
        (relay unit cursor token).map trimmed := by
      unfold relay
      rw [trimmed_kind]
      split
      · rfl
      · rfl
      · rw [lead_trimmed, List.map_append, map_trimmed_lead]
        rfl
    rw [List.map_cons, relaidFrom, List.head?_map, next_trimmed, ih, hr, relaidFrom,
      List.map_append]

theorem blanksInside_relaidFrom (cursor : Cursor) (tokens : List Token) :
    BlanksInside (relaidFrom unit cursor tokens) := by
  induction tokens generalizing cursor with
  | nil => trivial
  | cons token tokens ih =>
    have hi := ih (cursor.next token tokens.head?)
    by_cases hn : token.kind = .newline
    · rw [relaidFrom_newline hn]
      exact ⟨by simp [lineBreak], hi⟩
    by_cases hw : token.kind = .whitespace
    · rw [relaidFrom_whitespace hw]
      exact hi
    · rw [relaidFrom_visible (isSpacing_eq_false_iff.2 ⟨hw, hn⟩)]
      have ht : BlanksInside (token :: relaidFrom unit (cursor.next token tokens.head?) tokens) :=
        ⟨fun h => absurd h hw, hi⟩
      simp only [lead, blankToken]
      split <;> split
      · exact ⟨by simp [lineBreak], ht⟩
      · exact ⟨by simp [lineBreak], by simp [hn], ht⟩
      · exact ht
      · exact ⟨by simp [hn], ht⟩

def Settled (unit t : Text) : Prop := body unit (tokenize t) = t

theorem settled_body (options : Options) (t : Text) :
    Settled options.indent (body options.indent (tokenize t)) := by
  rw [Settled, tokenize_body, body, body, ← flatMap_text_relaidFrom, ← flatMap_text_relaidFrom,
    relaidFrom_relaidFrom ⟨rfl, rfl, by simp, fun _ => rfl, fun _ => rfl⟩]

theorem Settled.append_break {unit t : Text} (h : Settled unit t) : Settled unit (t ++ ['\n']) := by
  rw [Settled, body_append_break, h]

theorem Settled.of_append_break {unit t : Text} (h : Settled unit (t ++ ['\n'])) :
    Settled unit t := by
  rw [Settled, body_append_break] at h
  exact List.append_cancel_right h

theorem Settled.tokenize_trimLines {options : Options} {t : Text} (h : Settled options.indent t) :
    tokenize (Layout.trimLines t) = (tokenize t).map trimmed := by
  have hr : tokenize t = relaidFrom options.indent {} (tokenize t) := by
    rw [← tokenize_body, h]
  have hb : BlanksInside (tokenize t) := by
    rw [hr]
    exact blanksInside_relaidFrom {} (tokenize t)
  obtain ⟨he, hl⟩ := lexes_trimmed (lexes_lexFrom none t) hb
  refine lexFrom_eq_iff.2 ⟨hl none rfl, ?_⟩
  rw [tokenize, ← he, flatMap_text_lexFrom]

theorem Settled.trimLines {options : Options} {t : Text} (h : Settled options.indent t) :
    Settled options.indent (trimLines t) := by
  have hr : tokenize t = relaidFrom options.indent {} (tokenize t) := by
    rw [← tokenize_body, h]
  have he := flatMap_text_lexFrom none (Layout.trimLines t)
  rw [← tokenize, h.tokenize_trimLines] at he
  rw [Settled, h.tokenize_trimLines, body, ← flatMap_text_relaidFrom]
  change (relaidFrom options.indent (Cursor.trimmed {}) _).flatMap text = _
  rw [relaidFrom_trimmed, ← hr, he]

theorem Settled.trimFinalBreaks {unit t : Text} (h : Settled unit t) :
    Settled unit (trimFinalBreaks t) :=
  trimFinalBreaks_induction h fun _ hu => hu.of_append_break

theorem Settled.endWithBreak {unit t : Text} (h : Settled unit t) :
    Settled unit (endWithBreak t) := by
  unfold Layout.endWithBreak
  split
  · exact h
  · exact h.append_break

theorem Settled.tidyEnds {options : Options} {t : Text} (h : Settled options.indent t) :
    Settled options.indent (tidyEnds options t) := by
  have chosen {b : Bool} {x y : Text} (hx : Settled options.indent x)
      (hy : Settled options.indent y) : Settled options.indent (if b then x else y) := by
    cases b
    · exact hy
    · exact hx
  have h1 := chosen (b := options.trimTrailingWhitespace) h.trimLines h
  have h2 := chosen (b := options.trimFinalNewlines) h1.trimFinalBreaks h1
  exact chosen h2.endWithBreak h2

/-- Laying out twice is laying out once, so a text that is laid out needs no edits. -/
theorem format_format (options : Options) (t : Text) :
    format options (format options t) = format options t ∧
      edits options (format options t) = [] := by
  have h : format options (format options t) = format options t := by
    have hs : Settled options.indent (format options t) := (settled_body options t).tidyEnds
    calc
      format options (format options t) = tidyEnds options (format options t) :=
        congrArg (tidyEnds options) hs
      _ = format options t := tidyEnds_tidyEnds options _
  refine ⟨h, ?_⟩
  rw [edits, h]
  exact if_pos rfl

end QueryTidy.Layout

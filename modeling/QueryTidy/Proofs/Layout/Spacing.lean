import QueryTidy.Layout.Pass

/-! One step of the layout pass: the tokens it writes in place of one token, and what it
remembers. Main statements: `step_eq`, `flatMap_text_relaidFrom`. -/
namespace QueryTidy.Layout

def isSpacing (token : Token) : Bool := token.kind = .whitespace || token.kind = .newline

def visible (tokens : List Token) : List Token := tokens.filter (!isSpacing ·)

def asksSpace (previous : Option Token) (token : Token) : Bool :=
  match token.kind with
  | .whitespace | .newline | .lineComment | .blockComment | .pipe | .punctuation => false
  | .operator => !isJoining token.text && !previous.any (·.isPunctuation Token.openers)
  | _ => setsOffValue previous

def namesField (token : Token) : Bool := token.kind = .identifier || token.kind = .string

def isClosing (token : Token) : Bool := token.isPunctuation ([','] :: Token.closers)

def leavesSpace (previous : Option Token) (token : Token) (following : Option Token) : Bool :=
  match token.kind with
  | .pipe => true
  | .punctuation => token.text = [','] || (token.text = [':'] && previous.any namesField)
  | .operator => !isJoining token.text && !following.any isClosing
  | _ => false

def depthAt (depth : Nat) (token : Token) : Nat :=
  if token.isPunctuation Token.closers then depth - 1 else depth

def depthBehind (depth : Nat) (token : Token) : Nat :=
  if token.isPunctuation Token.openers then depth + 1 else depthAt depth token

def blanksBefore (unit : Text) (cursor : Cursor) (token : Token) : Text :=
  if cursor.atLineStart || token.kind = .pipe then
    (List.replicate (depthAt cursor.depth token) unit).flatten
  else if asksSpace cursor.previous token || cursor.owesSpace then [' '] else []

def lineBreak : Token := ⟨.newline, ['\n']⟩

def blankToken (t : Text) : List Token := if t = [] then [] else [⟨.whitespace, t⟩]

/-- The spacing written in front of a token. Pipes start a line. -/
def lead (unit : Text) (cursor : Cursor) (token : Token) : List Token :=
  (if token.kind = .pipe && !cursor.atLineStart then [lineBreak] else []) ++
    blankToken (blanksBefore unit cursor token)

def relay (unit : Text) (cursor : Cursor) (token : Token) : List Token :=
  match token.kind with
  | .newline => [lineBreak]
  | .whitespace => []
  | _ => lead unit cursor token ++ [token]

def Cursor.next (cursor : Cursor) (token : Token) (following : Option Token) : Cursor :=
  match token.kind with
  | .newline => ⟨cursor.depth, true, false, some token⟩
  | .whitespace =>
    ⟨cursor.depth, cursor.atLineStart, cursor.owesSpace || !cursor.atLineStart, some token⟩
  | _ =>
    ⟨depthBehind cursor.depth token, false, leavesSpace cursor.previous token following,
      some token⟩

def relaidFrom (unit : Text) (cursor : Cursor) : List Token → List Token
  | [] => []
  | token :: tokens =>
    relay unit cursor token ++ relaidFrom unit (cursor.next token tokens.head?) tokens

@[simp]
theorem next_previous (cursor : Cursor) (token : Token) (following : Option Token) :
    (cursor.next token following).previous = some token := by
  unfold Cursor.next
  split <;> rfl

theorem next_of_visible {cursor : Cursor} {token : Token} {following : Option Token}
    (h : isSpacing token = false) :
    cursor.next token following =
      ⟨depthBehind cursor.depth token, false, leavesSpace cursor.previous token following,
        some token⟩ := by
  unfold Cursor.next
  split <;> simp_all [isSpacing]

theorem relay_of_visible {unit : Text} {cursor : Cursor} {token : Token}
    (h : isSpacing token = false) :
    relay unit cursor token = lead unit cursor token ++ [token] := by
  unfold relay
  split <;> simp_all [isSpacing]

theorem relaidFrom_newline {unit : Text} {cursor : Cursor} {token : Token} {tokens : List Token}
    (h : token.kind = .newline) :
    relaidFrom unit cursor (token :: tokens) =
      lineBreak :: relaidFrom unit (cursor.next token tokens.head?) tokens := by
  simp [relaidFrom, relay, h]

theorem relaidFrom_whitespace {unit : Text} {cursor : Cursor} {token : Token}
    {tokens : List Token} (h : token.kind = .whitespace) :
    relaidFrom unit cursor (token :: tokens) =
      relaidFrom unit (cursor.next token tokens.head?) tokens := by
  simp [relaidFrom, relay, h]

theorem relaidFrom_visible {unit : Text} {cursor : Cursor} {token : Token} {tokens : List Token}
    (h : isSpacing token = false) :
    relaidFrom unit cursor (token :: tokens) =
      lead unit cursor token ++ token ::
        relaidFrom unit (cursor.next token tokens.head?) tokens := by
  simp [relaidFrom, relay_of_visible h]

theorem flatMap_text_blankToken (t : Text) : (blankToken t).flatMap Token.text = t := by
  unfold blankToken
  split <;> simp_all

theorem flatMap_text_lead (unit : Text) (cursor : Cursor) (token : Token) :
    (lead unit cursor token).flatMap Token.text =
      (if token.kind = .pipe && !cursor.atLineStart then ['\n'] else []) ++
        blanksBefore unit cursor token := by
  rw [lead, List.flatMap_append, flatMap_text_blankToken]
  split <;> rfl

theorem gap_eq (unit : Text) (cursor : Cursor) (space : Bool) :
    cursor.gap unit space =
      if cursor.atLineStart then (List.replicate cursor.depth unit).flatten
      else if space || cursor.owesSpace then [' '] else [] := rfl

theorem not_closer_of_opener {mark : Text} (h : mark ∈ Token.openers) :
    mark ∉ Token.closers ∧ mark ≠ [','] ∧ mark ≠ [':'] := by
  simp only [Token.openers, List.mem_cons, List.not_mem_nil, or_false] at h
  obtain rfl | rfl | rfl := h <;> decide

theorem not_comma_of_closer {mark : Text} (h : mark ∈ Token.closers) :
    mark ≠ [','] ∧ mark ≠ [':'] := by
  simp only [Token.closers, List.mem_cons, List.not_mem_nil, or_false] at h
  obtain rfl | rfl | rfl := h <;> decide

theorem punctuation_eq (unit : Text) (cursor : Cursor) (mark : Text) (following : Option Token) :
    punctuation unit cursor mark =
      (blanksBefore unit cursor ⟨.punctuation, mark⟩ ++ mark,
        ⟨depthBehind cursor.depth ⟨.punctuation, mark⟩, false,
          leavesSpace cursor.previous ⟨.punctuation, mark⟩ following, cursor.previous⟩) := by
  simp only [punctuation, write, gap_eq, Cursor.written, blanksBefore, depthAt, depthBehind,
    leavesSpace, asksSpace, Token.isPunctuation, List.contains_iff_mem]
  by_cases ho : mark ∈ Token.openers
  · obtain ⟨hc, h1, h2⟩ := not_closer_of_opener ho
    simp [ho, hc, h1, h2]
  by_cases hc : mark ∈ Token.closers
  · obtain ⟨h1, h2⟩ := not_comma_of_closer hc
    simp [ho, hc, h1, h2]
  · by_cases h1 : mark = [',']
    · subst mark
      simp [ho, hc]
    by_cases h2 : mark = [':']
    · subst mark
      simp [ho, hc]
      rfl
    · simp [ho, hc, h1, h2]

theorem operator_eq (unit : Text) (cursor : Cursor) (t : Text) (following : Option Token) :
    operator unit cursor t following =
      (blanksBefore unit cursor ⟨.operator, t⟩ ++ t,
        ⟨depthBehind cursor.depth ⟨.operator, t⟩, false,
          leavesSpace cursor.previous ⟨.operator, t⟩ following, cursor.previous⟩) := by
  have hn (marks : List Text) : Token.isPunctuation ⟨.operator, t⟩ marks = false := rfl
  cases hj : isJoining t with
  | true =>
    simp [operator, write, gap_eq, Cursor.written, blanksBefore, depthAt, depthBehind, leavesSpace,
      asksSpace, hn, hj]
  | false =>
    simp [operator, write, gap_eq, Cursor.written, blanksBefore, depthAt, depthBehind, leavesSpace,
      asksSpace, hn, hj]
    rfl

/-- One step, told by the tokens it writes and the cursor behind them. -/
theorem step_eq (unit : Text) (cursor : Cursor) (token : Token) (following : Option Token) :
    step unit cursor token following =
      ((relay unit cursor token).flatMap Token.text,
        { cursor.next token following with previous := cursor.previous }) := by
  obtain ⟨kind, t⟩ := token
  cases kind with
  | newline => rfl
  | whitespace =>
    obtain ⟨depth, line, owes, previous⟩ := cursor
    cases line <;> simp [step, relay, Cursor.next]
  | punctuation =>
    simp only [step, punctuation_eq _ _ _ following, relay, Cursor.next]
    simp [flatMap_text_lead]
  | operator =>
    simp only [step, operator_eq, relay, Cursor.next]
    simp [flatMap_text_lead]
  | pipe =>
    simp only [step, relay, Cursor.next]
    cases hl : cursor.atLineStart <;>
      simp [flatMap_text_lead, write, gap_eq, Cursor.broken, Cursor.written, blanksBefore, depthAt,
        depthBehind, leavesSpace, Token.isPunctuation, hl]
  | _ =>
    simp [step, relay, Cursor.next, flatMap_text_lead, write, gap_eq, Cursor.written,
      blanksBefore, depthAt, Token.isPunctuation, depthBehind, leavesSpace, asksSpace]

theorem layoutFrom_cons (unit : Text) (cursor : Cursor) (token : Token) (tokens : List Token) :
    layoutFrom unit cursor (token :: tokens) =
      (relay unit cursor token).flatMap Token.text ++
        layoutFrom unit (cursor.next token tokens.head?) tokens := by
  have h : { cursor.next token tokens.head? with previous := some token } =
      cursor.next token tokens.head? := by
    rw [← next_previous cursor token tokens.head?]
  simp only [layoutFrom, step_eq, h]

theorem flatMap_text_relaidFrom (unit : Text) (cursor : Cursor) (tokens : List Token) :
    (relaidFrom unit cursor tokens).flatMap Token.text = layoutFrom unit cursor tokens := by
  induction tokens generalizing cursor with
  | nil => rfl
  | cons token tokens ih => rw [relaidFrom, List.flatMap_append, ih, layoutFrom_cons]

theorem visible_lead (unit : Text) (cursor : Cursor) (token : Token) :
    visible (lead unit cursor token) = [] := by
  simp only [lead, blankToken]
  split <;> split <;> rfl

theorem visible_relay (unit : Text) (cursor : Cursor) (token : Token) :
    visible (relay unit cursor token) = visible [token] := by
  cases h : isSpacing token with
  | false =>
    rw [relay_of_visible h, visible, List.filter_append]
    change visible _ ++ _ = _
    rw [visible_lead]
    rfl
  | true =>
    simp only [isSpacing, Bool.or_eq_true, decide_eq_true_eq] at h
    obtain h | h := h <;> simp [relay, h, visible, isSpacing, lineBreak]

theorem visible_relaidFrom (unit : Text) (cursor : Cursor) (tokens : List Token) :
    visible (relaidFrom unit cursor tokens) = visible tokens := by
  induction tokens generalizing cursor with
  | nil => rfl
  | cons token tokens ih =>
    have h := visible_relay unit cursor token
    have hi := ih (cursor.next token tokens.head?)
    simp only [visible, relaidFrom, List.filter_append, List.filter_cons] at h hi ⊢
    rw [h, hi]
    split <;> rfl

end QueryTidy.Layout

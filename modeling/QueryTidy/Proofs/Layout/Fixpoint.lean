import QueryTidy.Proofs.Layout.Retokenizing

/-! The layout leaves its own output as it is: `relaidFrom_relaidFrom`. -/
namespace QueryTidy.Layout
open Token

variable {unit : Text} {cursor second : Cursor} {token : Token} {tokens : List Token}

/-- A second pass over the output knows what the first one knew. Behind spacing it may have met
fewer blanks. -/
structure Tracks (cursor second : Cursor) : Prop where
  depth : second.depth = cursor.depth
  line : second.atLineStart = cursor.atLineStart
  same : cursor.atLineStart = false → cursor.owesSpace = false → second = cursor
  met : cursor.atLineStart = true ∨ cursor.owesSpace = true →
    cursor.previous.any namesField = false
  written : second.atLineStart = true → second.previous.any namesField = false

theorem relaidFrom_blankToken (unit : Text) (cursor : Cursor) (t : Text) (tokens : List Token) :
    relaidFrom unit cursor (blankToken t ++ tokens) =
      relaidFrom unit (if t = [] then cursor else
        ⟨cursor.depth, cursor.atLineStart, cursor.owesSpace || !cursor.atLineStart,
          some ⟨.whitespace, t⟩⟩) tokens := by
  unfold blankToken
  split <;> rfl

theorem leavesSpace_of_not_named {p : Option Token} (h : p.any namesField = false)
    (following : Option Token) :
    leavesSpace p token following = leavesSpace none token following := by
  simp [leavesSpace, h]

theorem leavesSpace_of_not_punctuation (hk : token.kind ≠ .punctuation)
    (p q following : Option Token) :
    leavesSpace p token following = leavesSpace q token following := by
  unfold leavesSpace
  split <;> simp_all

def indentAt (unit : Text) (depth : Nat) (token : Token) : Text :=
  (List.replicate (depthAt depth token) unit).flatten

theorem lead_at_line_start (hl : cursor.atLineStart = true) :
    lead unit cursor token = blankToken (indentAt unit cursor.depth token) := by
  simp [lead, blanksBefore, indentAt, hl]

theorem relaidFrom_indentAt (hv : isSpacing token = false) (hl : second.atLineStart = true)
    (hp : second.previous.any namesField = false) (rest : List Token) :
    relaidFrom unit second (blankToken (indentAt unit second.depth token) ++ token :: rest) =
      blankToken (indentAt unit second.depth token) ++ token ::
        relaidFrom unit ⟨depthBehind second.depth token, false,
          leavesSpace none token rest.head?, some token⟩ rest := by
  have meets (c : Cursor) (hd : c.depth = second.depth) (hl : c.atLineStart = true)
      (hp : c.previous.any namesField = false) :
      relaidFrom unit c (token :: rest) =
        blankToken (indentAt unit second.depth token) ++ token ::
          relaidFrom unit ⟨depthBehind second.depth token, false,
            leavesSpace none token rest.head?, some token⟩ rest := by
    rw [relaidFrom_visible hv, next_of_visible hv, lead_at_line_start hl,
      leavesSpace_of_not_named hp, hd]
  rw [relaidFrom_blankToken]
  split
  · exact meets second rfl hl hp
  · exact meets _ rfl hl rfl

theorem relaidFrom_lineBreak :
    relaidFrom unit second (lineBreak :: tokens) =
      lineBreak :: relaidFrom unit ⟨second.depth, true, false, some lineBreak⟩ tokens := rfl

theorem lead_of_space (hl : cursor.atLineStart = false) (hp : token.kind ≠ .pipe)
    (hs : (asksSpace cursor.previous token || cursor.owesSpace) = true) :
    lead unit cursor token = blankToken [' '] := by
  simp [lead, blanksBefore, hl, hp, hs]

theorem relaidFrom_lead (hv : isSpacing token = false) (h : Tracks cursor second)
    (rest : List Token) :
    relaidFrom unit second (lead unit cursor token ++ token :: rest) =
      lead unit cursor token ++ token :: relaidFrom unit (cursor.next token rest.head?) rest := by
  cases hl : cursor.atLineStart with
  | true =>
    have hl' : second.atLineStart = true := h.line.trans hl
    rw [next_of_visible hv, lead_at_line_start hl, leavesSpace_of_not_named (h.met (.inl hl)),
      ← h.depth]
    exact relaidFrom_indentAt hv hl' (h.written hl') rest
  | false =>
    have hl' : second.atLineStart = false := h.line.trans hl
    by_cases hp : token.kind = .pipe
    · have hb : lead unit cursor token =
          lineBreak :: blankToken (indentAt unit cursor.depth token) := by
        simp [lead, blanksBefore, indentAt, hl, hp]
      rw [next_of_visible hv, hb, leavesSpace_of_not_punctuation (by simp [hp]) _ none,
        List.cons_append, relaidFrom_lineBreak, h.depth]
      exact congrArg (lineBreak :: ·) (relaidFrom_indentAt hv rfl rfl rest)
    cases hs : asksSpace cursor.previous token || cursor.owesSpace with
    | true =>
      have hn : leavesSpace cursor.previous token rest.head? =
          leavesSpace none token rest.head? := by
        cases ho : cursor.owesSpace with
        | true => exact leavesSpace_of_not_named (h.met (.inr ho)) _
        | false =>
          refine leavesSpace_of_not_punctuation ?_ _ _ _
          intro hk
          simp [asksSpace, hk, ho] at hs
      rw [lead_of_space hl hp hs, relaidFrom_blankToken, if_neg (by simp), hl', h.depth,
        relaidFrom_visible hv, lead_of_space rfl hp (by simp), next_of_visible hv,
        next_of_visible hv, hn]
      rfl
    | false =>
      obtain ⟨-, ho⟩ : asksSpace cursor.previous token = false ∧ cursor.owesSpace = false := by
        simpa using hs
      have hb : lead unit cursor token = [] := by
        simp only [lead, blanksBefore, hl, hp, hs]
        simp [blankToken]
      rw [hb, h.same hl ho, List.nil_append, relaidFrom_visible hv, hb]

theorem head_relaidFrom_of_owed (hl : cursor.atLineStart = false) (ho : cursor.owesSpace = true) :
    (relaidFrom unit cursor tokens).head?.any isClosing = false := by
  induction tokens generalizing cursor with
  | nil => rfl
  | cons token tokens ih =>
    by_cases hn : token.kind = .newline
    · rw [relaidFrom_newline hn]
      rfl
    by_cases hw : token.kind = .whitespace
    · rw [relaidFrom_whitespace hw, next_whitespace_of_line hw hl]
      exact ih rfl rfl
    · rw [relaidFrom_visible (isSpacing_eq_false_iff.2 ⟨hw, hn⟩)]
      by_cases hp : token.kind = .pipe
      · simp only [lead, hp, hl]
        rfl
      · rw [lead_of_space hl hp (by simp [ho])]
        rfl

theorem kind_of_isClosing (hc : isClosing token = true) : token.kind = .punctuation := by
  simp_all [isClosing, isPunctuation]

theorem lead_of_closing (hc : isClosing token = true) (hl : cursor.atLineStart = false)
    (ho : cursor.owesSpace = false) : lead unit cursor token = [] := by
  simp [lead, blankToken, blanksBefore, asksSpace, kind_of_isClosing hc, hl, ho]

theorem leavesSpace_following {p f g : Option Token}
    (h : token.kind = .operator → isJoining token.text = false →
      f.any isClosing = g.any isClosing) :
    leavesSpace p token f = leavesSpace p token g := by
  unfold leavesSpace
  split
  · rfl
  · rfl
  · rename_i hk
    cases hj : isJoining token.text with
    | true => rfl
    | false => rw [h hk hj]
  · rfl

theorem next_head_relaidFrom (hv : isSpacing token = false) :
    cursor.next token (relaidFrom unit (cursor.next token tokens.head?) tokens).head? =
      cursor.next token tokens.head? := by
  rw [next_of_visible hv, next_of_visible hv]
  congr 1
  refine leavesSpace_following ?_
  intro hk hj
  cases hc : tokens.head?.any isClosing with
  | false => exact head_relaidFrom_of_owed rfl (by simp [leavesSpace, hk, hj, hc])
  | true =>
    cases tokens with
    | nil => cases hc
    | cons mark tokens =>
      have hm : isClosing mark = true := hc
      have ho : leavesSpace cursor.previous token (some mark) = false := by
        simp [leavesSpace, hk, hj, hm]
      have hs : isSpacing mark = false := by simp [isSpacing, kind_of_isClosing hm]
      rw [relaidFrom_visible hs, lead_of_closing hm rfl ho]
      exact hm

theorem tracks_next (hv : isSpacing token = false) (following : Option Token) :
    Tracks (cursor.next token following) (cursor.next token following) where
  depth := rfl
  line := rfl
  same _ _ := rfl
  met := by
    rw [next_of_visible hv]
    intro h
    obtain hl | ho := h
    · cases hl
    · obtain ⟨kind, t⟩ := token
      cases kind <;> first | rfl | cases ho
  written := by simp [next_of_visible hv]

/-- The layout leaves its own output as it is. -/
theorem relaidFrom_relaidFrom (h : Tracks cursor second) :
    relaidFrom unit second (relaidFrom unit cursor tokens) = relaidFrom unit cursor tokens := by
  induction tokens generalizing cursor second with
  | nil => rfl
  | cons token tokens ih =>
    by_cases hn : token.kind = .newline
    · rw [relaidFrom_newline hn, relaidFrom_lineBreak, ih]
      simp only [Cursor.next, hn]
      exact ⟨h.depth, rfl, by simp, fun _ => by simp [namesField, hn], fun _ => rfl⟩
    by_cases hw : token.kind = .whitespace
    · rw [relaidFrom_whitespace hw, ih]
      simp only [Cursor.next, hw]
      exact ⟨h.depth, h.line, by simp_all, fun _ => by simp [namesField, hw], h.written⟩
    · have hv := isSpacing_eq_false_iff.2 ⟨hw, hn⟩
      rw [relaidFrom_visible hv, relaidFrom_lead hv h, next_head_relaidFrom hv,
        ih (tracks_next hv tokens.head?)]

end QueryTidy.Layout

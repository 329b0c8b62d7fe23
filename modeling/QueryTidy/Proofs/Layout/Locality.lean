import Mathlib.Data.List.Infix
import QueryTidy.Layout.Rendering
import QueryTidy.Proofs.Layout.Spacing

/-! The layout told without a cursor: what stands in front of a token depends on the gap before
it, on the two tokens before the gap and on the bracket depth. Main statement:
`render_eq_laidOut`. -/
namespace QueryTidy.Layout

/-- What the layout looks at in front of a token. -/
structure Site where
  breaks : Nat
  blanks : Bool
  previous : Option Token
  /-- The token right in front of the previous one, be it spacing or not. -/
  beforePrevious : Option Token
  depth : Nat
deriving DecidableEq, Repr

def Site.behind (before : List Token) : Site :=
  let gap := before.reverse.takeWhile isSpacing
  let solid := before.reverse.dropWhile isSpacing
  { breaks := gap.countP (·.kind = .newline)
    blanks := gap.any (·.kind = .whitespace)
    previous := solid.head?
    beforePrevious := solid.tail.head?
    depth := before.foldl depthBehind 0 }

def tightOperators : List Text := [['.', '.', '.'], [':', ':'], ['-', '>'], ['/']]

def isSpacious (token : Token) : Bool :=
  token.kind = .operator && !tightOperators.contains token.text

def isValue (token : Token) : Bool :=
  [Token.Kind.string, .regex, .identifier, .keyword, .number].contains token.kind

/-- Whether a space is made between two tokens that touch, where `before` stands in front of
both. -/
def isSetApart (before : Option Token) (previous token : Token) : Bool :=
  previous.kind = .pipe ||
    previous.isPunctuation [[',']] ||
    (previous.isPunctuation [[':']] &&
      before.any fun t => t.kind = .identifier || t.kind = .string) ||
    (isSpacious previous && !token.isPunctuation [[','], [')'], [']'], ['\x7d']]) ||
    (isSpacious token && !previous.isPunctuation [['('], ['['], ['\x7b']]) ||
    (isValue token && !previous.isPunctuation [['('], ['['], ['\x7b'], ['.'], [':']] &&
      !previous.isOperator tightOperators)

def separator (unit : Text) (site : Site) (token : Token) : Text :=
  let indent := (List.replicate (depthAt site.depth token) unit).flatten
  match site.breaks, site.previous with
  | k + 1, _ => List.replicate (k + 1) '\n' ++ indent
  | 0, none => indent
  | 0, some previous =>
    if token.kind = .pipe then '\n' :: indent
    else if site.blanks || isSetApart site.beforePrevious previous token then [' '] else []

def placed (unit : Text) (before : List Token) (token : Token) : Text :=
  if isSpacing token then [] else separator unit (.behind before) token ++ token.text

def laidOut (unit : Text) (tokens : List Token) : Text :=
  ((tokens.inits.zip tokens).flatMap fun (before, token) => placed unit before token) ++
    List.replicate (Site.behind tokens).breaks '\n'

variable {before : List Token} {token : Token}

theorem behind_newline (h : token.kind = .newline) :
    Site.behind (before ++ [token]) =
      { Site.behind before with breaks := (Site.behind before).breaks + 1 } := by
  have hs : isSpacing token = true := by simp [isSpacing, h]
  simp [Site.behind, hs, h, depthBehind, depthAt, Token.isPunctuation]

theorem behind_whitespace (h : token.kind = .whitespace) :
    Site.behind (before ++ [token]) = { Site.behind before with blanks := true } := by
  have hs : isSpacing token = true := by simp [isSpacing, h]
  simp [Site.behind, hs, h, depthBehind, depthAt, Token.isPunctuation]

theorem behind_visible (h : isSpacing token = false) :
    Site.behind (before ++ [token]) =
      ⟨0, false, some token, before.getLast?, depthBehind (Site.behind before).depth token⟩ := by
  simp [Site.behind, h]

/-- The pass looks at nothing but the site: its cursor behind the given tokens. -/
def cursorBehind (before : List Token) (following : Option Token) : Cursor :=
  let site := Site.behind before
  let atLineStart := 0 < site.breaks || site.previous.isNone
  { depth := site.depth
    atLineStart := atLineStart
    owesSpace := !atLineStart &&
      (site.blanks || site.previous.any (leavesSpace site.beforePrevious · following))
    previous := before.getLast? }

theorem next_cursorBehind (before : List Token) (token : Token) (following : Option Token) :
    (cursorBehind before (some token)).next token following =
      cursorBehind (before ++ [token]) following := by
  cases h : isSpacing token with
  | false =>
    rw [next_of_visible h]
    simp [cursorBehind, behind_visible h]
  | true =>
    simp only [isSpacing, Bool.or_eq_true, decide_eq_true_eq] at h
    obtain h | h := h
    · have hb : Site.behind (before ++ [token]) = _ := behind_whitespace h
      have hc (p q : Bool) : (!p && q || !p) = !p := by cases p <;> cases q <;> rfl
      simp only [cursorBehind, hb, Cursor.next, h, hc, Bool.true_or, Bool.and_true,
        List.getLast?_concat]
    · have hb : Site.behind (before ++ [token]) = _ := behind_newline h
      simp [cursorBehind, hb, Cursor.next, h]

theorem getLast_of_no_gap (hk : (Site.behind before).breaks = 0)
    (hb : (Site.behind before).blanks = false) :
    before.getLast? = (Site.behind before).previous := by
  simp only [Site.behind] at *
  rw [List.getLast?_eq_head?_reverse]
  cases hr : before.reverse with
  | nil => rfl
  | cons token rest =>
    rw [hr] at hk hb
    cases hs : isSpacing token with
    | false => simp [hs]
    | true =>
      simp only [isSpacing, Bool.or_eq_true, decide_eq_true_eq] at hs
      obtain hs | hs := hs <;> simp [isSpacing, hs] at hk hb

theorem isSpacing_of_previous {previous : Token}
    (h : (Site.behind before).previous = some previous) : isSpacing previous = false := by
  have hd := List.head?_dropWhile_not isSpacing before.reverse
  simp only [Site.behind] at h
  simpa [h] using hd

theorem isJoining_iff {t : Text} : isJoining t = true ↔ t ∈ tightOperators := by
  simp [tightOperators, isJoining, joiners, or_assoc]

theorem isSpacious_iff :
    isSpacious token = true ↔ token.kind = .operator ∧ isJoining token.text = false := by
  rw [← Bool.not_eq_true, isJoining_iff]
  simp [isSpacious]

theorem asksSpace_iff {previous : Token} :
    asksSpace (some previous) token = true ↔
      (isSpacious token = true ∧ previous.isPunctuation Token.openers = false) ∨
        (isValue token = true ∧ setsOffValue (some previous) = true) := by
  rw [isSpacious_iff]
  obtain ⟨kind, t⟩ := token
  cases kind <;> simp [asksSpace, isValue]

theorem leavesSpace_iff {before : Option Token} {previous : Token} :
    leavesSpace before previous (some token) = true ↔
      previous.kind = .pipe ∨ previous.isPunctuation [[',']] = true ∨
        (previous.isPunctuation [[':']] = true ∧ before.any namesField = true) ∨
        (isSpacious previous = true ∧ isClosing token = false) := by
  rw [isSpacious_iff]
  obtain ⟨kind, t⟩ := previous
  cases kind <;> simp [leavesSpace, Token.isPunctuation]

theorem setsOffValue_iff {previous : Token} (h : isSpacing previous = false) :
    setsOffValue (some previous) = true ↔
      previous.kind ≠ .pipe ∧
        previous.isPunctuation [['('], ['['], ['\x7b'], ['.'], [':']] = false ∧
        previous.isOperator tightOperators = false := by
  have hj (t : Text) : isJoining t = false ↔ t ∉ tightOperators := by
    rw [← Bool.not_eq_true, isJoining_iff]
  obtain ⟨kind, t⟩ := previous
  cases kind <;>
    simp_all [setsOffValue, isSpacing, Token.isPunctuation, Token.isOperator, isAttaching,
      Token.openers, and_assoc]

theorem isSetApart_iff {before : Option Token} {previous : Token}
    (h : isSpacing previous = false) :
    isSetApart before previous token = true ↔
      asksSpace (some previous) token = true ∨ leavesSpace before previous (some token) = true := by
  have ho : previous.isPunctuation Token.openers =
      previous.isPunctuation [['('], ['['], ['\x7b']] := rfl
  have hc : isClosing token = token.isPunctuation [[','], [')'], [']'], ['\x7d']] := rfl
  have hf : before.any namesField = before.any fun t => t.kind = .identifier || t.kind = .string :=
    rfl
  rw [asksSpace_iff, leavesSpace_iff, setsOffValue_iff h, ho, hc, hf]
  simp only [isSetApart, Bool.or_eq_true, Bool.and_eq_true, Bool.not_eq_true', decide_eq_true_eq]
  by_cases hp : previous.kind = .pipe
  · simp [hp]
  · grind

theorem separator_eq (unit : Text) (before : List Token) (token : Token) :
    separator unit (.behind before) token =
      List.replicate (Site.behind before).breaks '\n' ++
        (lead unit (cursorBehind before (some token)) token).flatMap Token.text := by
  rw [flatMap_text_lead]
  unfold separator
  split
  · rename_i k previous hk
    simp [cursorBehind, hk, blanksBefore]
  · rename_i hk hp
    simp [cursorBehind, hk, hp, blanksBefore]
  · rename_i previous hk hp
    by_cases hpipe : token.kind = .pipe
    · simp [cursorBehind, hk, hp, blanksBefore, hpipe]
    cases hb : (Site.behind before).blanks with
    | true => simp [cursorBehind, hk, hp, blanksBefore, hpipe, hb]
    | false =>
      have hl : before.getLast? = some previous := (getLast_of_no_gap hk hb).trans hp
      have hs : isSetApart (Site.behind before).beforePrevious previous token = true ↔ _ :=
        isSetApart_iff (isSpacing_of_previous hp)
      simp [cursorBehind, hk, hp, blanksBefore, hpipe, hb, hl, hs]

/-- One step of the pass. The breaks of a gap are written as they are met: what is out before the
token and what is written for it is the token in its place and the breaks behind it. -/
theorem breaks_append_relay (unit : Text) (before : List Token) (token : Token) :
    List.replicate (Site.behind before).breaks '\n' ++
        (relay unit (cursorBehind before (some token)) token).flatMap Token.text =
      placed unit before token ++
        List.replicate (Site.behind (before ++ [token])).breaks '\n' := by
  cases h : isSpacing token with
  | false =>
    rw [relay_of_visible h, behind_visible h, placed, h, separator_eq]
    simp
  | true =>
    have hp : placed unit before token = [] := if_pos h
    simp only [isSpacing, Bool.or_eq_true, decide_eq_true_eq] at h
    obtain h | h := h
    · rw [hp, behind_whitespace h]
      simp [relay, h]
    · rw [hp, behind_newline h]
      simp [relay, h, lineBreak, List.replicate_succ']

theorem inits_zip_cons (token : Token) (tokens : List Token) :
    (token :: tokens).inits.zip (token :: tokens) =
      ([], token) :: (tokens.inits.zip tokens).map (Prod.map (token :: ·) id) := by
  rw [List.inits_cons, List.zip_cons_cons, List.zip_map_left]

theorem layoutFrom_cursorBehind (unit : Text) (before tokens : List Token) :
    List.replicate (Site.behind before).breaks '\n' ++
        layoutFrom unit (cursorBehind before tokens.head?) tokens =
      ((tokens.inits.zip tokens).flatMap fun (between, token) =>
          placed unit (before ++ between) token) ++
        List.replicate (Site.behind (before ++ tokens)).breaks '\n' := by
  induction tokens generalizing before with
  | nil => simp [layoutFrom]
  | cons token tokens ih =>
    have hs := breaks_append_relay unit before token
    have hi := ih (before ++ [token])
    rw [layoutFrom_cons, List.head?_cons, next_cursorBehind, ← List.append_assoc, hs,
      List.append_assoc, hi, inits_zip_cons, List.flatMap_cons, List.flatMap_map]
    simp

/-- Without tidying of line ends, the output is each token that is no spacing, in order, with a
separator that is read off its site, and the line breaks at the end. -/
theorem render_eq_laidOut (options : Options) (tokens : List Token) :
    render { options with
      trimTrailingWhitespace := false
      insertFinalNewline := false
      trimFinalNewlines := false } tokens = laidOut options.indent tokens := by
  have h := layoutFrom_cursorBehind options.indent [] tokens
  have hc : cursorBehind [] tokens.head? = {} := rfl
  have hb : (Site.behind []).breaks = 0 := rfl
  rw [hc, hb] at h
  simp only [List.nil_append, List.replicate_zero] at h
  exact h

example : laidOut [' ', ' '] [⟨.identifier, ['a']⟩, ⟨.punctuation, ['(']⟩, ⟨.pipe, ['|']⟩,
    ⟨.identifier, ['b']⟩, ⟨.operator, ['=']⟩, ⟨.punctuation, [')']⟩, ⟨.newline, ['\n']⟩] =
    "a(\n  | b =)\n".toList := by decide

end QueryTidy.Layout

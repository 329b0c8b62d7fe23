import QueryTidy.Token.Basic
import QueryTidy.Token.Keyword

/-! The token at the head of a text. Reading it splits the text and loses nothing:
`lexeme_append`. -/
namespace QueryTidy.Token

def isBlank (c : Char) : Bool := c == ' ' || c == '\t' || c == '\r'
def isDigit (c : Char) : Bool := '0' ≤ c && c ≤ '9'
def isLetter (c : Char) : Bool := ('a' ≤ c && c ≤ 'z') || ('A' ≤ c && c ≤ 'Z')
def isHexDigit (c : Char) : Bool :=
  isDigit c || ('a' ≤ c && c ≤ 'f') || ('A' ≤ c && c ≤ 'F')
def isWordChar (c : Char) : Bool := isLetter c || isDigit c || c == '_'
def isQuote (c : Char) : Bool := c == '\x22' || c == '\x27'

/-- A text split in two: what was read, and what is left. -/
structure Split where
  taken : Text
  rest : Text
deriving DecidableEq, Repr

namespace Split

def after (read : Text) (s : Split) : Split := ⟨read ++ s.taken, s.rest⟩

def run (p : Char → Bool) (t : Text) : Split := ⟨t.takeWhile p, t.dropWhile p⟩

def first (n : Nat) (t : Text) : Split := ⟨t.take n, t.drop n⟩

def andThen (s : Split) (next : Text → Split) : Split := (next s.rest).after s.taken

def whole (s : Split) : Text := s.taken ++ s.rest

@[simp]
theorem whole_mk (taken rest : Text) : whole ⟨taken, rest⟩ = taken ++ rest := rfl

@[simp]
theorem whole_after (read : Text) (s : Split) : (s.after read).whole = read ++ s.whole := by
  simp [after, whole]

@[simp]
theorem whole_run (p : Char → Bool) (t : Text) : (run p t).whole = t :=
  List.takeWhile_append_dropWhile

@[simp]
theorem whole_first (n : Nat) (t : Text) : (first n t).whole = t := List.take_append_drop n t

theorem whole_andThen (s : Split) (next : Text → Split) (h : ∀ t, (next t).whole = t) :
    (s.andThen next).whole = s.whole := by
  rw [andThen, whole_after, h, whole]

end Split

def blockTail : Text → Split
  | [] => ⟨[], []⟩
  | c :: t =>
    if c = '*' ∧ t.head? = some '/' then (Split.first 1 t).after [c]
    else (blockTail t).after [c]

/-- Rest of a string, through its closing quote if there is one. A backslash takes the next
character with it. -/
def quotedTail (quote : Char) : Text → Split
  | [] => ⟨[], []⟩
  | [c] => ⟨[c], []⟩
  | c :: d :: t =>
    if c = quote then ⟨[c], d :: t⟩
    else if c = '\\' then (quotedTail quote t).after [c, d]
    else (quotedTail quote (d :: t)).after [c]

/-- Rest of a regular expression through its closing slash, which has to stand on the same line. -/
def regexTail? : Text → Option Split
  | [] => none
  | [c] => if c = '/' then some ⟨[c], []⟩ else none
  | c :: d :: t =>
    if c = '/' then some ⟨[c], d :: t⟩
    else if c = '\n' then none
    else if c = '\\' then if d = '\n' then none else (regexTail? t).map (·.after [c, d])
    else (regexTail? (d :: t)).map (·.after [c])

def exponent (t : Text) : Split :=
  match t with
  | e :: u =>
    if e = 'e' ∨ e = 'E' then
      match u with
      | s :: v =>
        if s = '+' ∨ s = '-' then (Split.run isDigit v).after [e, s]
        else (Split.run isDigit u).after [e]
      | [] => ⟨[e], []⟩
    else ⟨[], t⟩
  | [] => ⟨[], []⟩

def numberTail (c : Char) (t : Text) : Split :=
  let digits := match t with
    | x :: u =>
      if c = '0' ∧ (x = 'x' ∨ x = 'X') then (Split.run isHexDigit u).after [x]
      else ((Split.run fun d => isDigit d || d == '.') t).andThen exponent
    | [] => ⟨[], []⟩
  digits.andThen (Split.run isLetter)

def backtickTail (t : Text) : Split :=
  (Split.run (· != '\x60') t).andThen (Split.first 1)

def doubleOperators : List Text :=
  [[':', '='], [':', ':'], ['-', '>'], ['=', '>'], ['=', '='], ['!', '='], ['<', '>'], ['<', '='],
   ['>', '='], ['!', '~']]
def singleOperators : List Char := ['+', '-', '*', '/', '%', '<', '>', '=', '!', '~']

def symbol (c : Char) (t : Text) : Kind × Split :=
  if c = '|' then
    if t.head? = some '>' then (.pipe, Split.first 1 t)
    else if t.head? = some '|' then (.operator, Split.first 1 t)
    else (.pipe, ⟨[], t⟩)
  else if c = '.' ∧ t.take 2 = ['.', '.'] then (.operator, Split.first 2 t)
  else if c :: t.take 1 ∈ doubleOperators then (.operator, Split.first 1 t)
  else if c ∈ singleOperators then (.operator, ⟨[], t⟩)
  else (.punctuation, ⟨[], t⟩)

def word (c : Char) (t : Text) : Kind × Split :=
  let s := Split.run isWordChar t
  (if isKeyword (c :: s.taken) then .keyword else .identifier, s)

/-- Kind of the token that starts with `c`, with its remaining characters and what follows it.
A slash opens a regular expression only where `regexAllowed` and only if it is closed. -/
def lexeme (regexAllowed : Bool) (c : Char) (t : Text) : Kind × Split :=
  if c = '\n' then (.newline, ⟨[], t⟩)
  else if isBlank c then (.whitespace, Split.run isBlank t)
  else if c = '-' ∧ t.head? = some '-' then (.lineComment, Split.run (· != '\n') t)
  else if c = '/' ∧ t.head? = some '*' then (.blockComment, (Split.first 1 t).andThen blockTail)
  else if isQuote c then (.string, quotedTail c t)
  else match t with
    | q :: u =>
      if (c = 'f' ∨ c = 'r') ∧ isQuote q then (.string, (quotedTail q u).after [q])
      else plain t
    | [] => plain t
where
  plain (t : Text) : Kind × Split :=
    match if c = '/' ∧ regexAllowed then regexTail? t else none with
    | some s => (.regex, s)
    | none =>
      if isDigit c then (.number, numberTail c t)
      else if isLetter c || c == '_' then word c t
      else if c = '\x60' then (.identifier, backtickTail t)
      else symbol c t

theorem whole_blockTail (t : Text) : (blockTail t).whole = t := by
  induction t with
  | nil => rfl
  | cons c t ih =>
    rw [blockTail]
    split
    · simp
    · simp [ih]

theorem whole_quotedTail (quote : Char) (t : Text) : (quotedTail quote t).whole = t := by
  fun_induction quotedTail quote t <;> simp_all [Split.whole, Split.after]

theorem whole_regexTail? {t : Text} {s : Split} (h : regexTail? t = some s) : s.whole = t := by
  fun_induction regexTail? t generalizing s <;>
    simp_all [Split.whole, Split.after, Option.map_eq_some_iff] <;> grind

theorem whole_exponent (t : Text) : (exponent t).whole = t := by
  unfold exponent
  repeat' split
  all_goals simp

theorem whole_numberTail (c : Char) (t : Text) : (numberTail c t).whole = t := by
  unfold numberTail
  rw [Split.whole_andThen _ _ (Split.whole_run _)]
  split
  · split
    · simp
    · rw [Split.whole_andThen _ _ whole_exponent, Split.whole_run]
  · rfl

theorem whole_backtickTail (t : Text) : (backtickTail t).whole = t := by
  rw [backtickTail, Split.whole_andThen _ _ (Split.whole_first 1), Split.whole_run]

theorem whole_symbol (c : Char) (t : Text) : (symbol c t).2.whole = t := by
  rw [symbol]
  repeat' split
  all_goals first | exact Split.whole_first _ t | rfl

theorem whole_plain (regexAllowed : Bool) (c : Char) (t : Text) :
    (lexeme.plain regexAllowed c t).2.whole = t := by
  rw [lexeme.plain]
  split
  · rename_i s h
    split at h
    · exact whole_regexTail? h
    · cases h
  · repeat' split
    · exact whole_numberTail c t
    · simp [word]
    · exact whole_backtickTail t
    · exact whole_symbol c t

theorem lexeme_append (regexAllowed : Bool) (c : Char) (t : Text) :
    (lexeme regexAllowed c t).2.taken ++ (lexeme regexAllowed c t).2.rest = t := by
  change (lexeme regexAllowed c t).2.whole = t
  unfold lexeme
  repeat' split
  all_goals simp [whole_quotedTail, whole_plain, Split.whole_andThen _ _ whole_blockTail]

end QueryTidy.Token

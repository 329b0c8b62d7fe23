import QueryTidy.Token.Lexeme

/-! Cutting a text into tokens. Every text is cut, and the token texts give it back:
`flatMap_text_lexFrom`. -/
namespace QueryTidy
namespace Token

def allowsRegex : Option Token → Bool
  | none => true
  | some token =>
    match token.kind with
    | .whitespace | .newline | .pipe | .operator | .keyword => true
    | .punctuation => [['('], ['['], [','], [':']].contains token.text
    | _ => false

def first (previous : Option Token) (c : Char) (t : Text) : Token :=
  let (kind, s) := lexeme (allowsRegex previous) c t
  ⟨kind, c :: s.taken⟩

def afterFirst (previous : Option Token) (c : Char) (t : Text) : Text :=
  (lexeme (allowsRegex previous) c t).2.rest

theorem first_append_afterFirst (previous : Option Token) (c : Char) (t : Text) :
    (first previous c t).text ++ afterFirst previous c t = c :: t :=
  congrArg (c :: ·) (lexeme_append (allowsRegex previous) c t)

theorem length_afterFirst_le (previous : Option Token) (c : Char) (t : Text) :
    (afterFirst previous c t).length ≤ t.length := by
  have h := congrArg List.length (lexeme_append (allowsRegex previous) c t)
  rw [List.length_append] at h
  rw [afterFirst]
  omega

def lexFrom (previous : Option Token) : Text → List Token
  | [] => []
  | c :: t =>
    let token := first previous c t
    token :: lexFrom (some token) (afterFirst previous c t)
termination_by t => t.length
decreasing_by exact Nat.lt_succ_of_le (length_afterFirst_le previous c t)

theorem flatMap_text_lexFrom (previous : Option Token) (t : Text) :
    (lexFrom previous t).flatMap text = t := by
  fun_induction lexFrom previous t with
  | case1 => rfl
  | case2 previous c t token ih =>
    rw [List.flatMap_cons, ih]
    exact first_append_afterFirst previous c t

end Token

def tokenize (t : Text) : List Token := Token.lexFrom none t

end QueryTidy

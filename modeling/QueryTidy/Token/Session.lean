import QueryTidy.Token.Lexer

/-! Reading a source token by token, with a way back. -/
namespace QueryTidy.Token

structure Mark where
  position : Nat
  start : Nat
deriving DecidableEq, Repr

/-- A reading in progress: `position` is where the next token starts, `start` where the last
one did, and `previous` is that last token. -/
structure Session where
  source : Text
  position : Nat
  start : Nat
  previous : Option Token
deriving DecidableEq, Repr

namespace Session

def ofSource (source : Text) : Session := ⟨source, 0, 0, none⟩

def atEnd (s : Session) : Bool := s.source.length ≤ s.position

def mark (s : Session) : Mark := ⟨s.position, s.start⟩

/-- Goes back to a mark. The previous token stays what it is. -/
def returnTo (s : Session) (mark : Mark) : Session :=
  { s with position := mark.position, start := mark.start }

def next (s : Session) : Option Token × Session :=
  match s.source.drop s.position with
  | [] => (none, s)
  | c :: t =>
    let token := first s.previous c t
    (some token, ⟨s.source, s.position + token.text.length, s.position, some token⟩)

theorem next_advances {s : Session} {token : Token} (h : s.next.1 = some token) :
    s.next.2.source = s.source ∧ s.position < s.next.2.position
      ∧ s.position < s.source.length := by
  unfold next at h ⊢
  cases hd : s.source.drop s.position with
  | nil => simp [hd] at h
  | cons c t =>
    have hl := congrArg List.length hd
    simp [first] at hl ⊢
    omega

def rest (s : Session) : List Token × Session :=
  match _h : s.next.1 with
  | none => ([], s)
  | some token =>
    let (tokens, s') := rest s.next.2
    (token :: tokens, s')
termination_by s.source.length - s.position
decreasing_by
  obtain ⟨same, _, _⟩ := next_advances _h
  rw [same]
  omega

end Session
end QueryTidy.Token

/-! Texts as sequences of code points, measured in UTF-8 bytes and cut into lines. -/
namespace QueryTidy

/-- A document, or a piece of one. Only `'\n'` ends a line in it. -/
abbrev Text := List Char

namespace Text

def utf8Size : Text → Nat
  | [] => 0
  | c :: t => c.utf8Size + utf8Size t

@[simp]
theorem utf8Size_nil : utf8Size [] = 0 := rfl

@[simp]
theorem utf8Size_cons (c : Char) (t : Text) : utf8Size (c :: t) = c.utf8Size + utf8Size t := rfl

@[simp]
theorem utf8Size_append (s t : Text) : utf8Size (s ++ t) = utf8Size s + utf8Size t := by
  induction s with
  | nil => simp
  | cons c s ih => simp [ih, Nat.add_assoc]

/-- The lines, without their ends; the empty text has one empty line. -/
def lines : Text → List Text
  | [] => [[]]
  | c :: t => if c = '\n' then [] :: lines t else (lines t).modifyHead (c :: ·)

def unlines : List Text → Text
  | [] => []
  | [l] => l
  | l :: m :: ls => l ++ '\n' :: unlines (m :: ls)

def occursIn (needle : Text) : Text → Bool
  | [] => needle.isEmpty
  | c :: t => needle.isPrefixOf (c :: t) || occursIn needle t

def trimEnd (p : Char → Bool) (t : Text) : Text := (t.reverse.dropWhile p).reverse

theorem lines_ne_nil (t : Text) : lines t ≠ [] := by
  induction t with
  | nil => simp [lines]
  | cons c t ih =>
    rw [lines]
    split
    · simp
    · cases h : lines t with
      | nil => exact absurd h ih
      | cons l ls => simp

end Text
end QueryTidy

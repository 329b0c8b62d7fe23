import QueryTidy.Diagnostic
import QueryTidy.Proofs.Place.Splicing

/-! Places moved down by some lines, as they are when text is put in front of a document. Main
statements: `lines_append_break`, `Spliced.append_break`. -/
namespace QueryTidy

namespace Position

def down (n : Nat) (p : Position) : Position := ⟨p.line + n, p.column⟩

variable {n : Nat} {p q : Position}

@[simp]
theorem down_lt_iff : p.down n < q.down n ↔ p < q := by
  simp only [lt_def, down]
  omega

@[simp]
theorem down_le_iff : p.down n ≤ q.down n ↔ p ≤ q := by
  simp only [le_def, down]
  omega

@[simp]
theorem down_inj : p.down n = q.down n ↔ p = q := by
  simp only [eq_iff, down]
  omega

theorem after_down (n : Nat) (p : Position) (t : Text) :
    (p.down n).after t = (p.after t).down n := by
  induction t generalizing p with
  | nil => rfl
  | cons c t ih =>
    have hs : (p.down n).step c = (p.step c).down n := by
      unfold step
      split
      · simp only [down]
        congr 1
        omega
      · rfl
    change ((p.down n).step c).after t = _
    rw [hs, ih]
    rfl

theorem endOf_append_break (t : Text) : endOf (t ++ ['\n']) = origin.down t.lines.length := by
  have h : endOf (t ++ ['\n']) = ((endOf t).after ['\n']) := after_append _ _ _
  have hl : (endOf t).line = 0 + t.count '\n' := line_after origin t
  rw [h, Text.length_lines]
  change (⟨(endOf t).line + 1, 0⟩ : Position) = ⟨_, _⟩
  simp only [hl, origin]
  congr 1

end Position

def Range.down (n : Nat) (r : Range) : Range :=
  ⟨r.start.down n, r.stop.down n, Position.down_le_iff.2 r.ordered⟩

def Edit.down (n : Nat) (edit : Edit) : Edit := { edit with range := edit.range.down n }

def Diagnostic.down (n : Nat) (d : Diagnostic) : Diagnostic := { d with range := d.range.down n }

theorem Range.eq_iff {r s : Range} : r = s ↔ r.start = s.start ∧ r.stop = s.stop := by
  obtain ⟨a, b, _⟩ := r
  obtain ⟨c, d, _⟩ := s
  simp

theorem Text.lines_append_break (a b : Text) : (a ++ '\n' :: b).lines = a.lines ++ b.lines := by
  induction a with
  | nil => simp [lines]
  | cons c a ih =>
    obtain ⟨l, ls, hl⟩ := List.exists_cons_of_ne_nil (lines_ne_nil a)
    rw [List.cons_append, lines, lines, ih, hl]
    split
    · rfl
    · rfl

namespace Edit

variable {p : Position} {a b r s t : Text} {edits more : List Edit}

theorem Spliced.append (h : Spliced p a edits s) (k : Spliced (p.after a) b more r) :
    Spliced p (a ++ b) (edits ++ more) (s ++ r) := by
  induction h with
  | @done p a =>
    cases k with
    | done => exact .done
    | @replace _ kept old rest edit edits' r' hk ho hr =>
      have hk' : p.after (a ++ kept) = edit.range.start := by rw [Position.after_append, hk]
      simpa using Spliced.replace hk' ho hr
  | @replace p kept old rest edit edits r' hk ho hr ih =>
    have hb : edit.range.stop.after rest = p.after (kept ++ (old ++ rest)) := by
      rw [Position.after_append, Position.after_append, hk, ho]
    have hi := ih (hb ▸ k)
    simpa using Spliced.replace hk ho hi

theorem Spliced.down (n : Nat) (h : Spliced p t edits r) :
    Spliced (p.down n) t (edits.map (Edit.down n)) r := by
  induction h with
  | done => exact .done
  | @replace p kept old rest edit edits r hk ho hr ih =>
    have hk' : (p.down n).after kept = (edit.down n).range.start := by
      rw [Position.after_down, hk]
      rfl
    have ho' : (edit.down n).range.start.after old = (edit.down n).range.stop := by
      change (edit.range.start.down n).after old = edit.range.stop.down n
      rw [Position.after_down, ho]
    exact .replace hk' ho' ih

/-- Edits of two documents, one behind the other with a line break between them. -/
theorem Spliced.append_break (h : Spliced .origin a edits s) (k : Spliced .origin b more r) :
    Spliced .origin (a ++ '\n' :: b) (edits ++ more.map (Edit.down a.lines.length))
      (s ++ '\n' :: r) := by
  have hd := k.down a.lines.length
  rw [← Position.endOf_append_break, Position.endOf, Position.after_append] at hd
  have hb : Spliced (Position.origin.after a) ['\n'] [] ['\n'] := .done
  exact h.append (hb.append hd)

end Edit
end QueryTidy

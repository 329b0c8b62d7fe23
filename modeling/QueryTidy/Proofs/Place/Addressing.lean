import QueryTidy.Proofs.Place.Resolution

/-! Which positions address a place in a text, and what an edit between two of them replaces. Main
statement: `apply_addressed`. -/
namespace QueryTidy

theorem Text.boundary_or_inside {line : Text} {n : Nat} (h : n ≤ line.utf8Size) :
    (∃ u v, line = u ++ v ∧ u.utf8Size = n) ∨
      ∃ (u : Text) (c : Char) (v : Text),
        line = u ++ c :: v ∧ u.utf8Size < n ∧ n < u.utf8Size + c.utf8Size := by
  induction line generalizing n with
  | nil =>
    left
    exact ⟨[], [], rfl, (Nat.le_zero.1 h).symm⟩
  | cons d line ih =>
    rw [utf8Size_cons] at h
    by_cases h0 : n = 0
    · left
      exact ⟨[], d :: line, rfl, h0.symm⟩
    by_cases hd : n < d.utf8Size
    · right
      refine ⟨[], d, line, rfl, ?_, ?_⟩
      · exact Nat.pos_of_ne_zero h0
      · simpa using hd
    · have hn : n - d.utf8Size ≤ utf8Size line := by omega
      rcases ih hn with ⟨u, v, rfl, hu⟩ | ⟨u, c, v, rfl, h1, h2⟩
      · left
        refine ⟨d :: u, v, rfl, ?_⟩
        rw [utf8Size_cons]
        omega
      · right
        refine ⟨d :: u, c, v, rfl, ?_, ?_⟩
        · rw [utf8Size_cons]
          omega
        · rw [utf8Size_cons]
          omega

theorem Text.not_inside {u v a b : Text} {c : Char} (h : u ++ v = a ++ c :: b)
    (ha : a.utf8Size < u.utf8Size) : a.utf8Size + c.utf8Size ≤ u.utf8Size := by
  rcases List.append_eq_append_iff.1 h with ⟨m, rfl, -⟩ | ⟨m, rfl, hm⟩
  · rw [utf8Size_append] at ha
    omega
  · cases m with
    | nil => simp at ha
    | cons d m =>
      obtain ⟨rfl, -⟩ := List.cons.inj hm
      rw [utf8Size_append, utf8Size_cons]
      omega

namespace Edit
open Position

variable {t : Text} {p : Position}

/-- Why a position addresses no place in a text. -/
inductive Misplaced (t : Text) (p : Position) : Prop
  | pastLastLine : t.lines.length ≤ p.line → Misplaced t p
  | pastLineEnd {line} : t.lines[p.line]? = some line → line.utf8Size < p.column → Misplaced t p
  | insideCharacter {a b : Text} {c : Char} : t.lines[p.line]? = some (a ++ c :: b) →
      a.utf8Size < p.column → p.column < a.utf8Size + c.utf8Size → Misplaced t p

theorem not_resolves_iff : ¬ Resolves t p ↔ Misplaced t p := by
  constructor
  · intro h
    cases hl : t.lines[p.line]? with
    | none => exact .pastLastLine (List.getElem?_eq_none_iff.1 hl)
    | some line =>
      by_cases hp : line.utf8Size < p.column
      · exact .pastLineEnd hl hp
      · rcases Text.boundary_or_inside (Nat.le_of_not_lt hp) with hu | ⟨a, c, b, rfl, h1, h2⟩
        · exact absurd ⟨line, hl, hu⟩ h
        · exact .insideCharacter hl h1 h2
  · rintro hm ⟨line, hl, u, v, rfl, hu⟩
    cases hm with
    | pastLastLine hp =>
      rw [List.getElem?_eq_none hp] at hl
      cases hl
    | pastLineEnd hl' hp =>
      obtain rfl := Option.some.inj (hl.symm.trans hl')
      rw [Text.utf8Size_append] at hp
      omega
    | insideCharacter hl' h1 h2 =>
      have he := Option.some.inj (hl.symm.trans hl')
      have hn := Text.not_inside he (by omega)
      omega

theorem exists_apply_iff {edit : Edit} :
    (∃ r, edit.apply t = .ok r) ↔ Resolves t edit.range.start ∧ Resolves t edit.range.stop := by
  simp only [resolves_iff, apply_eq_ok_iff]
  constructor
  · rintro ⟨r, a, b, c, rfl, ha, hb, -⟩
    exact ⟨⟨a, b ++ c, rfl, ha⟩, ⟨a ++ b, c, by simp, hb⟩⟩
  · rintro ⟨⟨a, x, rfl, ha⟩, ⟨v, c, hv, hb⟩⟩
    have ho := edit.range.ordered
    rw [← ha, ← hb] at ho
    obtain ⟨b, rfl, rfl⟩ := prefix_of_after_le hv ho
    exact ⟨_, a, b, c, rfl, ha, hb, rfl⟩

theorem exists_prefix_iff : (∃ u, u <+: t ∧ endOf u = p) ↔ Resolves t p := by
  rw [resolves_iff]
  constructor
  · rintro ⟨u, ⟨v, rfl⟩, hu⟩
    exact ⟨u, v, rfl, hu⟩
  · rintro ⟨u, v, rfl, hu⟩
    exact ⟨u, ⟨v, rfl⟩, hu⟩

/-- An edit between the ends of two prefixes replaces what stands between them. Every other edit
is refused, as one of its ends is past the last line, past the end of its line, or inside of a
character. -/
theorem apply_addressed :
    (∀ a b c new : Text, ∃ range, Range.between (endOf a) (endOf (a ++ b)) = .ok range ∧
      Edit.apply ⟨range, new⟩ (a ++ b ++ c) = .ok (a ++ new ++ c)) ∧
      ∀ (t : Text) (edit : Edit),
        ((∃ fault, edit.apply t = .error fault) ↔
          (¬ ∃ u, u <+: t ∧ endOf u = edit.range.start) ∨
            ¬ ∃ u, u <+: t ∧ endOf u = edit.range.stop) ∧
          ∀ p, (¬ ∃ u, u <+: t ∧ endOf u = p) ↔ Misplaced t p := by
  constructor
  · intro a b c new
    have ho : endOf a ≤ endOf (a ++ b) := by
      rw [endOf, endOf, after_append]
      exact le_after _ b
    refine ⟨⟨endOf a, endOf (a ++ b), ho⟩, dif_pos ho, ?_⟩
    apply apply_eq_ok_iff.2
    exact ⟨a, b, c, by simp, rfl, rfl, by simp⟩
  · intro t edit
    simp only [exists_prefix_iff]
    refine ⟨?_, fun p => not_resolves_iff⟩
    rw [← Classical.not_and_iff_not_or_not, ← exists_apply_iff]
    cases edit.apply t <;> simp

end Edit
end QueryTidy

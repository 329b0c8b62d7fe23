import Mathlib.Data.List.Forall2
import Mathlib.Data.List.TakeWhile
import QueryTidy.Proofs.Layout.LineEnds
import QueryTidy.Proofs.Place.Lowering

/-! What tidying line ends makes of the lines of a text: each line is trimmed at its end, empty lines
are dropped at the end of the text, and at most one line break is added. Main statements:
`lines_tidyEnds`, `tidied_render`. -/
namespace QueryTidy

namespace Text

theorem lines_of_no_break {l : Text} (h : '\n' ∉ l) : l.lines = [l] := by
  induction l with
  | nil => rfl
  | cons c l ih =>
    obtain ⟨hc, hl⟩ : '\n' ≠ c ∧ '\n' ∉ l := by simpa using h
    rw [lines, if_neg hc.symm, ih hl]
    rfl

theorem lines_unlines {ls : List Text} (h : ls ≠ []) (hl : ∀ l ∈ ls, '\n' ∉ l) :
    (unlines ls).lines = ls := by
  fun_induction unlines ls with
  | case1 => exact absurd rfl h
  | case2 l => exact lines_of_no_break (hl l (by simp))
  | case3 l m ls ih =>
    rw [lines_append_break, lines_of_no_break (hl l (by simp)), ih (by simp), List.singleton_append]
    intro k hk
    exact hl k (List.mem_cons_of_mem l hk)

theorem exists_trimEnd_append (p : Char → Bool) (t : Text) :
    ∃ run, t = trimEnd p t ++ run ∧ ∀ c ∈ run, p c := by
  refine ⟨(t.reverse.takeWhile p).reverse, ?_, ?_⟩
  · rw [trimEnd, ← List.reverse_append, List.takeWhile_append_dropWhile, List.reverse_reverse]
  · intro c hc
    exact List.mem_takeWhile_imp (List.mem_reverse.1 hc)

theorem getLast_trimEnd (p : Char → Bool) (t : Text) : (trimEnd p t).getLast?.all (!p ·) := by
  rw [trimEnd, List.getLast?_reverse]
  have h := List.head?_dropWhile_not p t.reverse
  cases hc : (t.reverse.dropWhile p).head? with
  | none => rfl
  | some c => simpa [hc] using h

end Text

namespace Layout
open Token

variable {options : Options} {t : Text}

def trimmedLine (trim : Bool) (l : Text) : Text := if trim then Text.trimEnd isBlank l else l

theorem lines_trimLines (t : Text) : (trimLines t).lines = t.lines.map (trimmedLine true) := by
  refine Text.lines_unlines ?_ ?_
  · simpa using Text.lines_ne_nil t
  · intro l hl
    obtain ⟨m, hm, rfl⟩ := List.mem_map.1 hl
    exact fun hn => break_not_mem_lines hm (mem_of_mem_trimEnd hn)

theorem lines_trimmed (trim : Bool) (t : Text) :
    (if trim then trimLines t else t).lines = t.lines.map (trimmedLine trim) := by
  cases trim with
  | false => exact (List.map_id _).symm
  | true => exact lines_trimLines t

theorem lines_trimFinalBreaks (t : Text) :
    ∃ dropped, t.lines = (trimFinalBreaks t).lines ++ dropped ∧ ∀ l ∈ dropped, l = [] := by
  refine trimFinalBreaks_induction
    (P := fun u => ∃ dropped, t.lines = u.lines ++ dropped ∧ ∀ l ∈ dropped, l = [])
    ⟨[], by simp⟩ ?_
  intro u h
  obtain ⟨dropped, ht, hd⟩ := h
  refine ⟨[] :: dropped, ?_, by simpa using hd⟩
  rw [ht, Text.lines_append_break, List.append_assoc]
  rfl

theorem lines_endWithBreak (t : Text) :
    (endWithBreak t).lines = t.lines ∨ (endWithBreak t).lines = t.lines ++ [[]] := by
  unfold endWithBreak
  split
  · exact .inl rfl
  · exact .inr (Text.lines_append_break t [])

/-- Tidying keeps the lines up to some place, each trimmed if lines are trimmed. Behind it are lines
that trimming leaves empty, and in their stead there may be one empty line. -/
theorem lines_tidyEnds (options : Options) (t : Text) :
    ∃ kept dropped added, t.lines = kept ++ dropped ∧ kept ≠ [] ∧
      (tidyEnds options t).lines = kept.map (trimmedLine options.trimTrailingWhitespace) ++ added ∧
      (∀ l ∈ dropped, options.trimFinalNewlines = true ∧
        trimmedLine options.trimTrailingWhitespace l = []) ∧
      (added = [] ∨ options.insertFinalNewline = true ∧ added = [[]]) := by
  have h1 := lines_trimmed options.trimTrailingWhitespace t
  simp only [tidyEnds]
  generalize (if options.trimTrailingWhitespace then trimLines t else t) = t₁ at h1 ⊢
  obtain ⟨gone, h2, hgone⟩ : ∃ gone,
      t₁.lines = (if options.trimFinalNewlines then trimFinalBreaks t₁ else t₁).lines ++ gone ∧
        ∀ l ∈ gone, options.trimFinalNewlines = true ∧ l = [] := by
    cases options.trimFinalNewlines with
    | false => exact ⟨[], by simp⟩
    | true => simpa using lines_trimFinalBreaks t₁
  generalize (if options.trimFinalNewlines then trimFinalBreaks t₁ else t₁) = t₂ at h2 ⊢
  obtain ⟨added, h3, hadded⟩ : ∃ added,
      (if options.insertFinalNewline then endWithBreak t₂ else t₂).lines = t₂.lines ++ added ∧
        (added = [] ∨ options.insertFinalNewline = true ∧ added = [[]]) := by
    cases options.insertFinalNewline with
    | false => exact ⟨[], by simp⟩
    | true =>
      obtain h | h := lines_endWithBreak t₂
      · exact ⟨[], by simpa using h⟩
      · exact ⟨[[]], by simpa using h⟩
  obtain ⟨kept, dropped, ht, hk, hd⟩ := List.map_eq_append_iff.1 (h1.symm.trans h2)
  refine ⟨kept, dropped, added, ht, ?_, by rw [h3, hk], ?_, hadded⟩
  · rintro rfl
    exact Text.lines_ne_nil t₂ hk.symm
  · intro l hl
    exact hgone _ (hd ▸ List.mem_map_of_mem hl)

def Trims (trim : Bool) (l m : Text) : Prop :=
  ∃ blanks, l = m ++ blanks ∧ (∀ c ∈ blanks, isBlank c) ∧ (trim = false → blanks = [])

theorem trims_trimmedLine (trim : Bool) (l : Text) : Trims trim l (trimmedLine trim l) := by
  cases trim with
  | false => exact ⟨[], (List.append_nil l).symm, by simp, fun _ => rfl⟩
  | true =>
    obtain ⟨blanks, hl, hb⟩ := Text.exists_trimEnd_append isBlank l
    exact ⟨blanks, hl, hb, by simp⟩

theorem getLast_endWithBreak (t : Text) : (endWithBreak t).getLast? = some '\n' := by
  unfold endWithBreak
  split
  · assumption
  · simp

section
variable (t)

theorem getLast_of_mem_lines_tidyEnds (ho : options.trimTrailingWhitespace = true) :
    ∀ l ∈ (tidyEnds options t).lines, l.getLast?.all (!isBlank ·) := by
  intro l hl
  obtain ⟨kept, dropped, added, -, -, hout, -, hadded⟩ := lines_tidyEnds options t
  rw [hout, List.mem_append] at hl
  obtain hl | hl := hl
  · obtain ⟨m, -, rfl⟩ := List.mem_map.1 hl
    rw [trimmedLine, if_pos ho]
    exact Text.getLast_trimEnd isBlank m
  · obtain rfl | ⟨-, rfl⟩ := hadded
    · cases hl
    · obtain rfl := List.mem_singleton.1 hl
      rfl

theorem getLast_tidyEnds (hi : options.insertFinalNewline = true) :
    (tidyEnds options t).getLast? = some '\n' := by
  simp only [tidyEnds, hi, if_true]
  exact getLast_endWithBreak _

theorem getLast_tidyEnds_ne (hf : options.trimFinalNewlines = true)
    (hi : options.insertFinalNewline = false) : (tidyEnds options t).getLast? ≠ some '\n' := by
  simp only [tidyEnds, hf, hi, if_true, Bool.false_eq_true, if_false]
  exact getLast_trimFinalBreaks _

theorem exists_tidyEnds_eq (hf : options.trimFinalNewlines = true)
    (hi : options.insertFinalNewline = true) :
    ∃ u, tidyEnds options t = u ++ ['\n'] ∧ u.getLast? ≠ some '\n' := by
  simp only [tidyEnds, hf, hi, if_true, endWithBreak_trimFinalBreaks]
  exact ⟨_, rfl, getLast_trimFinalBreaks _⟩

end

/-- What becomes of a text, `t`, when its line ends are tidied. -/
structure Tidied (options : Options) (t out : Text) : Prop where
  no_blank : options.trimTrailingWhitespace = true →
    ∀ l ∈ out.lines, l.getLast?.all (!isBlank ·)
  final_break : options.insertFinalNewline = true → out.getLast? = some '\n'
  no_final_break : options.trimFinalNewlines = true → options.insertFinalNewline = false →
    out.getLast? ≠ some '\n'
  one_final_break : options.trimFinalNewlines = true → options.insertFinalNewline = true →
    ∃ u, out = u ++ ['\n'] ∧ u.getLast? ≠ some '\n'
  lines : ∃ kept dropped new added, t.lines = kept ++ dropped ∧ out.lines = new ++ added ∧
    new ≠ [] ∧ List.Forall₂ (Trims options.trimTrailingWhitespace) kept new ∧
    (∀ l ∈ dropped, options.trimFinalNewlines = true ∧
      Trims options.trimTrailingWhitespace l []) ∧
    (added = [] ∨ options.insertFinalNewline = true ∧ added = [[]])
  stable : tidyEnds options out = out

/-- Whatever the tokens are, their output is the output without any tidying, tidied as the options
ask for it, and tidying it again changes nothing. -/
theorem tidied_render (options : Options) (tokens : List Token) :
    Tidied options
      (render { options with
        trimTrailingWhitespace := false
        insertFinalNewline := false
        trimFinalNewlines := false } tokens)
      (render options tokens) where
  no_blank := getLast_of_mem_lines_tidyEnds _
  final_break := getLast_tidyEnds _
  no_final_break := getLast_tidyEnds_ne _
  one_final_break := exists_tidyEnds_eq _
  lines := by
    obtain ⟨kept, dropped, added, ht, hk, hout, hd, hadded⟩ :=
      lines_tidyEnds options (body options.indent tokens)
    refine ⟨kept, dropped, _, added, ht, hout, by simpa using hk, ?_, ?_, hadded⟩
    · rw [List.forall₂_map_right_iff, List.forall₂_same]
      intro l _
      exact trims_trimmedLine _ l
    · intro l hl
      obtain ⟨hf, he⟩ := hd l hl
      exact ⟨hf, he ▸ trims_trimmedLine _ l⟩
  stable := tidyEnds_tidyEnds options _

end Layout
end QueryTidy

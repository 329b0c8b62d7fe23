import Mathlib.Data.List.Induction
import QueryTidy.Layout.Rendering

/-! Tidying the ends of lines. Trimming every line is one recursion from the left
(`trimLines_cons`), and tidying twice is tidying once (`tidyEnds_tidyEnds`). -/
namespace QueryTidy.Layout
open Token

theorem trimEnd_cons (p : Char → Bool) (c : Char) (t : Text) :
    Text.trimEnd p (c :: t) =
      if p c ∧ Text.trimEnd p t = [] then [] else c :: Text.trimEnd p t := by
  simp only [Text.trimEnd, List.reverse_cons, List.dropWhile_append]
  by_cases h : t.reverse.dropWhile p = []
  · cases hc : p c <;> simp [h, hc]
  · simp [h]

theorem break_not_mem_lines {t l : Text} (h : l ∈ t.lines) : '\n' ∉ l := by
  induction t generalizing l with
  | nil => simp_all [Text.lines]
  | cons c t ih =>
    rw [Text.lines] at h
    split at h
    · obtain rfl | h := List.mem_cons.1 h
      · simp
      · exact ih h
    · cases hl : Text.lines t with
      | nil => exact absurd hl (Text.lines_ne_nil t)
      | cons m ms =>
        rw [hl, List.modifyHead_cons] at h
        obtain rfl | h := List.mem_cons.1 h
        · have hm := ih (l := m) (by simp [hl])
          simp_all [eq_comm]
        · exact ih (by simp [hl, h])

theorem mem_of_mem_trimEnd {p : Char → Bool} {t : Text} {c : Char} (h : c ∈ Text.trimEnd p t) :
    c ∈ t := by
  rw [Text.trimEnd, List.mem_reverse] at h
  exact List.mem_reverse.1 (List.dropWhile_subset _ h)

def joined : List Text → Text
  | [] => []
  | l :: ls => '\n' :: Text.unlines (l :: ls)

theorem unlines_cons (l : Text) (ls : List Text) : Text.unlines (l :: ls) = l ++ joined ls := by
  cases ls <;> simp [Text.unlines, joined]

theorem trimLines_nil : trimLines [] = [] := rfl

theorem trimLines_cons (c : Char) (t : Text) :
    trimLines (c :: t) =
      if isBlank c ∧ (trimLines t).head?.all (· == '\n') then trimLines t
      else c :: trimLines t := by
  unfold trimLines
  rw [Text.lines]
  obtain ⟨l, ls, hl⟩ := List.exists_cons_of_ne_nil (Text.lines_ne_nil t)
  by_cases hc : c = '\n'
  · rw [if_pos hc, hl, List.map_cons, unlines_cons]
    simp [hc, joined, isBlank, Text.trimEnd]
  · have hn : '\n' ∉ Text.trimEnd isBlank l :=
      fun h => break_not_mem_lines (t := t) (by simp [hl]) (mem_of_mem_trimEnd h)
    rw [if_neg hc, hl, List.modifyHead_cons, List.map_cons, List.map_cons, unlines_cons,
      unlines_cons, trimEnd_cons]
    cases ht : Text.trimEnd isBlank l with
    | nil =>
      have hj : (joined (ls.map (Text.trimEnd isBlank))).head?.all (· == '\n') := by
        cases ls <;> simp [joined]
      simp [hj]
      split <;> rfl
    | cons d u =>
      have hd : d ≠ '\n' := fun he => hn (by simp [ht, he])
      simp [hd]

theorem trimLines_cons_of_not_blank {c : Char} (hc : isBlank c = false) (t : Text) :
    trimLines (c :: t) = c :: trimLines t := by
  simp [trimLines_cons, hc]

theorem mem_of_mem_trimLines {t : Text} {c : Char} (h : c ∈ trimLines t) : c ∈ t := by
  induction t with
  | nil => exact h
  | cons d t ih =>
    rw [trimLines_cons] at h
    split at h
    · exact List.mem_cons_of_mem d (ih h)
    · obtain rfl | h := List.mem_cons.1 h
      · exact List.mem_cons_self
      · exact List.mem_cons_of_mem d (ih h)

theorem trimLines_append_of_end (a : Text) {b : Text}
    (hb : (trimLines b).head?.all (· == '\n')) :
    trimLines (a ++ b) = trimLines a ++ trimLines b := by
  induction a with
  | nil => rfl
  | cons c a ih =>
    rw [List.cons_append, trimLines_cons, trimLines_cons, ih]
    cases ha : trimLines a with
    | nil =>
      simp only [List.nil_append, hb]
      split <;> simp_all
    | cons d u => by_cases h : isBlank c ∧ d = '\n' <;> simp [h]

theorem trimLines_append_break (t : Text) : trimLines (t ++ ['\n']) = trimLines t ++ ['\n'] :=
  trimLines_append_of_end t rfl

theorem trimLines_eq_nil {t : Text} (h : trimLines t = []) : ∀ c ∈ t, isBlank c := by
  induction t with
  | nil => simp
  | cons c t ih =>
    rw [trimLines_cons] at h
    split at h
    · rename_i hc
      intro d hd
      obtain rfl | hd := List.mem_cons.1 hd
      · exact hc.1
      · exact ih h d hd
    · cases h

theorem trimLines_append_of_last {a : Text} (ha : a.getLast?.all (!isBlank ·)) (b : Text) :
    trimLines (a ++ b) = trimLines a ++ trimLines b := by
  induction a with
  | nil => rfl
  | cons c a ih =>
    cases a with
    | nil =>
      have hc : isBlank c = false := by simpa using ha
      simp [trimLines_cons, hc, trimLines_nil]
    | cons d a =>
      have hl : (d :: a).getLast?.all (!isBlank ·) := by simpa [List.getLast?_cons_cons] using ha
      rw [List.cons_append, trimLines_cons, trimLines_cons c, ih hl]
      cases ht : trimLines (d :: a) with
      | nil =>
        exfalso
        cases he : (d :: a).getLast? with
        | none => simp at he
        | some e =>
          have hb := trimLines_eq_nil ht e (List.mem_of_getLast? he)
          simp [he, hb] at hl
      | cons e u => by_cases h : isBlank c ∧ e = '\n' <;> simp [h]

theorem trimLines_append_of_blanks {a b : Text} (ha : ∀ c ∈ a, isBlank c)
    (hb : (trimLines b).head?.any (· != '\n')) : trimLines (a ++ b) = a ++ trimLines b := by
  induction a with
  | nil => rfl
  | cons c a ih =>
    have hi := ih fun d hd => ha d (List.mem_cons_of_mem c hd)
    rw [List.cons_append, trimLines_cons, hi]
    cases a with
    | nil =>
      cases ht : trimLines b with
      | nil => simp [ht] at hb
      | cons d u => simp_all
    | cons d a =>
      have hd : isBlank d := ha d (by simp)
      have hn : d ≠ '\n' := by
        intro he
        subst he
        cases hd
      simp [hn]

theorem trimLines_eq_self {t : Text} (hn : '\n' ∉ t) (hl : t.getLast?.all (!isBlank ·)) :
    trimLines t = t := by
  induction t with
  | nil => rfl
  | cons c t ih =>
    cases t with
    | nil =>
      have hc : isBlank c = false := by simpa using hl
      simp [trimLines_cons, hc, trimLines_nil]
    | cons d t =>
      have hi := ih (fun h => hn (List.mem_cons_of_mem c h))
        (by simpa [List.getLast?_cons_cons] using hl)
      have hd : d ≠ '\n' := fun he => hn (by simp [he])
      rw [trimLines_cons, hi]
      simp [hd]

theorem trimLines_trimLines (t : Text) : trimLines (trimLines t) = trimLines t := by
  induction t with
  | nil => rfl
  | cons c t ih =>
    rw [trimLines_cons]
    split
    · exact ih
    · rename_i hc
      rw [trimLines_cons, ih, if_neg hc]

theorem trimFinalBreaks_append_break (t : Text) :
    trimFinalBreaks (t ++ ['\n']) = trimFinalBreaks t := by
  simp [trimFinalBreaks, Text.trimEnd]

theorem trimFinalBreaks_append_other (t : Text) {c : Char} (hc : c ≠ '\n') :
    trimFinalBreaks (t ++ [c]) = t ++ [c] := by
  simp [trimFinalBreaks, Text.trimEnd, hc]

/-- What survives the loss of a final line break holds without any. -/
theorem trimFinalBreaks_induction {P : Text → Prop} {t : Text} (ht : P t)
    (step : ∀ u, P (u ++ ['\n']) → P u) : P (trimFinalBreaks t) := by
  induction t using List.reverseRecOn with
  | nil => exact ht
  | append_singleton t c ih =>
    by_cases hc : c = '\n'
    · subst c
      rw [trimFinalBreaks_append_break]
      exact ih (step t ht)
    · rwa [trimFinalBreaks_append_other t hc]

theorem trimFinalBreaks_trimFinalBreaks (t : Text) :
    trimFinalBreaks (trimFinalBreaks t) = trimFinalBreaks t := by
  induction t using List.reverseRecOn with
  | nil => rfl
  | append_singleton t c ih =>
    by_cases hc : c = '\n'
    · rw [hc, trimFinalBreaks_append_break, ih]
    · rw [trimFinalBreaks_append_other t hc, trimFinalBreaks_append_other t hc]

theorem getLast_trimFinalBreaks (t : Text) : (trimFinalBreaks t).getLast? ≠ some '\n' := by
  induction t using List.reverseRecOn with
  | nil => simp [trimFinalBreaks, Text.trimEnd]
  | append_singleton t c ih =>
    by_cases hc : c = '\n'
    · rwa [hc, trimFinalBreaks_append_break]
    · simpa [trimFinalBreaks_append_other t hc] using hc

theorem endWithBreak_trimFinalBreaks (t : Text) :
    endWithBreak (trimFinalBreaks t) = trimFinalBreaks t ++ ['\n'] :=
  if_neg (getLast_trimFinalBreaks t)

theorem endWithBreak_endWithBreak (t : Text) : endWithBreak (endWithBreak t) = endWithBreak t := by
  unfold endWithBreak
  split <;> simp_all

theorem trimLines_trimFinalBreaks {t : Text} (h : trimLines t = t) :
    trimLines (trimFinalBreaks t) = trimFinalBreaks t := by
  refine trimFinalBreaks_induction (P := fun t => trimLines t = t) h ?_
  intro u hu
  rw [trimLines_append_break] at hu
  exact List.append_cancel_right hu

theorem trimLines_endWithBreak {t : Text} (h : trimLines t = t) :
    trimLines (endWithBreak t) = endWithBreak t := by
  unfold endWithBreak
  split
  · exact h
  · rw [trimLines_append_break, h]

/-- Tidying twice is tidying once. -/
theorem tidyEnds_tidyEnds (options : Options) (t : Text) :
    tidyEnds options (tidyEnds options t) = tidyEnds options t := by
  have h1 := trimLines_trimLines t
  have h2 := trimLines_endWithBreak h1
  have h3 := trimLines_trimFinalBreaks h1
  have h4 := trimLines_endWithBreak h3
  cases ht : options.trimTrailingWhitespace <;> cases hi : options.insertFinalNewline <;>
    cases hf : options.trimFinalNewlines <;>
    simp_all [tidyEnds, endWithBreak_endWithBreak, endWithBreak_trimFinalBreaks,
      trimFinalBreaks_append_break, trimFinalBreaks_trimFinalBreaks]

end QueryTidy.Layout

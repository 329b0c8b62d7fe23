import QueryTidy.Proofs.Layout.LineEnds
import QueryTidy.Proofs.Layout.Spacing
import QueryTidy.Proofs.Migration.Findings
import QueryTidy.Proofs.Migration.Weight

/-! What laying out and fixing bring into a text. A text without carriage returns stays so, and can
be read again as it was written. Main statements: `return_not_mem_format`,
`return_not_mem_fixedText`. -/
namespace QueryTidy

namespace Layout

theorem mem_blanksBefore {unit : Text} {cursor : Cursor} {token : Token} {c : Char}
    (h : c ∈ blanksBefore unit cursor token) : c ∈ unit ∨ c = ' ' := by
  unfold blanksBefore at h
  split at h
  · obtain ⟨u, hu, hc⟩ := List.mem_flatten.1 h
    obtain ⟨-, rfl⟩ := List.mem_replicate.1 hu
    exact .inl hc
  · split at h
    · exact .inr (List.mem_singleton.1 h)
    · cases h

theorem mem_relay {unit : Text} {cursor : Cursor} {token : Token} {c : Char}
    (h : c ∈ (relay unit cursor token).flatMap Token.text) :
    c ∈ token.text ∨ c ∈ unit ∨ c = ' ' ∨ c = '\n' := by
  cases hs : isSpacing token with
  | false =>
    rw [relay_of_visible hs, List.flatMap_append, flatMap_text_lead, List.mem_append,
      List.mem_append] at h
    obtain (h | h) | h := h
    · split at h
      · exact .inr (.inr (.inr (List.mem_singleton.1 h)))
      · cases h
    · obtain h | h := mem_blanksBefore h
      · exact .inr (.inl h)
      · exact .inr (.inr (.inl h))
    · exact .inl (by simpa using h)
  | true =>
    simp only [isSpacing, Bool.or_eq_true, decide_eq_true_eq] at hs
    obtain hs | hs := hs
    · simp [relay, hs] at h
    · simp only [relay, hs, lineBreak, List.flatMap_cons, List.flatMap_nil, List.append_nil,
        List.mem_singleton] at h
      exact .inr (.inr (.inr h))

theorem mem_layoutFrom {unit : Text} {cursor : Cursor} {tokens : List Token} {c : Char}
    (h : c ∈ layoutFrom unit cursor tokens) :
    c ∈ tokens.flatMap Token.text ∨ c ∈ unit ∨ c = ' ' ∨ c = '\n' := by
  induction tokens generalizing cursor with
  | nil => cases h
  | cons token tokens ih =>
    rw [layoutFrom_cons, List.mem_append] at h
    rw [List.flatMap_cons, List.mem_append]
    obtain h | h := h
    · exact (mem_relay h).imp_left .inl
    · exact (ih h).imp_left .inr

theorem mem_tidyEnds {options : Options} {t : Text} {c : Char} (h : c ∈ tidyEnds options t) :
    c ∈ t ∨ c = '\n' := by
  have hl {u : Text} (h : c ∈ if options.trimTrailingWhitespace then trimLines u else u) :
      c ∈ u := by
    split at h
    · exact mem_of_mem_trimLines h
    · exact h
  have hf {u : Text} (h : c ∈ if options.trimFinalNewlines then trimFinalBreaks u else u) :
      c ∈ u := by
    split at h
    · exact mem_of_mem_trimEnd h
    · exact h
  have hi {u : Text} (h : c ∈ if options.insertFinalNewline then endWithBreak u else u) :
      c ∈ u ∨ c = '\n' := by
    simp only [endWithBreak] at h
    split_ifs at h
    · exact .inl h
    · simpa using h
    · exact .inl h
  exact (hi h).imp_left fun h => hl (hf h)

theorem return_not_mem_format (options : Options) {t : Text} (h : '\r' ∉ t) :
    '\r' ∉ format options t := by
  have hu : '\r' ∉ options.indent := by
    unfold Options.indent
    split <;> simp
  intro hc
  obtain hc | hc := mem_tidyEnds hc
  · obtain hc | hc | hc | hc := mem_layoutFrom hc
    · rw [tokenize, Token.flatMap_text_lexFrom] at hc
      exact h hc
    · exact hu hc
    · cases hc
    · cases hc
  · cases hc

end Layout

theorem Edit.mem_of_spliced {p : Position} {t r : Text} {edits : List Edit} {c : Char}
    (h : Spliced p t edits r) (hc : c ∈ r) : c ∈ t ∨ ∃ edit ∈ edits, c ∈ edit.newText := by
  induction h with
  | done => exact .inl hc
  | @replace p kept old rest edit edits r _ _ _ ih =>
    simp only [List.mem_append] at hc ⊢
    obtain hc | hc | hc := hc
    · exact .inl (.inl hc)
    · exact .inr ⟨edit, List.mem_cons_self, hc⟩
    · obtain hc | ⟨e, he, hc⟩ := ih hc
      · exact .inl (.inr (.inr hc))
      · exact .inr ⟨e, List.mem_cons_of_mem edit he, hc⟩

namespace Migration

theorem Construct.mem_matched {pattern : Pattern} {matched argument : Text}
    (h : Construct pattern matched argument) {c : Char} (hc : c ∈ argument) : c ∈ matched := by
  cases h with
  | call =>
    simp only [List.mem_append, List.mem_cons]
    exact .inr (.inr (.inr (.inr (.inl (by simpa using hc)))))
  | _ => cases hc

namespace Substitution

def given : Substitution → Text
  | .cast type => type
  | .wrap left right => left ++ right
  | _ => []

theorem mem_of_slashBody {argument body : Text} (h : slashBody? argument = some body) {c : Char}
    (hc : c ∈ body) : c ∈ argument := by
  unfold slashBody? at h
  split at h
  · obtain rfl := Option.some.inj h
    exact List.mem_of_mem_drop (List.dropLast_subset _ hc)
  · cases h

theorem return_not_mem_newText {substitution : Substitution} {capture : Capture}
    (hs : '\r' ∉ substitution.given) (hm : '\r' ∉ capture.matched)
    (ha : '\r' ∉ capture.argument) : '\r' ∉ substitution.newText capture := by
  cases substitution with
  | dashComment =>
    change '\r' ∉ capture.matched.take _ ++ ['-', '-']
    have ht : '\r' ∉ capture.matched.take (capture.matched.length - 2) :=
      fun h => hm (List.mem_of_mem_take h)
    simp [ht]
  | grepThis =>
    cases hb : slashBody? capture.argument with
    | none =>
      rw [newText_quoted hb]
      simp [ha]
    | some body =>
      have ht : '\r' ∉ body := fun h => ha (mem_of_slashBody hb h)
      rw [newText_slashes hb]
      simp [ht]
  | isThis =>
    rw [newText_isThis]
    simp [ha]
  | cast type =>
    have ht : '\r' ∉ type := hs
    rw [newText_cast]
    simp [ha, ht]
  | wrap left right =>
    have ht : '\r' ∉ left ++ right := hs
    change '\r' ∉ left ++ capture.matched ++ right
    simp_all

end Substitution

theorem return_not_mem_newText {rule : Rule} {capture : Capture} {new : Text}
    (hr : rule ∈ registry) (hw : rule.newText capture = some new)
    (hm : '\r' ∉ capture.matched) (ha : '\r' ∉ capture.argument) : '\r' ∉ new := by
  have hg : ∀ rule ∈ registry, (∀ s ∈ rule.substitution, '\r' ∉ s.given) ∧
      ∀ new ∈ rule.replacement, '\r' ∉ new := by decide
  obtain ⟨hs, hf⟩ := hg rule hr
  unfold Rule.newText at hw
  split at hw
  · rename_i substitution he
    obtain rfl := Option.some.inj hw
    exact substitution.return_not_mem_newText (hs substitution he) hm ha
  · exact hf new hw

def fixedText (t : Text) : Text :=
  match Fixed.of registry t with
  | .ok fixed => fixed.text
  | .error _ => t

/-- Fixing never fails. -/
theorem of_eq_ok_fixedText (t : Text) :
    Fixed.of registry t = .ok ⟨t, fixedText t, batchEdits (scan registry t),
      Diagnostic.sort ((scan registry (fixedText t)).map (·.diagnostic))⟩ := by
  obtain ⟨r, hr⟩ := exists_spliced_scan registry t
  have hf := of_eq_ok_of_spliced hr
  have he : fixedText t = r := by rw [fixedText, hf]
  rw [he, hf]

theorem spliced_fixedText (t : Text) :
    Edit.Spliced .origin t (batchEdits (scan registry t)).reverse (fixedText t) := by
  obtain ⟨r, hr⟩ := exists_spliced_scan registry t
  have he : fixedText t = r := by rw [fixedText, of_eq_ok_of_spliced hr]
  rwa [he]

theorem return_not_mem_fixedText {t : Text} (h : '\r' ∉ t) : '\r' ∉ fixedText t := by
  intro hmem
  obtain hc | ⟨edit, he, hc⟩ := Edit.mem_of_spliced (spliced_fixedText t) hmem
  · exact h hc
  · obtain ⟨f, hf, hx⟩ := exists_of_mem_batchEdits (List.mem_reverse.1 he)
    obtain ⟨rule, hr, capture, a, c, rfl, -, -, hk, hw⟩ := exists_of_fix hf hx
    have hm : '\r' ∉ capture.matched := fun hm => h (by simp [hm])
    have ha : '\r' ∉ capture.argument := fun ha => hm (hk.mem_matched ha)
    exact return_not_mem_newText hr hw hm ha hc

end Migration
end QueryTidy

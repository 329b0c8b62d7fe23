import QueryTidy.Proofs.Layout.Idempotence

/-! What the layout does to strings and regular expressions. It keeps them, but for blanks at the
ends of the lines of a string, which go when lines are trimmed. Main statement:
`literals_format`. -/
namespace QueryTidy.Token
open Layout (trimLines trimLines_cons_of_not_blank)

def ClosedString (t : Text) : Prop :=
  ∃ mark ∈ [[], ['f'], ['r']], ∃ q x, isQuote q ∧ InString q x ∧ t = mark ++ q :: (x ++ [q])

def closesQuote : Text → Bool
  | q :: x => isQuote q && (quoteScan q).ends false x
  | [] => false

variable {allowed : Bool} {mark t x rest : Text} {q : Char}

theorem closesQuote_iff :
    closesQuote t = true ↔ ∃ q x, isQuote q ∧ InString q x ∧ t = q :: (x ++ [q]) := by
  cases t with
  | nil => simp [closesQuote]
  | cons c t =>
    rw [closesQuote, Bool.and_eq_true]
    constructor
    · rintro ⟨hc, he⟩
      obtain ⟨x, hx, rfl⟩ := (ends_quoteScan_iff (ne_of_class hc rfl)).1 he
      exact ⟨c, x, hc, hx, rfl⟩
    · rintro ⟨q, x, hq, hx, ht⟩
      obtain ⟨rfl, rfl⟩ := List.cons.inj ht
      exact ⟨hq, (ends_quoteScan_iff (ne_of_class hq rfl)).2 ⟨x, hx, rfl⟩⟩

theorem closedString_iff :
    ClosedString t ↔ closesQuote t = true ∨
      (t.head? = some 'f' ∨ t.head? = some 'r') ∧ closesQuote t.tail = true := by
  constructor
  · rintro ⟨mark, hm, q, x, hq, hx, rfl⟩
    have hc : closesQuote (q :: (x ++ [q])) = true := closesQuote_iff.2 ⟨q, x, hq, hx, rfl⟩
    simp only [List.mem_cons, List.not_mem_nil, or_false] at hm
    obtain rfl | rfl | rfl := hm
    · exact .inl hc
    · exact .inr ⟨.inl rfl, hc⟩
    · exact .inr ⟨.inr rfl, hc⟩
  · rintro (h | ⟨hh, h⟩)
    · obtain ⟨q, x, hq, hx, rfl⟩ := closesQuote_iff.1 h
      exact ⟨[], by simp, q, x, hq, hx, rfl⟩
    · obtain ⟨q, x, hq, hx, ht⟩ := closesQuote_iff.1 h
      cases t with
      | nil => cases ht
      | cons c t => exact ⟨[c], by simpa using hh, q, x, hq, hx, by simpa using ht⟩

instance : DecidablePred ClosedString := fun _ => decidable_of_iff' _ closedString_iff

theorem closedString_append_iff (hm : mark ∈ [[], ['f'], ['r']]) (hq : isQuote q) :
    ClosedString (mark ++ q :: x) ↔ (quoteScan q).ends false x = true := by
  have h1 : q ≠ 'f' := ne_of_class hq rfl
  have h2 : q ≠ 'r' := ne_of_class hq rfl
  have h3 : isQuote 'f' = false ∧ isQuote 'r' = false := by decide
  simp only [List.mem_cons, List.not_mem_nil, or_false] at hm
  rw [closedString_iff]
  obtain rfl | rfl | rfl := hm <;> simp [closesQuote, hq, h1, h2, h3]

theorem Reads.exists_of_string (h : Reads allowed .string t rest) :
    ∃ mark ∈ [[], ['f'], ['r']], ∃ q x, isQuote q ∧ (quoteScan q).Delimits false x rest ∧
      t = mark ++ q :: x := by
  generalize hk : Kind.string = kind at h
  cases h with
  | string hq hx => exact ⟨[], by simp, _, _, hq, hx, rfl⟩
  | @marked p q x _ hp hq hx => exact ⟨[p], by simpa using hp, q, x, hq, hx, rfl⟩
  | word _ _ _ _ hw => split at hw <;> simp_all
  | _ => simp at hk

theorem Scan.not_ends_of_runsOn {σ : Type} {scan : Scan σ} {s : σ} (h : scan.runsOn s x = true) :
    scan.ends s x = false := by
  rw [← Bool.not_eq_true]
  intro he
  obtain ⟨y, c, rfl, -, hn⟩ := Scan.ends_iff.1 he
  simp [h] at hn

theorem not_closedString_of_unclosed (h : Unclosed .string t) : ¬ ClosedString t := by
  cases h with
  | string hm hq hx =>
    have ho := (runsOn_quoteScan_iff (ne_of_class hq rfl)).2 (.inl hx)
    simp [closedString_append_iff hm hq, Scan.not_ends_of_runsOn ho]
  | @stringEscape mark q x hm hq hx =>
    have ho := (runsOn_quoteScan_iff (ne_of_class hq rfl)).2 (.inr ⟨x, hx, rfl⟩)
    simp [closedString_append_iff hm hq, Scan.not_ends_of_runsOn ho]

theorem ClosedString.last_not_gap (h : ClosedString t) : t.getLast?.any (!isGap ·) := by
  obtain ⟨mark, -, q, x, hq, -, rfl⟩ := h
  simp [List.getLast?_append, List.getLast?_cons, isGap_eq_false_of_class hq (by decide)]

theorem trimLines_quoted (hm : mark ∈ [[], ['f'], ['r']]) (hq : isQuote q) (x : Text) :
    trimLines (mark ++ q :: x) = mark ++ q :: trimLines x := by
  have hc : trimLines (q :: x) = q :: trimLines x :=
    trimLines_cons_of_not_blank (by simpa using not_isBlank_of_class hq (by decide)) x
  simp only [List.mem_cons, List.not_mem_nil, or_false] at hm
  obtain rfl | rfl | rfl := hm
  · exact hc
  all_goals exact (trimLines_cons_of_not_blank rfl _).trans (congrArg _ hc)

theorem Reads.closedString_trimLines (h : Reads allowed .string t rest) :
    ClosedString (trimLines t) ↔ ClosedString t := by
  obtain ⟨mark, hm, q, x, hq, hx, rfl⟩ := h.exists_of_string
  have hi := quoteScan_ignoresBlanks hq
  rw [trimLines_quoted hm hq, closedString_append_iff hm hq, closedString_append_iff hm hq]
  obtain he | ⟨-, ho⟩ := hx
  · simp [he, Scan.ends_trimLines hi he]
  · simp [Scan.not_ends_of_runsOn ho, Scan.not_ends_of_runsOn (Scan.runsOn_trimLines hi ho)]

def IsLiteral (token : Token) : Prop :=
  token.kind = .regex ∨ token.kind = .string ∧ ClosedString token.text

instance : DecidablePred IsLiteral := fun _ => inferInstanceAs (Decidable (_ ∨ _))

def literals (tokens : List Token) : List Text := (tokens.filter (IsLiteral ·)).map text

theorem literals_append (tokens more : List Token) :
    literals (tokens ++ more) = literals tokens ++ literals more := by
  simp [literals]

theorem literals_cons_of_not {token : Token} (h : ¬ IsLiteral token) (tokens : List Token) :
    literals (token :: tokens) = literals tokens := by
  simp [literals, h]

theorem literals_cons {token : Token} (h : IsLiteral token) (tokens : List Token) :
    literals (token :: tokens) = token.text :: literals tokens := by
  simp [literals, h]

theorem Reads.isLiteral_trimmed {token : Token} (h : Reads allowed token.kind token.text rest) :
    IsLiteral (trimmed token) ↔ IsLiteral token := by
  unfold IsLiteral
  rw [trimmed_kind]
  by_cases hk : token.kind = .string
  · rw [h.text_trimmed (by simp [hk])]
    rw [hk] at h
    rw [h.closedString_trimLines]
  · simp [hk]

/-- Trimming tokens trims the literals among them. -/
theorem Lexes.literals_trimmed {previous : Option Token} {tokens : List Token}
    (h : Lexes previous tokens) :
    literals (tokens.map trimmed) = (literals tokens).map trimLines := by
  induction tokens generalizing previous with
  | nil => rfl
  | cons token tokens ih =>
    obtain ⟨hr, ht⟩ := h
    have hl := hr.isLiteral_trimmed
    rw [List.map_cons]
    by_cases hk : IsLiteral token
    · have hw : token.kind ≠ .whitespace := by
        rintro hw
        simp [IsLiteral, hw] at hk
      rw [literals_cons (hl.2 hk), literals_cons hk, List.map_cons, ih ht, hr.text_trimmed hw]
    · rw [literals_cons_of_not (mt hl.1 hk), literals_cons_of_not hk, ih ht]

theorem literals_append_break (t : Text) :
    literals (tokenize (t ++ ['\n'])) = literals (tokenize t) := by
  obtain ht | ⟨front, last, he, hk, ht⟩ := tokenize_append_break t
  · rw [ht, literals_append, literals_cons_of_not (by decide)]
    exact List.append_nil _
  · have hu : Unclosed last.kind last.text := by
      by_contra hc
      have hb := (tokenize_append_break_iff t []).2 (by simpa [he] using hc)
      have hlen := congrArg List.length (ht.symm.trans hb)
      simp [he] at hlen
    have hl : ¬ IsLiteral last := by
      rintro (hr | ⟨hs, hc⟩)
      · simp [hr] at hk
      · exact not_closedString_of_unclosed (hs ▸ hu) hc
    have hl' : ¬ IsLiteral { last with text := last.text ++ ['\n'] } := by
      rintro (hr | ⟨-, hc⟩)
      · change last.kind = .regex at hr
        simp [hr] at hk
      · have hg := hc.last_not_gap
        simp [isGap] at hg
    rw [ht, he, literals_append, literals_append, literals_cons_of_not hl,
      literals_cons_of_not hl']

end QueryTidy.Token

namespace QueryTidy.Layout
open Token

variable {options : Options} {t : Text}

theorem literals_visible (tokens : List Token) : literals (visible tokens) = literals tokens := by
  rw [literals, visible, List.filter_filter, literals]
  congr 1
  refine List.filter_congr ?_
  intro token _
  by_cases hl : IsLiteral token
  · have hs : isSpacing token = false := by
      obtain hk | ⟨hk, -⟩ := hl <;> simp [isSpacing, hk]
    simp [hl, hs]
  · simp [hl]

theorem literals_body (options : Options) (t : Text) :
    literals (tokenize (body options.indent (tokenize t))) = literals (tokenize t) := by
  rw [tokenize_body, ← literals_visible, visible_relaidFrom, literals_visible]

theorem literals_trimFinalBreaks (t : Text) :
    literals (tokenize (trimFinalBreaks t)) = literals (tokenize t) := by
  refine trimFinalBreaks_induction (P := fun u => literals (tokenize u) = literals (tokenize t))
    rfl ?_
  intro u hu
  rw [← literals_append_break, hu]

theorem literals_endWithBreak (t : Text) :
    literals (tokenize (endWithBreak t)) = literals (tokenize t) := by
  unfold endWithBreak
  split
  · rfl
  · exact literals_append_break t

theorem Settled.literals_trimLines (h : Settled options.indent t) :
    literals (tokenize (Layout.trimLines t)) =
      (literals (tokenize t)).map Layout.trimLines := by
  rw [h.tokenize_trimLines]
  exact (lexes_lexFrom none t).literals_trimmed

def NoBlankBeforeBreak (t : Text) : Prop := ∀ b, isBlank b → ¬ [b, '\n'] <:+: t

theorem noBlankBeforeBreak_cons {c : Char} :
    NoBlankBeforeBreak (c :: t) ↔
      (isBlank c → t.head? ≠ some '\n') ∧ NoBlankBeforeBreak t := by
  have hp (b : Char) : [b, '\n'] <+: c :: t ↔ b = c ∧ t.head? = some '\n' := by
    cases t <;> simp [eq_comm]
  simp only [NoBlankBeforeBreak, List.infix_cons_iff, hp]
  grind

theorem trimLines_eq_self_iff (hl : t.getLast?.all (!isBlank ·)) :
    trimLines t = t ↔ NoBlankBeforeBreak t := by
  induction t with
  | nil => simp [trimLines_nil, NoBlankBeforeBreak]
  | cons c t ih =>
    have hend (ht : t = []) : isBlank c = false := by simpa [ht] using hl
    have ih := ih (by cases t <;> simp_all)
    rw [noBlankBeforeBreak_cons, ← ih, trimLines_cons]
    constructor
    · intro h
      split at h
      · -- A dropped blank would have to be the line break behind it.
        next hc =>
        obtain ⟨hc, hh⟩ := hc
        rw [h] at hh
        simp_all [isBlank]
      · next hc =>
        have ht : trimLines t = t := List.cons.inj h |>.2
        refine ⟨?_, ht⟩
        intro hb hh
        exact hc ⟨hb, by simp [ht, hh]⟩
    · rintro ⟨hb, ht⟩
      rw [if_neg, ht]
      rintro ⟨hc, hh⟩
      rw [ht] at hh
      cases t with
      | nil => simp [hend rfl] at hc
      | cons d t => exact hb hc (by simpa using hh)

theorem literals_last {x : Text} (h : x ∈ literals (tokenize t)) :
    x.getLast?.all (!isBlank ·) := by
  simp only [literals, List.mem_map, List.mem_filter, decide_eq_true_eq] at h
  obtain ⟨token, ⟨hm, hk⟩, rfl⟩ := h
  obtain ⟨before, after, he⟩ := List.append_of_mem hm
  have hl : Lexes none (before ++ token :: after) := he ▸ lexes_lexFrom none t
  obtain hr | ⟨-, hc⟩ := hk
  · exact (hl.split.1.onLine (by simp [hr])).2
  · have hg := hc.last_not_gap
    cases hx : token.text.getLast? with
    | none => rfl
    | some c => simp_all [isGap]

theorem Settled.literals_tidyEnds (h : Settled options.indent t) :
    literals (tokenize (Layout.tidyEnds options t)) =
      (literals (tokenize t)).map
        (if options.trimTrailingWhitespace then Layout.trimLines else id) := by
  have chosen {b : Bool} {x y : Text} (hx : literals (tokenize x) = literals (tokenize y)) :
      literals (tokenize (if b then x else y)) = literals (tokenize y) := by
    cases b
    · rfl
    · exact hx
  rw [Layout.tidyEnds, chosen (literals_endWithBreak _), chosen (literals_trimFinalBreaks _)]
  split
  · exact h.literals_trimLines
  · exact (List.map_id _).symm

/-- The layout keeps regular expressions and closed strings, but for the blanks at the ends of
lines inside of them: trimming lines drops these too, and nothing else. -/
theorem literals_format (options : Options) (t : Text) :
    literals (tokenize (format options t)) =
        (literals (tokenize t)).map (if options.trimTrailingWhitespace then trimLines else id) ∧
      (literals (tokenize (format options t)) = literals (tokenize t) ↔
        (options.trimTrailingWhitespace = true →
          ∀ x ∈ literals (tokenize t), NoBlankBeforeBreak x)) := by
  have h : literals (tokenize (format options t)) =
      (literals (tokenize t)).map (if options.trimTrailingWhitespace then trimLines else id) := by
    rw [← literals_body options t]
    exact (settled_body options t).literals_tidyEnds
  refine ⟨h, ?_⟩
  rw [h]
  by_cases ho : options.trimTrailingWhitespace = true
  · have hx : ∀ x ∈ literals (tokenize t), (trimLines x = x ↔ NoBlankBeforeBreak x) :=
      fun x hx => trimLines_eq_self_iff (literals_last hx)
    have hm := List.map_inj_left (l := literals (tokenize t)) (f := trimLines) (g := id)
    rw [List.map_id] at hm
    simp only [ho, if_true, forall_const]
    exact hm.trans (forall₂_congr hx)
  · simp [ho]

/-- A blank at the end of a line of a string is lost. -/
theorem literals_format_multiline :
    literals (tokenize "'a \nb'".toList) = ["'a \nb'".toList] ∧
      literals (tokenize (format { trimTrailingWhitespace := true } "'a \nb'".toList)) =
        ["'a\nb'".toList] := by
  decide +kernel

end QueryTidy.Layout

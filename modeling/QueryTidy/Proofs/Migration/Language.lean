import Mathlib.Data.List.Nodup
import QueryTidy.Migration.Registry
import QueryTidy.Proofs.Migration.Matching

/-! The languages of the registry's patterns. The matches on a line are the leftmost spans of the
language that do not overlap. Main statements: `matchAt_of_regex`, `leftmost_matchesIn`. -/
namespace QueryTidy.Migration

/-- A regular expression, told by the texts it matches, between what stands in front of them on
the line and what stands behind them. -/
abbrev Regex := Text → Text → Text → Prop

namespace Regex

def lineStart : Regex := fun before t _ => before = [] ∧ t = []

def wordEdge : Regex := fun before t after =>
  t = [] ∧ before.getLast?.any Token.isWordChar ≠ after.head?.any Token.isWordChar

def text (s : Text) : Regex := fun _ t _ => t = s

def one (p : Char → Bool) : Regex := fun _ t _ => ∃ c, p c ∧ t = [c]

def many (p : Char → Bool) : Regex := fun _ t _ => ∀ c ∈ t, p c

def atLeastOne (p : Char → Bool) : Regex := fun _ t _ => t ≠ [] ∧ ∀ c ∈ t, p c

def oneOf (rs : List Regex) : Regex := fun before t after => ∃ r ∈ rs, r before t after

def seq : List Regex → Regex
  | [] => fun _ t _ => t = []
  | r :: rs => fun before t after =>
    ∃ u v, t = u ++ v ∧ r before u (v ++ after) ∧ seq rs (before ++ u) v after

end Regex

open Regex

def Delimited.regex (d : Delimited) : Regex :=
  seq [text [d.opening], (if d.mayBeEmpty then many else atLeastOne) (· != d.closing),
    text [d.closing]]

def Pattern.regex : Pattern → Regex
  | .literal t => text t
  | .word name => seq [wordEdge, text name, wordEdge]
  | .slashComment => seq [oneOf [lineStart, one (· != ':')], text ['/', '/']]
  | .callOpening name => seq [wordEdge, text name, many isSpace, text ['(']]
  | .emptyCall name =>
    seq [wordEdge, text name, many isSpace, text ['('], many isSpace, text [')']]
  | .call name arguments =>
    seq [wordEdge, text name, many isSpace, text ['('], many isSpace,
      oneOf (arguments.map Delimited.regex), many isSpace, text [')']]

def Pattern.Spans (pattern : Pattern) (line : Text) (s e : Nat) : Prop :=
  ∃ before t after, line = before ++ (t ++ after) ∧ s = before.length ∧ e = s + t.length ∧
    pattern.regex before t after

/-- Spans from `p` on, from left to right. Each starts as early as a span can behind the one
before, and is the shortest there. -/
inductive Leftmost (spans : Nat → Nat → Prop) : Nat → List (Nat × Nat) → Prop
  | done {p} : (∀ s e, p ≤ s → ¬ spans s e) → Leftmost spans p []
  | next {p s e rest} : p ≤ s → spans s e → (∀ s' e', p ≤ s' → s' < s → ¬ spans s' e') →
      (∀ e', spans s e' → e ≤ e') → Leftmost spans e rest → Leftmost spans p ((s, e) :: rest)

/-- Patterns whose words start and end with characters of words, and whose arguments can be told
by their first character. -/
def Pattern.IsPlain : Pattern → Bool
  | .literal t => !t.isEmpty
  | .word name =>
    name.head?.any Token.isWordChar && name.getLast?.any Token.isWordChar
  | .slashComment => true
  | .callOpening name | .emptyCall name => name.head?.any Token.isWordChar
  | .call name arguments =>
    name.head?.any Token.isWordChar && arguments.all (!isSpace ·.opening) &&
      decide (arguments.map (·.opening)).Nodup

theorem isPlain_of_mem_registry : ∀ rule ∈ registry, rule.pattern.IsPlain = true := by
  decide

variable {before t after name : Text} {rs : List Regex}

theorem seq_name_iff (hn : name.head?.any Token.isWordChar = true) :
    seq (wordEdge :: text name :: rs) before t after ↔
      before.getLast?.any Token.isWordChar = false ∧
        ∃ v, t = name ++ v ∧ seq rs (before ++ name) v after := by
  obtain ⟨c, x, rfl⟩ : ∃ c x, name = c :: x := by
    cases name with
    | nil => simp at hn
    | cons c x => exact ⟨c, x, rfl⟩
  have hc : Token.isWordChar c = true := by simpa using hn
  constructor
  · intro h
    obtain ⟨u, v, rfl, ⟨rfl, he⟩, w, v', rfl, rfl, h⟩ := h
    refine ⟨by simpa [hc] using he, v', rfl, by simpa using h⟩
  · intro h
    obtain ⟨he, v, rfl, h⟩ := h
    exact ⟨[], _, rfl, ⟨rfl, by simp [he, hc]⟩, _, v, rfl, rfl, by simpa using h⟩

theorem Delimited.regex_iff {d : Delimited} :
    d.regex before t after ↔
      ∃ body, t = d.opening :: (body ++ [d.closing]) ∧ d.closing ∉ body ∧
        (d.mayBeEmpty ∨ body ≠ []) := by
  cases hd : d.mayBeEmpty <;>
    simp [Delimited.regex, seq, text, many, atLeastOne, hd, and_comm, List.forall_mem_ne']

namespace Pattern

section
variable (hn : name.head?.any Token.isWordChar = true)
include hn

theorem regex_word_iff (hl : name.getLast?.any Token.isWordChar = true) :
    (word name).regex before t after ↔
      before.getLast?.any Token.isWordChar = false ∧ t = name ∧
        after.head?.any Token.isWordChar = false := by
  have he : (name.getLast?.or before.getLast?).any Token.isWordChar = true := by
    cases hc : name.getLast? with
    | none => simp [hc] at hl
    | some c => simpa [hc] using hl
  rw [regex, seq_name_iff hn]
  simp [seq, wordEdge, he]

theorem regex_callOpening_iff :
    (callOpening name).regex before t after ↔
      before.getLast?.any Token.isWordChar = false ∧ ∃ b, t = name ++ (b ++ ['(']) ∧ Blank b := by
  rw [regex, seq_name_iff hn]
  simp [seq, many, text, Blank]

theorem regex_emptyCall_iff :
    (emptyCall name).regex before t after ↔
      before.getLast?.any Token.isWordChar = false ∧
        ∃ b₁ b₂, t = name ++ (b₁ ++ '(' :: (b₂ ++ [')'])) ∧ Blank b₁ ∧ Blank b₂ := by
  rw [regex, seq_name_iff hn]
  simp [seq, many, text, Blank]

theorem regex_call_iff {arguments : List Delimited} :
    (call name arguments).regex before t after ↔
      before.getLast?.any Token.isWordChar = false ∧ ∃ b₁ b₂ d body b₃,
        t = name ++ (b₁ ++ '(' :: (b₂ ++ (d.opening :: (body ++ [d.closing]) ++ (b₃ ++ [')'])))) ∧
        Blank b₁ ∧ Blank b₂ ∧
        (d ∈ arguments ∧ d.closing ∉ body ∧ (d.mayBeEmpty ∨ body ≠ [])) ∧ Blank b₃ := by
  rw [regex, seq_name_iff hn]
  simp only [seq, many, text, oneOf, List.mem_map, exists_exists_and_eq_and,
    Delimited.regex_iff, Blank]
  simp

end

theorem findSome?_read?_iff {arguments : List Delimited} {u a rest : Text}
    (hd : (arguments.map (·.opening)).Nodup) :
    arguments.findSome? (·.read? u) = some (a, rest) ↔
      ∃ d ∈ arguments, d.read? u = some (a, rest) := by
  constructor
  · exact List.exists_of_findSome?_eq_some
  · intro h
    obtain ⟨d, hm, hr⟩ := h
    cases hf : arguments.findSome? (·.read? u) with
    | none =>
      rw [List.findSome?_eq_none_iff.1 hf d hm] at hr
      cases hr
    | some found =>
      obtain ⟨e, he, hs⟩ := List.exists_of_findSome?_eq_some hf
      obtain ⟨_, rfl, -, -, h1⟩ := Delimited.read?_eq_some_iff.1 hr
      obtain ⟨_, h3, -, -, h2⟩ := Delimited.read?_eq_some_iff.1 hs
      obtain rfl : d = e := by
        refine List.inj_on_of_nodup_map hd hm he ?_
        rw [h1, h3] at h2
        exact (List.cons.inj h2).1
      exact (hs.symm.trans hr)

variable {pattern : Pattern}

theorem exists_matchAt_iff (hp : pattern.IsPlain = true) (hs : pattern ≠ .slashComment) :
    (∃ a, pattern.matchAt before.getLast? (t ++ after) = some ⟨t, a⟩) ↔
      pattern.regex before t after := by
  cases pattern with
  | slashComment => exact absurd rfl hs
  | literal s =>
    simp only [matchAt, regex, text]
    constructor
    · intro h
      obtain ⟨a, h⟩ := h
      split at h <;> simp_all
    · intro h
      subst h
      exact ⟨[], by simp⟩
  | word name =>
    obtain ⟨hn, hl⟩ := Bool.and_eq_true_iff.1 hp
    simp only [regex_word_iff hn hl, matchAt, Option.bind_eq_some_iff, afterName?_eq_some_iff]
    constructor
    · intro h
      obtain ⟨a, u, ⟨hb, hu⟩, h⟩ := h
      split at h
      · cases h
      · rename_i ha
        obtain ⟨rfl, -⟩ : name = t ∧ _ := by simpa using h
        obtain rfl := List.append_cancel_left hu
        exact ⟨hb, rfl, by simpa using ha⟩
    · intro h
      obtain ⟨hb, rfl, ha⟩ := h
      exact ⟨[], after, ⟨hb, rfl⟩, by simp [ha]⟩
  | callOpening name =>
    simp only [regex_callOpening_iff hp, matchAt, Option.map_eq_some_iff, Prod.exists,
      afterOpening?_eq_some_iff]
    constructor
    · intro h
      obtain ⟨a, opening, v, ⟨hb, b, hk, ho, -⟩, h⟩ := h
      obtain ⟨rfl, -⟩ : opening = t ∧ _ := by simpa using h
      exact ⟨hb, b, ho, hk⟩
    · intro h
      obtain ⟨hb, b, rfl, hk⟩ := h
      exact ⟨[], _, after, ⟨hb, b, hk, rfl, rfl⟩, rfl⟩
  | emptyCall name =>
    simp only [regex_emptyCall_iff hp, matchAt, Option.bind_eq_some_iff, Option.map_eq_some_iff,
      Prod.exists, afterOpening?_eq_some_iff, closing?_eq_some_iff]
    constructor
    · intro h
      obtain ⟨a, opening, v, ⟨hb, b₁, h₁, rfl, -⟩, closing, ⟨b₂, rest, h₂, rfl, rfl⟩, h⟩ := h
      obtain ⟨rfl, -⟩ : _ = t ∧ _ := by simpa using h
      exact ⟨hb, b₁, b₂, rfl, h₁, h₂⟩
    · intro h
      obtain ⟨hb, b₁, b₂, rfl, h₁, h₂⟩ := h
      exact ⟨[], _, b₂ ++ ')' :: after, ⟨hb, b₁, h₁, rfl, by simp⟩, _, ⟨b₂, after, h₂, rfl, by simp⟩,
        by simp⟩
  | call name arguments =>
    obtain ⟨⟨hn, ho⟩, hd⟩ : (_ ∧ _) ∧ _ := by simpa [IsPlain] using hp
    simp only [regex_call_iff hn, matchAt, Option.bind_eq_some_iff, Option.map_eq_some_iff,
      Prod.exists, afterOpening?_eq_some_iff, closing?_eq_some_iff, findSome?_read?_iff hd,
      Delimited.read?_eq_some_iff]
    constructor
    · intro h
      obtain ⟨a, opening, v, ⟨hb, b₁, h₁, rfl, -⟩, argument, w, ⟨d, hm, body, rfl, hc, he, hw⟩,
        closing, ⟨b₃, rest, h₃, rfl, rfl⟩, h⟩ := h
      obtain ⟨rfl, -⟩ : _ = t ∧ _ := by simpa using h
      exact ⟨hb, b₁, _, d, body, b₃, by simp, h₁, blank_takeWhile v, ⟨hm, hc, he⟩, h₃⟩
    · intro h
      obtain ⟨hb, b₁, b₂, d, body, b₃, rfl, h₁, h₂, ⟨hm, hc, he⟩, h₃⟩ := h
      obtain ⟨ht, hw⟩ := (blanks_iff (v := body ++ d.closing :: (b₃ ++ ')' :: after))
        (ho d hm)).2 ⟨h₂, rfl⟩
      refine ⟨d.opening :: (body ++ [d.closing]), _,
        b₂ ++ d.opening :: (body ++ d.closing :: (b₃ ++ ')' :: after)), ⟨hb, b₁, h₁, rfl, ?_⟩, _,
        b₃ ++ ')' :: after, ⟨d, hm, body, rfl, hc, he, ?_⟩, _, ⟨b₃, after, h₃, rfl, ?_⟩, ?_⟩
      · simp
      · simpa using hw
      · simp
      · simp [ht]

theorem regex_slashComment_iff :
    slashComment.regex before t after ↔
      before = [] ∧ t = ['/', '/'] ∨ ∃ c, c ≠ ':' ∧ t = [c, '/', '/'] := by
  simp only [regex, seq, oneOf, lineStart, one, text, List.mem_cons, List.not_mem_nil, or_false,
    exists_eq_or_imp, exists_eq_left]
  constructor
  · intro h
    obtain ⟨u, v, rfl, ⟨rfl, rfl⟩ | ⟨c, hc, rfl⟩, w, x, rfl, rfl, rfl⟩ := h
    · exact .inl ⟨rfl, rfl⟩
    · exact .inr ⟨c, by simpa using hc, rfl⟩
  · intro h
    obtain ⟨rfl, rfl⟩ | ⟨c, hc, rfl⟩ := h
    · exact ⟨[], _, rfl, .inl ⟨rfl, rfl⟩, _, [], rfl, rfl, rfl⟩
    · exact ⟨[c], _, rfl, .inr ⟨c, by simpa using hc, rfl⟩, _, [], rfl, rfl, rfl⟩

theorem regex_of_matchAt (hp : pattern.IsPlain = true) {a : Text}
    (h : pattern.matchAt before.getLast? (t ++ after) = some ⟨t, a⟩) :
    pattern.regex before t after := by
  by_cases hs : pattern = .slashComment
  · subst hs
    rw [regex_slashComment_iff]
    simp only [matchAt] at h
    split at h
    · rename_i hc
      obtain ⟨rfl, -⟩ : ['/', '/'] = t ∧ _ := by simpa using h
      exact .inl ⟨by simpa using (Bool.and_eq_true_iff.1 hc).1, rfl⟩
    · split at h
      · rename_i c u _
        split at h
        · rename_i hc
          obtain ⟨rfl, -⟩ : [c, '/', '/'] = t ∧ _ := by simpa using h
          exact .inr ⟨c, hc.1, rfl⟩
        · cases h
      · cases h
  · exact (exists_matchAt_iff hp hs).1 ⟨a, h⟩

/-- What is in the language is found, but of three slashes at the start of a line the first two
are. -/
theorem matchAt_of_regex (hp : pattern.IsPlain = true) (h : pattern.regex before t after) :
    (∃ a, pattern.matchAt before.getLast? (t ++ after) = some ⟨t, a⟩) ∨
      pattern = .slashComment ∧ before = [] ∧ t = ['/', '/', '/'] ∧
        pattern.matchAt before.getLast? (t ++ after) = some ⟨['/', '/'], []⟩ := by
  by_cases hs : pattern = .slashComment
  · subst hs
    obtain ⟨rfl, rfl⟩ | ⟨c, hc, rfl⟩ := regex_slashComment_iff.1 h
    · exact .inl ⟨[], by simp [matchAt]⟩
    · by_cases hb : before = [] ∧ c = '/'
      · obtain ⟨rfl, rfl⟩ := hb
        exact .inr ⟨rfl, rfl, rfl, by simp [matchAt]⟩
      · refine .inl ⟨[], ?_⟩
        have hn : ¬ (before.getLast?.isNone && ['/', '/'].isPrefixOf ([c, '/', '/'] ++ after)) := by
          intro hh
          obtain ⟨h1, h2⟩ := Bool.and_eq_true_iff.1 hh
          refine hb ⟨by simpa using h1, ?_⟩
          have hc : '/' = c := by simpa using h2
          exact hc.symm
        simp only [matchAt, if_neg hn]
        simp [hc]
  · exact .inl ((exists_matchAt_iff hp hs).2 h)

theorem regex_ne_nil (hp : pattern.IsPlain = true) (h : pattern.regex before t after) :
    t ≠ [] := by
  obtain ⟨a, hm⟩ | ⟨-, -, rfl, -⟩ := matchAt_of_regex hp h
  · have hc := (construct_of_matchAt hm).1
    cases hc with
    | literal => simpa [IsPlain] using hp
    | word =>
      rintro rfl
      simp [IsPlain] at hp
    | slashesFirst | slashes | callOpening | emptyCall | call => simp
  · simp

variable {line : Text} {s e e' : Nat}

theorem Spans.lt (hp : pattern.IsPlain = true) (h : pattern.Spans line s e) :
    s < e ∧ e ≤ line.length := by
  obtain ⟨before, t, after, rfl, rfl, rfl, h⟩ := h
  have ht := List.length_pos_iff.2 (regex_ne_nil hp h)
  simp only [List.length_append]
  omega

theorem Spans.slashes_of_lt (hp : pattern.IsPlain = true) (h : pattern.Spans line s e)
    (k : pattern.Spans line s e') (hlt : e < e') :
    pattern = .slashComment ∧ s = 0 ∧ e = 2 ∧ e' = 3 := by
  obtain ⟨before, t, after, rfl, rfl, rfl, h⟩ := h
  obtain ⟨before', t', after', hl, hb, rfl, k⟩ := k
  obtain ⟨rfl, ht⟩ := List.append_inj hl hb
  have hk := matchAt_of_regex hp k
  rw [← ht] at hk
  obtain ⟨a, hm⟩ | ⟨rfl, rfl, rfl, hm⟩ := matchAt_of_regex hp h
  · rw [hm] at hk
    obtain ⟨a', hk⟩ | ⟨rfl, rfl, rfl, hk⟩ := hk
    · obtain ⟨rfl, -⟩ := Capture.mk.inj (Option.some.inj hk)
      omega
    · obtain ⟨rfl, -⟩ := Capture.mk.inj (Option.some.inj hk)
      exact ⟨rfl, rfl, rfl, rfl⟩
  · rw [hm] at hk
    obtain ⟨a', hk⟩ | ⟨-, -, rfl, -⟩ := hk
    · obtain ⟨rfl, -⟩ := Capture.mk.inj (Option.some.inj hk)
      simp at hlt
    · omega

end Pattern

theorem Leftmost.widen {spans : Nat → Nat → Prop} {p : Nat} {l : List (Nat × Nat)}
    (h : Leftmost spans (p + 1) l) (hn : ∀ e, ¬ spans p e) : Leftmost spans p l := by
  have later {s e : Nat} (hs : p ≤ s) (hse : spans s e) : p + 1 ≤ s := by
    by_contra hc
    obtain rfl : s = p := by omega
    exact hn e hse
  cases h with
  | done hd => exact .done fun s e hs h => hd s e (later hs h) h
  | next hs h hl hm hr =>
    exact .next (by omega) h (fun s' e' hs' hlt h' => hl s' e' (later hs' h') hlt h') hm hr

def Match.span (found : Match) : Nat × Nat := (found.start, found.stop)

namespace Pattern
variable {pattern : Pattern} {before rest : Text}

theorem spans_of_matchAt (hp : pattern.IsPlain = true) {capture : Capture}
    (h : pattern.matchAt before.getLast? rest = some capture) :
    pattern.Spans (before ++ rest) before.length (before.length + capture.matched.length) ∧
      ∀ e, pattern.Spans (before ++ rest) before.length e →
        before.length + capture.matched.length ≤ e := by
  obtain ⟨-, after, rfl⟩ := construct_of_matchAt h
  refine ⟨⟨before, _, after, rfl, rfl, rfl, regex_of_matchAt hp h⟩, ?_⟩
  intro e hs
  obtain ⟨before', t, after', hl, hb, rfl, hr⟩ := hs
  obtain ⟨rfl, ht⟩ := List.append_inj hl hb
  have hm := matchAt_of_regex hp hr
  rw [← ht, h] at hm
  obtain ⟨a, hm⟩ | ⟨-, -, rfl, hm⟩ := hm
  · obtain rfl := Option.some.inj hm
    exact le_refl _
  · obtain rfl := Option.some.inj hm
    simp

theorem not_spans_of_matchAt (hp : pattern.IsPlain = true)
    (h : pattern.matchAt before.getLast? rest = none) (e : Nat) :
    ¬ pattern.Spans (before ++ rest) before.length e := by
  intro hs
  obtain ⟨before', t, after, hl, hb, -, hr⟩ := hs
  obtain ⟨rfl, rfl⟩ := List.append_inj hl hb
  obtain ⟨a, hm⟩ | ⟨-, -, -, hm⟩ := matchAt_of_regex hp hr
  · rw [h] at hm
    cases hm
  · rw [h] at hm
    cases hm

theorem leftmost_matchesFrom (hp : pattern.IsPlain = true) (before rest : Text) (skip : Nat) :
    Leftmost (pattern.Spans (before ++ rest)) (before.length + skip)
      ((pattern.matchesFrom before.length before.getLast? skip rest).map Match.span) := by
  induction rest generalizing before skip with
  | nil =>
    have hd : ∀ s e, before.length + skip ≤ s → ¬ pattern.Spans (before ++ []) s e := by
      intro s e hs h
      have hl := h.lt hp
      simp only [List.append_nil] at hl
      omega
    have hm : pattern.matchAt before.getLast? [] = none := by
      cases hm : pattern.matchAt before.getLast? [] with
      | none => rfl
      | some capture =>
        have hl := (spans_of_matchAt hp hm).1.lt hp
        simp only [List.append_nil] at hl
        omega
    simpa [matchesFrom, hm] using Leftmost.done hd
  | cons c rest ih =>
    have behind (k : Nat) : Leftmost (pattern.Spans (before ++ c :: rest))
        (before.length + (k + 1))
        ((pattern.matchesFrom (before.length + 1) (some c) k rest).map Match.span) := by
      have h := ih (before ++ [c]) k
      have hn : before.length + (k + 1) = (before ++ [c]).length + k := by simp; omega
      rw [hn]
      simpa using h
    rw [matchesFrom.eq_def]
    dsimp only
    split
    · exact behind _
    · split
      · rename_i hm
        exact (behind 0).widen (not_spans_of_matchAt hp hm)
      · rename_i capture hm
        obtain ⟨hs, hmin⟩ := spans_of_matchAt hp hm
        have hlt := (hs.lt hp).1
        have hn : capture.matched.length - 1 + 1 = capture.matched.length := by omega
        have hr := behind (capture.matched.length - 1)
        rw [hn] at hr
        exact .next (le_refl _) hs (fun s' e' hs' hlt' => absurd hs' (not_le.2 hlt')) hmin hr

theorem leftmost_matchesIn (hp : pattern.IsPlain = true) (line : Text) :
    Leftmost (pattern.Spans line) 0 ((pattern.matchesIn line).map Match.span) :=
  leftmost_matchesFrom hp [] line 0

theorem regex_of_mem_matchesIn (hp : pattern.IsPlain = true) {line : Text} {found : Match}
    (h : found ∈ pattern.matchesIn line) :
    ∃ before after, line = before ++ (found.capture.matched ++ after) ∧
      found.start = before.length ∧ pattern.regex before found.capture.matched after := by
  obtain ⟨before, rest, rfl, hs, -, hm⟩ := exists_of_mem_matchesFrom h
  rw [Option.or_none] at hm
  obtain ⟨-, after, rfl⟩ := construct_of_matchAt hm
  exact ⟨before, after, rfl, by omega, regex_of_matchAt hp hm⟩

end Pattern

theorem Leftmost.exists_overlapping {spans : Nat → Nat → Prop} {p s e : Nat}
    {l : List (Nat × Nat)} (h : Leftmost spans p l) (hp : p ≤ s) (hs : spans s e) (hlt : s < e) :
    ∃ x ∈ l, s < x.2 ∧ x.1 < e := by
  induction h with
  | done hd => exact absurd hs (hd s e hp)
  | @next p s₀ e₀ rest _ _ hl _ _ ih =>
    by_cases h₀ : s < s₀
    · exact absurd hs (hl s e hp h₀)
    · by_cases he : s < e₀
      · exact ⟨(s₀, e₀), List.mem_cons_self, he, by simp only; omega⟩
      · obtain ⟨x, hx, hov⟩ := ih (not_lt.1 he)
        exact ⟨x, List.mem_cons_of_mem _ hx, hov⟩

end QueryTidy.Migration

import Mathlib.Data.List.Basic
import Mathlib.Data.List.TakeWhile
import QueryTidy.Migration.Pattern

/-! What a pattern finds, and where on the line it stands. Main statements: `construct_of_matchAt`,
`exists_of_mem_matchesIn`, `stop_lt_stop`. -/
namespace QueryTidy.Migration

def Blank (t : Text) : Prop := ∀ c ∈ t, isSpace c = true

/-- In `Construct pattern matched argument`, the text `matched` has the form of the pattern and
`argument` is the argument in it. -/
inductive Construct : Pattern → Text → Text → Prop
  | literal {text} : Construct (.literal text) text []
  | word {name} : Construct (.word name) name []
  | slashesFirst : Construct .slashComment ['/', '/'] []
  | slashes {c} : Construct .slashComment [c, '/', '/'] []
  | callOpening {name b} : Blank b → Construct (.callOpening name) (name ++ (b ++ ['('])) []
  | emptyCall {name b₁ b₂} : Blank b₁ → Blank b₂ →
      Construct (.emptyCall name) (name ++ (b₁ ++ '(' :: (b₂ ++ [')']))) []
  | call {name arguments d body b₁ b₂ b₃} : d ∈ arguments → d.closing ∉ body →
      Blank b₁ → Blank b₂ → Blank b₃ →
      Construct (.call name arguments)
        (name ++ (b₁ ++ '(' :: (b₂ ++ (d.opening :: (body ++ [d.closing]) ++ (b₃ ++ [')'])))))
        (d.opening :: (body ++ [d.closing]))

theorem construct_emptyCall_iff {name t a : Text} :
    Construct (.emptyCall name) t a ↔
      ∃ b₁ b₂, Blank b₁ ∧ Blank b₂ ∧ t = name ++ (b₁ ++ '(' :: (b₂ ++ [')'])) ∧ a = [] := by
  constructor
  · intro h
    cases h with
    | emptyCall h₁ h₂ => exact ⟨_, _, h₁, h₂, rfl, rfl⟩
  · intro h
    obtain ⟨b₁, b₂, h₁, h₂, rfl, rfl⟩ := h
    exact .emptyCall h₁ h₂

theorem construct_call_iff {name t a : Text} {arguments : List Delimited} :
    Construct (.call name arguments) t a ↔
      ∃ d ∈ arguments, ∃ body b₁ b₂ b₃, d.closing ∉ body ∧ Blank b₁ ∧ Blank b₂ ∧ Blank b₃ ∧
        t = name ++ (b₁ ++ '(' :: (b₂ ++ (a ++ (b₃ ++ [')'])))) ∧
        a = d.opening :: (body ++ [d.closing]) := by
  constructor
  · intro h
    cases h with
    | call hd hb h₁ h₂ h₃ => exact ⟨_, hd, _, _, _, _, hb, h₁, h₂, h₃, rfl, rfl⟩
  · intro h
    obtain ⟨d, hd, body, b₁, b₂, b₃, hb, h₁, h₂, h₃, rfl, rfl⟩ := h
    exact .call hd hb h₁ h₂ h₃

theorem blank_takeWhile (t : Text) : Blank (t.takeWhile isSpace) :=
  fun _ h => List.mem_takeWhile_imp h

theorem blanks_iff {t b v : Text} {c : Char} (hc : isSpace c = false) :
    t.takeWhile isSpace = b ∧ t.dropWhile isSpace = c :: v ↔ Blank b ∧ t = b ++ c :: v := by
  constructor
  · intro h
    obtain ⟨rfl, hv⟩ := h
    refine ⟨blank_takeWhile t, ?_⟩
    rw [← hv, List.takeWhile_append_dropWhile]
  · intro h
    obtain ⟨hb, rfl⟩ := h
    have hcv : (c :: v).takeWhile isSpace = [] ∧ (c :: v).dropWhile isSpace = c :: v := by
      simp [hc]
    rw [List.takeWhile_append_of_pos hb, List.dropWhile_append_of_pos hb, hcv.1, hcv.2]
    simp

namespace Delimited

theorem read?_eq_some_iff {d : Delimited} {t argument rest : Text} :
    d.read? t = some (argument, rest) ↔
      ∃ body, argument = d.opening :: (body ++ [d.closing]) ∧ d.closing ∉ body ∧
        (d.mayBeEmpty ∨ body ≠ []) ∧ t = argument ++ rest := by
  constructor
  · intro h
    cases t with
    | nil => simp [read?] at h
    | cons c t =>
      have hw := List.takeWhile_append_dropWhile (p := (· != d.closing)) (l := t)
      have hb : d.closing ∉ t.takeWhile (· != d.closing) := by
        intro hm
        simpa using List.mem_takeWhile_imp hm
      have he := List.head?_dropWhile_not (· != d.closing) t
      simp only [read?] at h
      split at h
      · cases h
      · rename_i e rest' hd
        rw [hd] at hw he
        obtain rfl : e = d.closing := by simpa using he
        split at h
        · rename_i hc
          obtain ⟨rfl, rfl⟩ : _ ∧ _ := by simpa using h
          obtain ⟨rfl, hm⟩ := hc
          refine ⟨_, rfl, hb, hm, ?_⟩
          simpa using hw.symm
        · cases h
  · intro h
    obtain ⟨body, rfl, hb, hm, rfl⟩ := h
    have hall : ∀ c ∈ body, (c != d.closing) = true := by
      intro c hc
      simpa using ne_of_mem_of_not_mem hc hb
    have ht : (body ++ d.closing :: rest).takeWhile (· != d.closing) = body := by
      rw [List.takeWhile_append_of_pos hall]
      simp
    have hd : (body ++ d.closing :: rest).dropWhile (· != d.closing) = d.closing :: rest := by
      rw [List.dropWhile_append_of_pos hall]
      simp
    simp [read?, ht, hd, hm]

end Delimited

namespace Pattern

variable {pattern : Pattern} {name t : Text} {previous : Option Char} {capture : Capture}

theorem afterName?_eq_some_iff {u : Text} :
    afterName? name previous t = some u ↔
      previous.any Token.isWordChar = false ∧ t = name ++ u := by
  rw [afterName?]
  split
  · rename_i hp
    simp [hp]
  · rename_i hp
    rw [Bool.not_eq_true] at hp
    rw [List.isPrefixOf?_eq_some_iff_append_eq, hp, eq_comm, eq_self, true_and]

theorem afterOpening?_eq_some_iff {opening v : Text} :
    afterOpening? name previous t = some (opening, v) ↔
      previous.any Token.isWordChar = false ∧
        ∃ b, Blank b ∧ opening = name ++ (b ++ ['(']) ∧ t = opening ++ v := by
  rw [afterOpening?, Option.bind_eq_some_iff]
  constructor
  · intro h
    obtain ⟨u, hu, h⟩ := h
    obtain ⟨hp, rfl⟩ := afterName?_eq_some_iff.1 hu
    split at h
    · rename_i v' hv
      obtain ⟨rfl, rfl⟩ : _ ∧ _ := by simpa using h
      obtain ⟨hb, hu⟩ := (blanks_iff rfl).1 ⟨rfl, hv⟩
      refine ⟨hp, _, hb, by simp, ?_⟩
      simpa using hu
    · cases h
  · intro h
    obtain ⟨hp, b, hb, rfl, rfl⟩ := h
    obtain ⟨h1, h2⟩ := (blanks_iff (v := v) (by rfl : isSpace '(' = false)).2 ⟨hb, rfl⟩
    refine ⟨b ++ '(' :: v, afterName?_eq_some_iff.2 ⟨hp, by simp⟩, ?_⟩
    simp only [h1, h2, List.append_assoc]

theorem closing?_eq_some_iff {closing : Text} :
    closing? t = some closing ↔
      ∃ b rest, Blank b ∧ closing = b ++ [')'] ∧ t = closing ++ rest := by
  rw [closing?]
  constructor
  · intro h
    split at h
    · rename_i rest hv
      obtain rfl : _ = closing := by simpa using h
      obtain ⟨hb, ht⟩ := (blanks_iff rfl).1 ⟨rfl, hv⟩
      refine ⟨_, rest, hb, rfl, ?_⟩
      simpa using ht
    · cases h
  · intro h
    obtain ⟨b, rest, hb, rfl, rfl⟩ := h
    obtain ⟨h1, h2⟩ := (blanks_iff (v := rest) (by rfl : isSpace ')' = false)).2 ⟨hb, rfl⟩
    simp [h1, h2]

theorem construct_of_matchAt (h : pattern.matchAt previous t = some capture) :
    Construct pattern capture.matched capture.argument ∧ ∃ rest, t = capture.matched ++ rest := by
  cases pattern with
  | literal text =>
    simp only [matchAt] at h
    split at h
    · rename_i hp
      obtain rfl := Option.some.inj h
      obtain ⟨rest, rfl⟩ := List.isPrefixOf_iff_prefix.1 hp
      exact ⟨.literal, rest, rfl⟩
    · cases h
  | word name =>
    obtain ⟨u, hu, h⟩ := Option.bind_eq_some_iff.1 h
    split at h
    · cases h
    · obtain rfl := Option.some.inj h
      exact ⟨.word, u, (afterName?_eq_some_iff.1 hu).2⟩
  | slashComment =>
    simp only [matchAt] at h
    split at h
    · rename_i hp
      obtain rfl := Option.some.inj h
      obtain ⟨rest, rfl⟩ := List.isPrefixOf_iff_prefix.1 (Bool.and_eq_true_iff.1 hp).2
      exact ⟨.slashesFirst, rest, rfl⟩
    · split at h
      · rename_i c u _
        split at h
        · rename_i hc
          obtain rfl := Option.some.inj h
          obtain ⟨rest, rfl⟩ := List.isPrefixOf_iff_prefix.1 hc.2
          exact ⟨.slashes, rest, rfl⟩
        · cases h
      · cases h
  | callOpening name =>
    obtain ⟨⟨opening, v⟩, ho, rfl⟩ := Option.map_eq_some_iff.1 h
    obtain ⟨-, b, hb, rfl, rfl⟩ := afterOpening?_eq_some_iff.1 ho
    exact ⟨.callOpening hb, v, rfl⟩
  | emptyCall name =>
    obtain ⟨⟨opening, v⟩, ho, h⟩ := Option.bind_eq_some_iff.1 h
    obtain ⟨closing, hc, rfl⟩ := Option.map_eq_some_iff.1 h
    obtain ⟨-, b₁, h₁, rfl, rfl⟩ := afterOpening?_eq_some_iff.1 ho
    obtain ⟨b₂, rest, h₂, rfl, rfl⟩ := closing?_eq_some_iff.1 hc
    have hc : Construct (.emptyCall name) _ [] := .emptyCall h₁ h₂
    exact ⟨by simpa using hc, rest, by simp⟩
  | call name arguments =>
    obtain ⟨⟨opening, v⟩, ho, h⟩ := Option.bind_eq_some_iff.1 h
    obtain ⟨⟨argument, w⟩, ha, h⟩ := Option.bind_eq_some_iff.1 h
    obtain ⟨closing, hc, rfl⟩ := Option.map_eq_some_iff.1 h
    obtain ⟨-, b₁, h₁, rfl, rfl⟩ := afterOpening?_eq_some_iff.1 ho
    obtain ⟨b₃, rest, h₃, rfl, rfl⟩ := closing?_eq_some_iff.1 hc
    obtain ⟨d, hd, hr⟩ := List.exists_of_findSome?_eq_some ha
    obtain ⟨body, rfl, hb, -, hw⟩ := Delimited.read?_eq_some_iff.1 hr
    have hv := List.takeWhile_append_dropWhile (p := isSpace) (l := v)
    rw [hw] at hv
    have hc : Construct (.call name arguments) _ _ := .call hd hb h₁ (blank_takeWhile v) h₃
    exact ⟨by simpa using hc, rest, by simpa using hv.symm⟩

/-- Each match is found behind what stands in front of it. -/
theorem exists_of_mem_matchesFrom {index skip : Nat} {found : Match}
    (h : found ∈ pattern.matchesFrom index previous skip t) :
    ∃ u v, t = u ++ v ∧ found.start = index + u.length ∧ skip ≤ u.length ∧
      pattern.matchAt (u.getLast?.or previous) v = some found.capture := by
  induction t generalizing index previous skip with
  | nil =>
    rw [matchesFrom] at h
    split at h
    · rename_i hs
      have hm : ∃ a, pattern.matchAt previous [] = some a ∧ ⟨index, a⟩ = found := by simpa using h
      obtain ⟨capture, hc, rfl⟩ := hm
      exact ⟨[], [], rfl, rfl, by omega, by simpa using hc⟩
    · cases h
  | cons c t ih =>
    -- Behind `c`, a match stands behind what is passed on the way to it.
    have behind (k : Nat) (h : found ∈ pattern.matchesFrom (index + 1) (some c) k t) :
        ∃ u v, c :: t = u ++ v ∧ found.start = index + u.length ∧ k + 1 ≤ u.length ∧
          pattern.matchAt (u.getLast?.or previous) v = some found.capture := by
      obtain ⟨u, v, rfl, hs, hk, hm⟩ := ih h
      refine ⟨c :: u, v, rfl, by simp; omega, by simpa using hk, ?_⟩
      cases u with
      | nil => simpa using hm
      | cons d u =>
        have hd := List.getLast?_eq_some_getLast (List.cons_ne_nil d u)
        rw [hd] at hm
        rw [List.getLast?_cons_cons, hd]
        exact hm
    rw [matchesFrom.eq_def] at h
    dsimp only at h
    split at h
    · rename_i k
      exact behind k h
    · split at h
      · obtain ⟨u, v, hu, hs, -, hm⟩ := behind 0 h
        exact ⟨u, v, hu, hs, by omega, hm⟩
      · rename_i capture hc
        obtain rfl | h := List.mem_cons.1 h
        · exact ⟨[], c :: t, rfl, rfl, Nat.le_refl 0, by simpa using hc⟩
        · obtain ⟨u, v, hu, hs, -, hm⟩ := behind _ h
          exact ⟨u, v, hu, hs, by omega, hm⟩

theorem exists_of_mem_matchesIn {line : Text} {found : Match}
    (h : found ∈ pattern.matchesIn line) :
    ∃ u rest, line = u ++ (found.capture.matched ++ rest) ∧ found.start = u.length ∧
      Construct pattern found.capture.matched found.capture.argument := by
  obtain ⟨u, v, rfl, hs, -, hm⟩ := exists_of_mem_matchesFrom h
  obtain ⟨hc, rest, rfl⟩ := construct_of_matchAt hm
  exact ⟨u, rest, rfl, by omega, hc⟩

end Pattern

def Match.stop (found : Match) : Nat := found.start + found.capture.matched.length

theorem Construct.ne_nil {pattern : Pattern} {s t a b : Text} (h : Construct pattern s a)
    (k : Construct pattern t b) (hs : s ≠ []) : t ≠ [] := by
  cases k with
  | literal => cases h; exact hs
  | word => cases h; exact hs
  | slashesFirst | slashes | callOpening | emptyCall | call => simp

namespace Pattern

theorem stop_lt_stop_from (pattern : Pattern) (index : Nat) (previous : Option Char) (skip : Nat)
    (t : Text) :
    (pattern.matchesFrom index previous skip t).Pairwise fun m n => m.stop < n.stop := by
  induction t generalizing index previous skip with
  | nil =>
    rw [matchesFrom]
    split
    · cases pattern.matchAt previous [] <;> simp
    · exact .nil
  | cons c t ih =>
    rw [matchesFrom.eq_def]
    dsimp only
    split
    · exact ih _ _ _
    · split
      · exact ih _ _ _
      · rename_i capture hc
        refine List.pairwise_cons.2 ⟨?_, ih _ _ _⟩
        intro later hl
        obtain ⟨u, v, -, hs, hk, hm⟩ := exists_of_mem_matchesFrom hl
        have hf := (construct_of_matchAt hc).1
        have hg := (construct_of_matchAt hm).1
        simp only [Match.stop]
        by_cases he : capture.matched = []
        · rw [he, List.length_nil]
          omega
        · have hp := List.length_pos_iff.2 he
          have hq := List.length_pos_iff.2 (hf.ne_nil hg he)
          omega

theorem stop_lt_stop (pattern : Pattern) (line : Text) :
    (pattern.matchesIn line).Pairwise fun m n => m.stop < n.stop :=
  stop_lt_stop_from pattern 0 none 0 line

end Pattern
end QueryTidy.Migration

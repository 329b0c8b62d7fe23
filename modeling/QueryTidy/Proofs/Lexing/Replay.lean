import QueryTidy.Proofs.Lexing.Sessions
import QueryTidy.Proofs.Lexing.Slashes

/-! Reading a source again from a place that was marked. The token read last before is not marked
with the place, and it matters only to a slash that may open a regular expression. Main statement:
`rest_eq_rest_iff`. -/
namespace QueryTidy.Token

/-- A closed regular expression stands at the head of the text, and no comment does. -/
def StartsRegex (t : Text) : Prop := ¬ ['/', '*'] <+: t ∧ ∃ x, RegexLiteral x ∧ x <+: t

def UnescapedSlash (t : Text) : Prop :=
  ∃ x n rest, t = x ++ (List.replicate (2 * n) '\\' ++ '/' :: rest) ∧ '\n' ∉ x ∧
    x.getLast? ≠ some '\\'

variable {previous previous' : Option Token} {c : Char} {t x : Text}

theorem InRegex.exists_pairs (h : InRegex x) :
    ∃ y n, x = y ++ List.replicate (2 * n) '\\' ∧ y.getLast? ≠ some '\\' := by
  induction h with
  | nil => exact ⟨[], 0, rfl, by simp⟩
  | @single c t hc _ ih =>
    obtain ⟨y, n, rfl, hy⟩ := ih
    refine ⟨c :: y, n, rfl, ?_⟩
    cases y with
    | nil =>
      have hb : c ≠ '\\' := by simp_all
      simpa using hb
    | cons d y => simpa using hy
  | @pair c t _ _ ih =>
    obtain ⟨y, n, rfl, hy⟩ := ih
    by_cases hp : y = [] ∧ c = '\\'
    · obtain ⟨rfl, rfl⟩ := hp
      exact ⟨[], n + 1, rfl, by simp⟩
    · refine ⟨'\\' :: c :: y, n, rfl, ?_⟩
      cases y with
      | nil => simpa using hp
      | cons d y => simpa using hy

theorem slashAhead_pairs (n : Nat) (t : Text) :
    slashAhead false (List.replicate (2 * n) '\\' ++ t) = slashAhead false t := by
  induction n with
  | zero => rfl
  | succ n ih =>
    have hr : List.replicate (2 * (n + 1)) '\\' = '\\' :: '\\' :: List.replicate (2 * n) '\\' := rfl
    rw [hr]
    simpa [slashAhead] using ih

theorem slashAhead_of_slashState {s : Bool} (h : slashState s x = none) (hn : '\n' ∉ x) :
    slashAhead s x = true := by
  fun_induction slashState s x <;> simp_all [slashAhead]

theorem unescapedSlash_iff : UnescapedSlash t ↔ slashAhead false t = true := by
  constructor
  · rintro ⟨x, n, rest, rfl, hn, hl⟩
    -- The search stops in `x`, which has no line break, or comes out of it with nothing to skip.
    cases hs : slashState false x with
    | none =>
      rw [slashAhead_append_of_none hs]
      exact slashAhead_of_slashState hs hn
    | some s =>
      have hf : s = false := by
        by_contra hs'
        rw [Bool.not_eq_false] at hs'
        subst hs'
        have hx : x ≠ [] := by
          rintro rfl
          cases hs
        exact hl (getLast_of_slashState hx hs)
      rw [slashAhead_append_of_some hs, hf, slashAhead_pairs]
      simp [slashAhead]
  · intro h
    obtain ⟨x, rest, hx, rfl⟩ := slashAhead_iff.1 h
    have hn := hx.inString.2
    obtain ⟨y, n, rfl, hy⟩ := hx.exists_pairs
    exact ⟨y, n, rest, by simp, fun hm => hn (List.mem_append_left _ hm), hy⟩

theorem startsRegex_cons_iff :
    StartsRegex (c :: t) ↔ c = '/' ∧ t.head? ≠ some '*' ∧ slashAhead false t = true := by
  have hh : ['*'] <+: t ↔ t.head? = some '*' := by cases t <;> simp [eq_comm]
  constructor
  · rintro ⟨hs, x, ⟨y, hy, rfl⟩, rest, hr⟩
    obtain ⟨rfl, ht⟩ := List.cons.inj hr
    refine ⟨rfl, by simpa [hh] using hs, slashAhead_iff.2 ⟨y, rest, hy, ?_⟩⟩
    simpa using ht.symm
  · rintro ⟨rfl, hs, ha⟩
    obtain ⟨y, rest, hy, rfl⟩ := slashAhead_iff.1 ha
    exact ⟨by simpa [hh] using hs, _, ⟨y, hy, rfl⟩, rest, by simp⟩

/-- Away from regular expressions, every token is read as if none might start. -/
theorem lexeme_of_not_startsRegex (h : ¬ StartsRegex (c :: t)) (allowed : Bool) :
    lexeme allowed c t = lexeme false c t := by
  by_cases hc : c = '/'
  · subst hc
    by_cases hs : t.head? = some '*'
    · simp [lexeme, hs, isBlank]
    · have hn : regexTail? t = none := by
        apply (regexTail?_eq_none_iff t).2
        simpa [startsRegex_cons_iff, hs] using h
      rw [lexeme_slash _ hs, lexeme_slash _ hs, hn]
      cases allowed <;> rfl
  · have hp (u : Text) : lexeme.plain allowed c u = lexeme.plain false c u := by
      simp [lexeme.plain, hc]
    simp [lexeme, hp]

theorem kind_first_iff (h : StartsRegex (c :: t)) :
    (first previous c t).kind = .regex ↔ allowsRegex previous = true := by
  obtain ⟨rfl, hs, -⟩ := startsRegex_cons_iff.1 h
  rw [kind_first_slash hs]
  exact and_iff_left h.2

theorem lexFrom_eq_lexFrom_iff :
    lexFrom previous t = lexFrom previous' t ↔
      allowsRegex previous = allowsRegex previous' ∨ ¬ StartsRegex t := by
  constructor
  · intro h
    by_cases hs : StartsRegex t
    · left
      cases t with
      | nil =>
        obtain ⟨-, x, ⟨y, -, rfl⟩, hp⟩ := hs
        simp at hp
      | cons c t =>
        rw [lexFrom, lexFrom] at h
        have hf := (List.cons.inj h).1
        rw [Bool.eq_iff_iff, ← kind_first_iff hs, ← kind_first_iff hs, hf]
    · exact .inr hs
  · intro h
    cases t with
    | nil => simp [lexFrom]
    | cons c t =>
      have hl : lexeme (allowsRegex previous) c t = lexeme (allowsRegex previous') c t := by
        rcases h with h | h
        · rw [h]
        · rw [lexeme_of_not_startsRegex h, lexeme_of_not_startsRegex h (allowsRegex previous')]
      rw [lexFrom, lexFrom]
      simp only [first, afterFirst, hl]

namespace Session

/-- Two readings from one place give the same tokens unless a closed regular expression stands
there and only one of them may read it. So does a reading from a marked place and one that has
come back there after any steps. -/
theorem rest_eq_rest_iff (source : Text) (p start start' : Nat)
    (previous previous' : Option Token) :
    ((rest ⟨source, p, start, previous⟩).1 = (rest ⟨source, p, start', previous'⟩).1 ↔
      allowsRegex previous = allowsRegex previous' ∨ ¬ StartsRegex (source.drop p)) ∧
      (¬ StartsRegex (source.drop p) ↔
        source[p]? ≠ some '/' ∨ source[p + 1]? = some '*' ∨
          ¬ UnescapedSlash (source.drop (p + 1))) ∧
      ∀ (s : Session) (steps : List Step),
        ((s.run steps).returnTo s.mark).rest.1 = s.rest.1 ↔
          allowsRegex (s.run steps).previous = allowsRegex s.previous ∨
            ¬ StartsRegex (s.source.drop s.position) := by
  refine ⟨?_, ?_, ?_⟩
  · rw [(rest_eq _).1, (rest_eq _).1]
    exact lexFrom_eq_lexFrom_iff
  · have hh : (source.drop p).head? = source[p]? := List.head?_drop
    have ht : (source.drop p).tail = source.drop (p + 1) := List.tail_drop
    have hn : (source.drop (p + 1)).head? = source[p + 1]? := List.head?_drop
    rw [unescapedSlash_iff, ← hn, ← hh, ← ht]
    cases source.drop p with
    | nil => simp [StartsRegex, RegexLiteral]
    | cons c t =>
      simp only [startsRegex_cons_iff, List.head?_cons, List.tail_cons, ne_eq, Option.some.injEq]
      tauto
  · intro s steps
    rw [(rest_eq _).1, (rest_eq _).1]
    change lexFrom _ ((s.run steps).source.drop s.position) = _ ↔ _
    rw [source_run]
    exact lexFrom_eq_lexFrom_iff

end Session
end QueryTidy.Token

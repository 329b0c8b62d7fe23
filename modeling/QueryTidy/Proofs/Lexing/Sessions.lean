import QueryTidy.Token.Session
import QueryTidy.Proofs.Lexing.Reading

/-! Reading a source in any order of steps loses nothing of it. Main statement:
`run_lossless`. -/
namespace QueryTidy.Token.Session

/-- What can be done with a session. A mark to return to may be any, not only one that was
taken. -/
inductive Step where
  | next
  | rest
  | mark
  | returnTo (mark : Mark)
deriving DecidableEq, Repr

def perform (s : Session) : Step → Session
  | .next => s.next.2
  | .rest => s.rest.2
  | .mark => s
  | .returnTo mark => s.returnTo mark

def run (s : Session) : List Step → Session
  | [] => s
  | step :: steps => (s.perform step).run steps

/-- The token is the piece of the source from `p` to `q`. -/
structure Cuts (source : Text) (p q : Nat) (token : Token) : Prop where
  advances : p < q
  inside : q ≤ source.length
  piece : token.text = source.extract p q

variable {s : Session}

theorem next_at_end (h : s.source.length ≤ s.position) : s.next = (none, s) := by
  have hd : s.source.drop s.position = [] := List.drop_eq_nil_of_le h
  simp [next, hd]

theorem next_before_end (h : s.position < s.source.length) :
    ∃ c t, s.source.drop s.position = c :: t ∧
      s.next = (some (first s.previous c t),
        ⟨s.source, s.position + (first s.previous c t).text.length, s.position,
          some (first s.previous c t)⟩) := by
  have hd : s.source.drop s.position ≠ [] := by
    simp only [ne_eq, List.drop_eq_nil_iff]
    omega
  obtain ⟨c, t, hc⟩ := List.exists_cons_of_ne_nil hd
  refine ⟨c, t, hc, ?_⟩
  simp [next, hc]

theorem drop_behind_first {p : Nat} {source t : Text} {c : Char} (previous : Option Token)
    (hd : source.drop p = c :: t) :
    source.drop (p + (first previous c t).text.length) = afterFirst previous c t := by
  rw [← List.drop_drop, hd, ← first_append_afterFirst previous c t, List.drop_left]

theorem cuts_first {p : Nat} {source t : Text} {c : Char} (previous : Option Token)
    (hd : source.drop p = c :: t) :
    Cuts source p (p + (first previous c t).text.length) (first previous c t) where
  advances := by
    simp [first]
  inside := by
    have hl := congrArg List.length hd
    have ha := congrArg List.length (first_append_afterFirst previous c t)
    simp only [List.length_drop, List.length_cons, List.length_append] at hl ha
    omega
  piece := by
    rw [List.extract_eq_take_drop, hd, ← first_append_afterFirst previous c t]
    simp

theorem lt_of_next {token : Token} (h : s.next.1 = some token) : s.position < s.source.length := by
  by_cases hl : s.position < s.source.length
  · exact hl
  · rw [next_at_end (by omega)] at h
    cases h

theorem rest_eq (s : Session) :
    s.rest.1 = lexFrom s.previous (s.source.drop s.position) ∧
      s.rest.2.source = s.source ∧ s.rest.2.position = max s.position s.source.length := by
  fun_induction rest s with
  | case1 s h =>
    have hl : s.source.length ≤ s.position := by
      by_cases hl : s.position < s.source.length
      · obtain ⟨c, t, -, hn⟩ := next_before_end hl
        simp [hn] at h
      · omega
    simp [List.drop_eq_nil_of_le hl, lexFrom]
    omega
  | case2 s token h tokens after hr ih =>
    obtain ⟨c, t, hd, hn⟩ := next_before_end (lt_of_next h)
    have hc := cuts_first s.previous hd
    rw [hn] at h hr ih
    rw [hr] at ih
    obtain rfl : first s.previous c t = token := Option.some.inj h
    obtain ⟨h1, h2, h3⟩ := ih
    simp only [drop_behind_first s.previous hd] at h1 h3
    refine ⟨?_, h2, ?_⟩
    · rw [hd, lexFrom, h1]
    · have ha := hc.advances
      have hi := hc.inside
      change after.position = _
      omega

theorem source_perform (s : Session) (step : Step) : (s.perform step).source = s.source := by
  cases step with
  | next =>
    by_cases h : s.position < s.source.length
    · obtain ⟨c, t, -, hn⟩ := next_before_end h
      simp [perform, hn]
    · simp [perform, next_at_end (Nat.le_of_not_lt h)]
  | rest => exact (rest_eq s).2.1
  | mark => rfl
  | returnTo mark => rfl

theorem source_run (s : Session) (steps : List Step) : (s.run steps).source = s.source := by
  induction steps generalizing s with
  | nil => rfl
  | cons step steps ih => rw [run, ih, source_perform]

theorem text_ne_nil_of_mem_lexFrom (previous : Option Token) (t : Text) :
    [] ∉ (lexFrom previous t).map text := by
  fun_induction lexFrom previous t with
  | case1 => simp
  | case2 previous c t token ih =>
    simp only [List.map_cons, List.mem_cons, not_or]
    exact ⟨by simp [token, first], ih⟩

/-- After any steps, reading a token takes the next piece of the source, or nothing at the end,
and reading all that is left gives back just that. -/
theorem run_lossless (source : Text) (steps : List Step) :
    let s := (ofSource source).run steps
    s.source = source ∧
      (if s.position < source.length then
        ∃ token after, s.next = (some token, after) ∧ after.source = source ∧
          Cuts source s.position after.position token
      else s.next = (none, s)) ∧
      ([] ∉ s.rest.1.map text ∧ s.rest.1.flatMap text = source.drop s.position ∧
        s.rest.2.position = max s.position source.length) ∧
      (ofSource source).rest.1 = tokenize source ∧ (tokenize source).flatMap text = source := by
  intro s
  have hs : s.source = source := source_run _ steps
  obtain ⟨h1, -, h3⟩ := rest_eq s
  rw [hs] at h1 h3
  refine ⟨hs, ?_, ⟨?_, ?_, h3⟩, (rest_eq _).1, flatMap_text_lexFrom none source⟩
  · split
    · rename_i hl
      rw [← hs] at hl
      obtain ⟨c, t, hd, hn⟩ := next_before_end hl
      rw [hs] at hd hn
      exact ⟨_, _, hn, rfl, cuts_first s.previous hd⟩
    · rename_i hl
      rw [← hs] at hl
      exact next_at_end (Nat.le_of_not_lt hl)
  · rw [h1]
    exact text_ne_nil_of_mem_lexFrom _ _
  · rw [h1]
    exact flatMap_text_lexFrom _ _

end QueryTidy.Token.Session

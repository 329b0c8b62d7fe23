import QueryTidy.Proofs.Lexing.Reading

/-! How far reading a token looks into what follows it. Main statement: `Reads.change_rest`. -/
namespace QueryTidy.Token

def isGap (c : Char) : Bool := isBlank c || c == '\n'

theorem forall_gap {P : Char → Prop} (h1 : P ' ') (h2 : P '\t') (h3 : P '\r') (h4 : P '\n') :
    ∀ c, isGap c → P c := by
  intro c hc
  simp only [isGap, isBlank, Bool.or_eq_true, beq_iff_eq] at hc
  obtain ((rfl | rfl) | rfl) | rfl := hc
  · exact h1
  · exact h2
  · exact h3
  · exact h4

def HeadAlike (rest rest' : Text) : Prop :=
  rest'.head?.all isGap ∨ rest'.head? = rest.head?

def StartsAlike (rest rest' : Text) : Prop :=
  rest'.head?.all isGap ∨ ∃ c u u', rest = c :: u ∧ rest' = c :: u' ∧ HeadAlike u u'

theorem StartsAlike.headAlike {rest rest' : Text} (h : StartsAlike rest rest') :
    HeadAlike rest rest' := by
  obtain h | ⟨c, u, u', rfl, rfl, -⟩ := h
  · exact .inl h
  · exact .inr rfl

theorem HeadAlike.append_left {rest rest' : Text} (h : HeadAlike rest rest') (x : Text) :
    HeadAlike (x ++ rest) (x ++ rest') := by
  cases x with
  | nil => exact h
  | cons c x => exact .inr rfl

theorem HeadAlike.all {rest rest' : Text} (h : HeadAlike rest rest') {p : Char → Bool}
    (hp : ∀ c, isGap c → p c = true) (hr : rest.head?.all p) : rest'.head?.all p := by
  obtain h | h := h
  · cases hc : rest'.head? with
    | none => rfl
    | some c =>
      rw [hc] at h
      exact hp c h
  · rwa [h]

theorem HeadAlike.ne {rest rest' : Text} (h : HeadAlike rest rest') {c : Char}
    (hc : isGap c = false) (hr : rest.head? ≠ some c) : rest'.head? ≠ some c := by
  obtain h | h := h
  · intro he
    simp [he, hc] at h
  · rwa [h]

def LooksAtHead (read : Text → Split) : Prop :=
  ∀ x rest rest', HeadAlike rest rest' → read (x ++ rest) = ⟨x, rest⟩ →
    read (x ++ rest') = ⟨x, rest'⟩

theorem looksAtHead_run {p : Char → Bool} (hp : ∀ c, isGap c → p c = false) :
    LooksAtHead (Split.run p) := by
  intro x rest rest' hh h
  rw [Split.run_append_iff] at h ⊢
  refine ⟨h.1, hh.all ?_ h.2⟩
  intro c hc
  simp [hp c hc]

theorem Split.andThen_append_iff {read next : Text → Split} (hw : ∀ t, (read t).whole = t)
    {x rest : Text} :
    (read (x ++ rest)).andThen next = ⟨x, rest⟩ ↔
      ∃ u v, x = u ++ v ∧ read (u ++ (v ++ rest)) = ⟨u, v ++ rest⟩ ∧
        next (v ++ rest) = ⟨v, rest⟩ := by
  constructor
  · intro h
    have hx := hw (x ++ rest)
    simp only [andThen, after, Split.mk.injEq] at h
    generalize hs : read (x ++ rest) = s at h hx
    obtain ⟨a, b⟩ := s
    generalize ht : next b = s at h
    obtain ⟨a', b'⟩ := s
    obtain ⟨rfl, rfl⟩ := h
    obtain rfl : b = a' ++ b' := by simpa using hx
    exact ⟨a, a', rfl, by simpa using hs, ht⟩
  · intro h
    obtain ⟨u, v, rfl, hu, hv⟩ := h
    simp [andThen, after, hu, hv]

theorem LooksAtHead.andThen {read next : Text → Split} (hw : ∀ t, (read t).whole = t)
    (hr : LooksAtHead read) (hn : LooksAtHead next) :
    LooksAtHead fun t => (read t).andThen next := by
  intro x rest rest' hh h
  obtain ⟨u, v, rfl, hu, hv⟩ := (Split.andThen_append_iff hw).1 h
  refine (Split.andThen_append_iff hw).2 ⟨u, v, rfl, ?_, hn v rest rest' hh hv⟩
  exact hr u (v ++ rest) (v ++ rest') (hh.append_left v) hu

def takeOne (p : Char → Bool) (next other : Text → Split) (t : Text) : Split :=
  match t with
  | c :: u => if p c then (next u).after [c] else other t
  | [] => other []

theorem whole_takeOne (p : Char → Bool) {next other : Text → Split}
    (hn : ∀ t, (next t).whole = t) (ho : ∀ t, (other t).whole = t) (t : Text) :
    (takeOne p next other t).whole = t := by
  cases t with
  | nil => exact ho []
  | cons c u => cases hc : p c <;> simp [takeOne, hc, hn, ho]

theorem takeOne_append_iff {p : Char → Bool} {next other : Text → Split} {x rest : Text} :
    takeOne p next other (x ++ rest) = ⟨x, rest⟩ ↔
      (∃ c y, x = c :: y ∧ p c ∧ next (y ++ rest) = ⟨y, rest⟩) ∨
        (x ++ rest).head?.all (!p ·) ∧ other (x ++ rest) = ⟨x, rest⟩ := by
  cases x with
  | nil =>
    cases rest with
    | nil => simp [takeOne]
    | cons c u => cases hc : p c <;> simp [takeOne, hc, Split.after]
  | cons c x =>
    cases hc : p c with
    | false => simp [takeOne, hc]
    | true =>
      cases hn : next (x ++ rest)
      simp only [takeOne, List.cons_append, hc, Split.after, hn]
      constructor
      · intro h
        exact .inl ⟨c, x, rfl, hc, by simpa [hn] using h⟩
      · intro h
        obtain ⟨c, y, hx, -, h⟩ | ⟨h, -⟩ := h
        · obtain ⟨rfl, rfl⟩ := List.cons.inj hx
          simpa [hn] using h
        · simp [hc] at h

theorem LooksAtHead.takeOne {p : Char → Bool} {next other : Text → Split}
    (hp : ∀ c, isGap c → p c = false) (hn : LooksAtHead next) (ho : LooksAtHead other) :
    LooksAtHead (takeOne p next other) := by
  intro x rest rest' hh h
  obtain ⟨c, y, rfl, hc, hy⟩ | ⟨hx, h⟩ := takeOne_append_iff.1 h
  · exact takeOne_append_iff.2 (.inl ⟨c, y, rfl, hc, hn y rest rest' hh hy⟩)
  · refine takeOne_append_iff.2 (.inr ⟨?_, ho x rest rest' hh h⟩)
    exact (hh.append_left x).all (fun c hc => by simp [hp c hc]) hx

theorem exponent_eq_takeOne :
    exponent = takeOne (fun c => c = 'e' ∨ c = 'E')
      (takeOne (fun c => c = '+' ∨ c = '-') (Split.run isDigit) (Split.run isDigit))
      (fun t => ⟨[], t⟩) := by
  funext t
  cases t with
  | nil => rfl
  | cons e u =>
    cases u with
    | nil =>
      by_cases he : e = 'e' ∨ e = 'E'
      · simp [exponent, takeOne, he]
        rfl
      · simp [exponent, takeOne, he]
    | cons s v =>
      by_cases he : e = 'e' ∨ e = 'E' <;> by_cases hs : s = '+' ∨ s = '-' <;>
        simp [exponent, takeOne, he, hs, Split.after]

theorem numberTail_eq_takeOne (c : Char) :
    numberTail c = fun t =>
      (takeOne (fun x => c = '0' ∧ (x = 'x' ∨ x = 'X')) (Split.run isHexDigit)
        (fun t => (Split.run (fun d => isDigit d || d == '.') t).andThen exponent) t).andThen
        (Split.run isLetter) := by
  funext t
  cases t with
  | nil => rfl
  | cons x u => simp [numberTail, takeOne]

theorem looksAtHead_numberTail (c : Char) : LooksAtHead (numberTail c) := by
  have run {p : Char → Bool} (hp : p ' ' = false ∧ p '\t' = false ∧ p '\r' = false ∧
      p '\n' = false) : LooksAtHead (Split.run p) :=
    looksAtHead_run (forall_gap hp.1 hp.2.1 hp.2.2.1 hp.2.2.2)
  have stop : LooksAtHead fun t => ⟨[], t⟩ := by
    intro x rest rest' _ h
    obtain ⟨rfl, -⟩ := Split.mk.inj h
    rfl
  have exp : LooksAtHead exponent := by
    rw [exponent_eq_takeOne]
    refine .takeOne ?_ (.takeOne ?_ (run (by decide)) (run (by decide))) stop <;>
      exact forall_gap rfl rfl rfl rfl
  have decimal : LooksAtHead fun t =>
      (Split.run (fun d => isDigit d || d == '.') t).andThen exponent :=
    .andThen (Split.whole_run _) (run (by decide)) exp
  rw [numberTail_eq_takeOne]
  refine .andThen (whole_takeOne _ (Split.whole_run _) ?_) (.takeOne ?_ (run (by decide)) decimal)
    (run (by decide))
  · intro t
    rw [Split.whole_andThen _ _ whole_exponent, Split.whole_run]
  · exact forall_gap (by simp) (by simp) (by simp) (by simp)

/-- What may change behind a token without changing how it is read. -/
structure Continues (rest rest' : Text) : Prop where
  ends : rest = [] → rest' = []
  breaks : rest.head? = some '\n' → rest'.head?.all (· == '\n')
  starts : StartsAlike rest rest'
  slash : slashAhead false rest = false → slashAhead false rest' = false

theorem double_take_one {c : Char} {rest rest' : Text} (h : HeadAlike rest rest')
    (hd : c :: rest.take 1 ∉ doubleOperators) : c :: rest'.take 1 ∉ doubleOperators := by
  intro hm
  rw [List.take_one] at hd hm
  obtain h | h := h
  · cases hc : rest'.head? with
    | none => simp [hc, doubleOperators] at hm
    | some d =>
      rw [hc] at hm h
      obtain ⟨-, -, -, -, -, hs, -⟩ := double_chars hm
      have hg : ∀ c, isGap c → isSymbolic c = false := forall_gap rfl rfl rfl rfl
      simp [hg d h] at hs
  · rw [h] at hm
    exact hd hm

/-- A token is read alike before two texts that start alike. Blanks are left out: more of them
may follow. -/
theorem Reads.change_rest {allowed allowed' : Bool} {kind : Kind} {t rest rest' : Text}
    (h : Reads allowed kind t rest) (hk : kind ≠ .whitespace) (hr : Continues rest rest')
    (ha : kind = .regex → allowed' = true) (ho : t = ['/'] → allowed' → allowed) :
    Reads allowed' kind t rest' := by
  have hh := hr.starts.headAlike
  cases h with
  | newline => exact .newline
  | blanks => exact absurd rfl hk
  | lineComment hx hb =>
    refine .lineComment hx ?_
    cases rest with
    | nil => simp [hr.ends rfl]
    | cons c u =>
      obtain rfl : c = '\n' := by simpa using hb
      exact hr.breaks rfl
  | blockComment hx => exact .blockComment (hx.change_rest hr.ends)
  | string hq hx => exact .string hq (hx.change_rest hr.ends)
  | marked hp hq hx => exact .marked hp hq (hx.change_rest hr.ends)
  | regex _ hs he hx => exact .regex (ha rfl) hs he hx
  | number hc hx => exact .number hc (looksAtHead_numberTail _ _ _ _ hh hx)
  | word hc hx hw hf hk =>
    refine .word hc hx (hh.all (forall_gap rfl rfl rfl rfl) hw) ?_ hk
    intro hp he
    exact hh.all (forall_gap rfl rfl rfl rfl) (hf hp he)
  | backticks hx => exact .backticks (hx.change_rest hr.ends)
  | pipe h1 h2 => exact .pipe (hh.ne rfl h1) (hh.ne rfl h2)
  | pipeInto => exact .pipeInto
  | concat => exact .concat
  | spread => exact .spread
  | double hd => exact .double hd
  | single hc hd hm hs hl =>
    refine .single hc (double_take_one hh hd) (fun he => hh.ne rfl (hm he))
      (fun he => hh.ne rfl (hs he)) ?_
    intro hc he
    subst hc
    exact hr.slash (hl rfl (ho rfl he))
  | mark hc hp hs hd ht =>
    refine .mark hc hp hs (double_take_one hh hd) ?_
    intro he h2
    obtain h | ⟨d, u, u', rfl, rfl, hu⟩ := hr.starts
    · cases rest' with
      | nil => simp at h2
      | cons d u =>
        obtain ⟨rfl, -⟩ : d = '.' ∧ u.take 1 = ['.'] := by simpa using h2
        simp [isGap, isBlank] at h
    · obtain ⟨rfl, h3⟩ : d = '.' ∧ u'.take 1 = ['.'] := by simpa using h2
      have hu' : u.head? ≠ some '.' := by
        intro hd
        exact ht he (by simp [List.take_succ_cons, List.take_one, hd])
      rw [List.take_one] at h3
      exact hu.ne rfl hu' (by simpa using h3)

end QueryTidy.Token

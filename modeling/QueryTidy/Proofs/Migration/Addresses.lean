import Mathlib.Data.Nat.Find
import QueryTidy.Proofs.Migration.Coordinates

/-! Which slashes of an address are taken for a comment. Of two slashes behind a colon neither is
part of a comment's mark, but with a third one behind them they are read as a character and a mark.
Main statements: `start_of_mem_considered`, `comment_over_address_iff`. -/
namespace QueryTidy

namespace Text

variable {t w : Text} {c : Char} {s : Nat}

theorem cons_prefix_drop_iff : c :: w <+: t.drop s ↔ t[s]? = some c ∧ w <+: t.drop (s + 1) := by
  induction t generalizing s with
  | nil => simp
  | cons d t ih =>
    cases s with
    | zero => simp [List.cons_prefix_cons, eq_comm]
    | succ s => simpa using ih

end Text

theorem Range.contains_onLine_iff {number i : Nat} {u v w : Text}
    (hi : i ≤ (u ++ (v ++ w)).length) :
    (Range.onLine number u.utf8Size v.utf8Size).contains
        ⟨number, (u ++ (v ++ w)).columnAt i⟩ = true ↔
      u.length ≤ i ∧ i < u.length + v.length := by
  have hu : Text.utf8Size u = Text.utf8Size ((u ++ (v ++ w)).take u.length) := by simp
  have hv : Text.utf8Size u + Text.utf8Size v =
      Text.utf8Size ((u ++ (v ++ w)).take (u.length + v.length)) := by
    rw [← List.append_assoc, List.take_left' (by simp), Text.utf8Size_append]
  have hlen : (u ++ (v ++ w)).length = u.length + (v.length + w.length) := by simp
  simp only [contains, onLine, Position.le_def, Position.lt_def, Bool.and_eq_true,
    decide_eq_true_eq, lt_self_iff_false, false_or, true_and, Text.columnAt_natCast]
  rw [hv, hu, ← not_lt, Text.utf8Size_take_lt_iff hi (by omega),
    Text.utf8Size_take_lt_iff hi (by omega), not_lt]

namespace Migration

section
variable {spans : Nat → Nat → Prop} {p s e s' e' : Nat} {l : List (Nat × Nat)}

theorem Leftmost.spans_of_mem (h : Leftmost spans p l) (hm : (s, e) ∈ l) : spans s e := by
  induction h with
  | done => cases hm
  | next _ hs _ _ _ ih =>
    obtain he | hm := List.mem_cons.1 hm
    · obtain ⟨rfl, rfl⟩ := Prod.mk.inj he
      exact hs
    · exact ih hm

theorem Leftmost.le_of_mem (h : Leftmost spans p l) (hlt : ∀ s e, spans s e → s < e)
    (hm : (s, e) ∈ l) : p ≤ s := by
  induction h with
  | done => cases hm
  | next hp hs _ _ _ ih =>
    obtain he | hm := List.mem_cons.1 hm
    · obtain ⟨rfl, rfl⟩ := Prod.mk.inj he
      exact hp
    · have h1 := ih hm
      have h2 := hlt _ _ hs
      omega

theorem Leftmost.exists_before (h : Leftmost spans p l) (hlt : ∀ s e, spans s e → s < e)
    (hm : (s, e) ∈ l) (hp : p ≤ s') (hs : spans s' e') (hss : s' < s) :
    ∃ x ∈ l, x.1 ≤ s' ∧ s' < x.2 ∧ x.2 ≤ s := by
  induction h with
  | done => cases hm
  | @next p s₀ e₀ rest _ _ hl _ hr ih =>
    have h₀ : s₀ ≤ s' := by
      by_contra hn
      exact hl s' e' hp (by omega) hs
    obtain he | hm := List.mem_cons.1 hm
    · obtain ⟨rfl, rfl⟩ := Prod.mk.inj he
      omega
    · by_cases he : s' < e₀
      · exact ⟨(s₀, e₀), List.mem_cons_self, h₀, he, hr.le_of_mem hlt hm⟩
      · obtain ⟨x, hx, h1, h2, h3⟩ := ih hm (Nat.le_of_not_lt he)
        exact ⟨x, List.mem_cons_of_mem _ hx, h1, h2, h3⟩

end

/-- Where two slashes with a character in front of them stand, or two at the start of a line. -/
theorem Pattern.spans_slashComment_iff {line : Text} {s e : Nat} :
    slashComment.Spans line s e ↔
      s = 0 ∧ e = 2 ∧ ['/', '/'] <+: line ∨
        ∃ c, c ≠ ':' ∧ e = s + 3 ∧ [c, '/', '/'] <+: line.drop s := by
  constructor
  · intro h
    obtain ⟨before, t, after, rfl, rfl, rfl, hr⟩ := h
    obtain ⟨rfl, rfl⟩ | ⟨c, hc, rfl⟩ := regex_slashComment_iff.1 hr
    · exact .inl ⟨rfl, rfl, ⟨after, rfl⟩⟩
    · exact .inr ⟨c, hc, rfl, ⟨after, by simp⟩⟩
  · intro h
    obtain ⟨rfl, rfl, after, rfl⟩ | ⟨c, hc, rfl, after, ha⟩ := h
    · exact ⟨[], _, after, rfl, rfl, rfl, regex_slashComment_iff.2 (.inl ⟨rfl, rfl⟩)⟩
    · have hs : s ≤ line.length := by
        by_contra hn
        rw [List.drop_eq_nil_of_le (by omega)] at ha
        cases ha
      refine ⟨line.take s, _, after, ?_, ?_, rfl, regex_slashComment_iff.2 (.inr ⟨c, hc, rfl⟩)⟩
      · rw [ha, List.take_append_drop]
      · rw [List.length_take_of_le hs]

theorem Pattern.spans_of_mem_matchesIn {pattern : Pattern} (hp : pattern.IsPlain = true)
    {line : Text} {found : Match} (hm : found ∈ pattern.matchesIn line) :
    pattern.Spans line found.start found.stop :=
  (leftmost_matchesIn hp line).spans_of_mem (List.mem_map_of_mem hm)

section
variable {a b : Text} {s e : Nat} {l : List (Nat × Nat)}

def withAddress (a b : Text) : Text := a ++ ("://".toList ++ b)

theorem getElem_withAddress (a b : Text) :
    (withAddress a b)[a.length]? = some ':' ∧ (withAddress a b)[a.length + 1]? = some '/' ∧
      (withAddress a b)[a.length + 2]? = some '/' ∧
      (withAddress a b)[a.length + 3]? = b.head? := by
  simp [withAddress, List.getElem?_append_right, List.head?_eq_getElem?]

theorem start_of_spans_over (h : Pattern.slashComment.Spans (withAddress a b) s e)
    (hs : s < a.length + 3) (he : a.length < e) :
    (s = a.length + 1 ∨ s = a.length + 2) ∧ e = s + 3 ∧ b.head? = some '/' := by
  obtain ⟨h0, h1, h2, h3⟩ := getElem_withAddress a b
  obtain ⟨rfl, rfl, hp⟩ | ⟨c, hc, rfl, hp⟩ := Pattern.spans_slashComment_iff.1 h
  · have hp : ['/', '/'] <+: (withAddress a b).drop 0 := hp
    simp only [Text.cons_prefix_drop_iff, List.nil_prefix, and_true] at hp
    have ha : a.length = 0 ∨ a.length = 1 := by omega
    obtain ha | ha := ha <;> simp_all
  · simp only [Text.cons_prefix_drop_iff, List.nil_prefix, and_true] at hp
    obtain ⟨hp0, hp1, hp2⟩ := hp
    have hne (i : Nat) (d : Char) (hd : d ≠ ':') (hi : (withAddress a b)[i]? = some d) :
        i ≠ a.length := by
      rintro rfl
      rw [h0] at hi
      exact hd (Option.some.inj hi).symm
    have n0 := hne _ _ hc hp0
    have n1 := hne _ _ (by decide) hp1
    have n2 := hne _ _ (by decide) hp2
    have hs : s = a.length + 1 ∨ s = a.length + 2 := by omega
    refine ⟨hs, rfl, ?_⟩
    rw [← h3]
    obtain rfl | rfl := hs
    · exact hp2
    · exact hp1

theorem spans_address (hb : b.head? = some '/') :
    Pattern.slashComment.Spans (withAddress a b) (a.length + 1) (a.length + 4) := by
  obtain ⟨-, h1, h2, h3⟩ := getElem_withAddress a b
  refine Pattern.spans_slashComment_iff.2 (.inr ⟨'/', by decide, rfl, ?_⟩)
  simp only [Text.cons_prefix_drop_iff, List.nil_prefix, and_true]
  exact ⟨h1, h2, h3.trans hb⟩

theorem start_of_mem_considered (hb : b.head? = some '/')
    (h : Leftmost (Pattern.slashComment.Spans (withAddress a b)) 0 l) (hm : (s, e) ∈ l)
    (hs : s < a.length + 4) (he : a.length + 1 < e) : (s, e) = (a.length + 1, a.length + 4) := by
  have hlt : ∀ s e, Pattern.slashComment.Spans (withAddress a b) s e → s < e :=
    fun _ _ h => (h.lt rfl).1
  have hspan := h.spans_of_mem hm
  by_cases hlate : a.length + 1 < s
  · -- A span of the list comes before that reaches into the three slashes; so it is theirs.
    obtain ⟨⟨s', e'⟩, hx, h1, h2, h3⟩ := h.exists_before hlt hm (Nat.zero_le _)
      (spans_address hb) hlate
    simp only at h1 h2 h3
    obtain ⟨hs', he', -⟩ := start_of_spans_over (h.spans_of_mem hx) (by omega) (by omega)
    omega
  · obtain ⟨hs', he', -⟩ := start_of_spans_over hspan (by omega) (by omega)
    rw [Prod.mk.injEq]
    omega

theorem forall_firstDashes_iff :
    (∀ i, FirstDashes (withAddress a b) i → a.length + 1 ≤ i) ↔ ¬ ['-', '-'] <:+: a := by
  constructor
  · intro h hdashes
    obtain ⟨x, y, rfl⟩ := hdashes
    have hx : ∃ i, ['-', '-'] <+: (withAddress (x ++ ['-', '-'] ++ y) b).drop i :=
      ⟨x.length, y ++ ("://".toList ++ b), by simp [withAddress]⟩
    have hfirst : FirstDashes (withAddress (x ++ ['-', '-'] ++ y) b) (Nat.find hx) :=
      ⟨Nat.find_spec hx, fun j hj => Nat.find_min hx hj⟩
    have h1 := h _ hfirst
    have h2 : Nat.find hx ≤ x.length :=
      Nat.find_min' hx ⟨y ++ ("://".toList ++ b), by simp [withAddress]⟩
    simp only [List.length_append, List.length_cons, List.length_nil] at h1
    omega
  · intro h i hfirst
    obtain ⟨hi, -⟩ := hfirst
    obtain ⟨h0, h1, -⟩ := getElem_withAddress a b
    by_contra hn
    simp only [Text.cons_prefix_drop_iff, List.nil_prefix, and_true] at hi
    obtain ⟨hi0, hi1⟩ := hi
    have n0 : i ≠ a.length := by
      rintro rfl
      simp [h0] at hi0
    have n1 : i + 1 ≠ a.length := by
      intro he
      simp [he, h0] at hi1
    -- Both dashes stand in front of the colon.
    rw [withAddress, List.getElem?_append_left (by omega)] at hi0 hi1
    have hp : ['-', '-'] <+: a.drop i := by
      simp only [Text.cons_prefix_drop_iff, List.nil_prefix, and_true]
      exact ⟨hi0, hi1⟩
    exact h (hp.isInfix.trans (List.drop_suffix i a).isInfix)

end

/-- The finding is of slashes that are taken for a comment, and its fix covers one of the characters
of line `number` from index `s` up to index `e`. -/
def Finding.IsCommentOver (f : Finding) (number : Nat) (line : Text) (s e : Nat) : Prop :=
  f.diagnostic.code = "deprecated-comment-slash" ∧
    ∃ edit, f.fix = some edit ∧ ∃ i, s ≤ i ∧ i < e ∧
      edit.range.contains ⟨number, line.columnAt i⟩ = true

section
variable {f : Finding} {found : Match} {t line : Text} {number s e : Nat}

theorem isCommentOver_finding_iff (hm : found ∈ Pattern.slashComment.matchesIn line) (hs : s < e)
    (he : e ≤ line.length) :
    (finding slashComment number line found).IsCommentOver number line s e ↔
      found.start < e ∧ s < found.stop := by
  have hlt := ((Pattern.spans_of_mem_matchesIn rfl hm).lt rfl).1
  obtain ⟨u, rest, hline, hu, -⟩ := Pattern.exists_of_mem_matchesIn hm
  have hfix : (finding slashComment number line found).fix =
      some ⟨.onLine number u.utf8Size found.capture.matched.utf8Size, _⟩ := fix_finding hline hu
  have hcontains {i : Nat} (hi : i < e) :
      (Range.onLine number u.utf8Size found.capture.matched.utf8Size).contains
        ⟨number, line.columnAt i⟩ = true ↔ found.start ≤ i ∧ i < found.stop := by
    subst hline
    rw [Range.contains_onLine_iff (by omega), Match.stop, hu]
  constructor
  · intro h
    obtain ⟨-, edit, he, i, hsi, hie, hi⟩ := h
    obtain rfl := Option.some.inj (hfix.symm.trans he)
    obtain ⟨h1, h2⟩ := (hcontains hie).1 hi
    omega
  · intro h
    obtain ⟨h1, h2⟩ := h
    refine ⟨rfl, _, hfix, max s found.start, by omega, by omega, (hcontains (by omega)).2 ?_⟩
    omega

theorem exists_isCommentOver_iff (hl : t.lines[number]? = some line) (hs : s < e)
    (he : e ≤ line.length) :
    f ∈ scan registry t ∧ f.IsCommentOver number line s e ↔
      ∃ found ∈ Pattern.slashComment.matchesIn line, Reported slashComment line found ∧
        found.start < e ∧ s < found.stop ∧ finding slashComment number line found = f := by
  constructor
  · intro h
    obtain ⟨hf, ho⟩ := h
    have hone : ∀ rule ∈ registry, rule.code = "deprecated-comment-slash" →
        rule = slashComment := by decide
    obtain ⟨n, line', hl', found, hm, hc, rfl⟩ := exists_match_of_code hone hf ho.1
    obtain rfl : n = number := by
      obtain ⟨-, edit, hfix, i, -, -, hi⟩ := ho
      obtain ⟨u, rest, hline, hu, -⟩ := Pattern.exists_of_mem_matchesIn hm
      rw [fix_finding hline hu] at hfix
      obtain rfl := Option.some.inj hfix
      simp only [Range.contains, Range.onLine, Position.le_def, Position.lt_def,
        Bool.and_eq_true, decide_eq_true_eq] at hi
      omega
    obtain rfl := Option.some.inj (hl'.symm.trans hl)
    obtain ⟨h1, h2⟩ := (isCommentOver_finding_iff hm hs he).1 ho
    exact ⟨found, hm, counts_iff.1 hc, h1, h2, rfl⟩
  · intro h
    obtain ⟨found, hm, hrep, h1, h2, rfl⟩ := h
    refine ⟨mem_scan.2 ⟨number, line, hl, ?_⟩, (isCommentOver_finding_iff hm hs he).2 ⟨h1, h2⟩⟩
    exact mem_findingsOn.2 ⟨slashComment, by decide, found, hm, counts_iff.2 hrep, rfl⟩

end

section
variable {a b : Text} {found : Match}

theorem span_over_address (hm : found ∈ Pattern.slashComment.matchesIn (withAddress a b))
    (hs : found.start < a.length + 3) (he : a.length < found.stop) :
    b.head? = some '/' ∧ found.span = (a.length + 1, a.length + 4) := by
  obtain ⟨hstart, hstop, hb⟩ :=
    start_of_spans_over (Pattern.spans_of_mem_matchesIn rfl hm) hs he
  refine ⟨hb, start_of_mem_considered hb (Pattern.leftmost_matchesIn rfl _)
    (List.mem_map_of_mem hm) ?_ ?_⟩
  · omega
  · omega

theorem fix_over_address {number : Nat}
    (hm : found ∈ Pattern.slashComment.matchesIn (withAddress a b)) (hb : b.head? = some '/')
    (hx : found.span = (a.length + 1, a.length + 4)) :
    (finding slashComment number (withAddress a b) found).fix =
      some ⟨.onLine number (a.utf8Size + 1) 3, "/--".toList⟩ := by
  obtain ⟨hstart, hstop⟩ := Prod.mk.inj hx
  obtain ⟨u, rest, hline, hu, -⟩ := Pattern.exists_of_mem_matchesIn hm
  obtain ⟨c, y, rfl⟩ := List.exists_cons_of_ne_nil (l := b) (by rintro rfl; cases hb)
  obtain rfl : c = '/' := by simpa using hb
  have hcut : (a ++ [':']) ++ (['/', '/', '/'] ++ y) = u ++ (found.capture.matched ++ rest) := by
    rw [← hline]
    simp [withAddress]
  obtain ⟨rfl, hrest⟩ := List.append_inj hcut (by simp [← hu, hstart])
  have hlen : found.capture.matched.length = 3 := by
    rw [Match.stop] at hstop
    omega
  obtain ⟨hmatched, -⟩ := List.append_inj hrest (by simp [hlen])
  have hnew : slashComment.newText found.capture = some "/--".toList := by
    change some (found.capture.matched.take (found.capture.matched.length - 2) ++ ['-', '-']) = _
    rw [← hmatched]
    decide
  have hsize : Text.utf8Size [':'] = 1 ∧ Text.utf8Size ['/', '/', '/'] = 3 := by decide
  rw [fix_finding hline hu, hnew, Text.utf8Size_append, ← hmatched, hsize.1, hsize.2]
  rfl

end

/-- A comment is found over an address just when a third slash follows its two and no comment starts
in front of it. Then the fix turns the three slashes into a slash and two dashes. -/
theorem comment_over_address_iff {t line a b : Text} {number : Nat}
    (hl : t.lines[number]? = some line) (hline : line = a ++ ("://".toList ++ b)) :
    ((∃ f ∈ scan registry t, f.IsCommentOver number line a.length (a.length + 3)) ↔
        b.head? = some '/' ∧ ¬ "--".toList <:+: a) ∧
      ∀ f ∈ scan registry t, f.IsCommentOver number line a.length (a.length + 3) →
        f.fix = some ⟨.onLine number (a.utf8Size + 1) 3, "/--".toList⟩ := by
  obtain rfl : line = withAddress a b := hline
  have hlen : a.length + 3 ≤ (withAddress a b).length := by simp [withAddress]
  have hmem (f : Finding) := exists_isCommentOver_iff (f := f) hl
    (Nat.lt_add_of_pos_right (by decide : 0 < 3)) hlen
  constructor
  · constructor
    · intro h
      obtain ⟨f, hf, ho⟩ := h
      obtain ⟨found, hm, hrep, h1, h2, -⟩ := (hmem f).1 ⟨hf, ho⟩
      obtain ⟨hb, hx⟩ := span_over_address hm h1 h2
      refine ⟨hb, (forall_firstDashes_iff (b := b)).1 ?_⟩
      intro i hi
      rw [← (Prod.mk.inj hx).1]
      exact hrep.1 i hi
    · intro h
      obtain ⟨hb, ha⟩ := h
      have hleft : Leftmost (Pattern.slashComment.Spans (withAddress a b)) 0 _ :=
        Pattern.leftmost_matchesIn rfl (withAddress a b)
      obtain ⟨x, hx, h1, h2⟩ := hleft.exists_overlapping (Nat.zero_le _) (spans_address hb)
        (by omega)
      obtain ⟨found, hm, rfl⟩ := List.mem_map.1 hx
      have hspan := start_of_mem_considered hb hleft hx h2 h1
      obtain ⟨hs, he⟩ := Prod.mk.inj hspan
      obtain ⟨before, after, -, -, hreg⟩ := Pattern.regex_of_mem_matchesIn rfl hm
      have hrep : Reported slashComment (withAddress a b) found := by
        refine ⟨?_, not_exempt_of_regex (by decide) hreg⟩
        rw [hs]
        exact forall_firstDashes_iff.2 ha
      obtain ⟨hf, ho⟩ := (hmem _).2 ⟨found, hm, hrep, by omega, by omega, rfl⟩
      exact ⟨_, hf, ho⟩
  · intro f hf ho
    obtain ⟨found, hm, -, h1, h2, rfl⟩ := (hmem f).1 ⟨hf, ho⟩
    obtain ⟨hb, hx⟩ := span_over_address hm h1 h2
    exact fix_over_address hm hb hx

theorem comment_over_address_iff_three_lines :
    let t : Text := "see 'https://a'\n-- file:///x\nfile:///x".toList
    (¬ ∃ f ∈ scan registry t, f.IsCommentOver 0 "see 'https://a'".toList 10 13) ∧
      (¬ ∃ f ∈ scan registry t, f.IsCommentOver 1 "-- file:///x".toList 7 10) ∧
      (∃ f ∈ scan registry t, f.IsCommentOver 2 "file:///x".toList 4 7) ∧
      ∀ f ∈ scan registry t, f.IsCommentOver 2 "file:///x".toList 4 7 →
        f.fix = some ⟨.onLine 2 5 3, "/--".toList⟩ := by
  intro t
  have hquoted : t.lines[0]? = some ("see 'https".toList ++ ("://".toList ++ "a'".toList)) := by
    decide
  have hbehind : t.lines[1]? = some ("-- file".toList ++ ("://".toList ++ "/x".toList)) := by decide
  have hfile : t.lines[2]? = some ("file".toList ++ ("://".toList ++ "/x".toList)) := by decide
  refine ⟨mt (comment_over_address_iff hquoted rfl).1.1 (by decide),
    mt (comment_over_address_iff hbehind rfl).1.1 (by decide),
    (comment_over_address_iff hfile rfl).1.2 (by decide), (comment_over_address_iff hfile rfl).2⟩

/-- The address of a file has three slashes, and the last two of them are taken for a comment. -/
theorem address_taken_for_comment :
    let t : Text := "file".toList ++ ("://".toList ++ "/x".toList)
    ∃ f ∈ scan registry t, ∃ edit,
      f.diagnostic.code = "deprecated-comment-slash" ∧ f.fix = some edit ∧
        edit.range.contains ⟨0, t.columnAt 5⟩ = true ∧
        edit.apply t = .ok "file:/--x".toList :=
  ⟨finding slashComment 0 "file:///x".toList ⟨5, ⟨"///".toList, []⟩⟩, by decide,
    ⟨.onLine 0 5 3, "/--".toList⟩, by decide⟩

end Migration
end QueryTidy

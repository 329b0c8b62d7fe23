import Mathlib.Data.List.Pairwise
import QueryTidy.Proofs.Migration.Lines
import QueryTidy.Proofs.Migration.Offers

/-! The order of the rules does not matter: no two reports come level when they are sorted, and no
two rules of the registry fix the same range. Main statement: `same_for_every_order`. -/
namespace QueryTidy

theorem Text.append_inj_of_size {u v x y : Text} (h : u ++ x = v ++ y)
    (hs : u.utf8Size = v.utf8Size) : u = v ∧ x = y := by
  obtain ⟨w, rfl, rfl⟩ | ⟨w, rfl, rfl⟩ := List.append_eq_append_iff.1 h
  · rw [utf8Size_append] at hs
    obtain rfl := utf8Size_eq_zero (t := w) (by omega)
    simp
  · rw [utf8Size_append] at hs
    obtain rfl := utf8Size_eq_zero (t := w) (by omega)
    simp

theorem Range.not_lt_self (r : Range) : ¬ r < r := by
  simp only [lt_def, Position.lt_def]
  omega

theorem Diagnostic.sameKey_of_le {d e : Diagnostic} (h : le d e) (k : le e d) :
    d.sameKey e = true := by
  rw [le_iff] at h k
  have hr : d.range = e.range := by
    have hd := h.imp_right And.left
    have he := k.imp_right And.left
    simp only [Range.lt_def, Range.eq_iff, Position.lt_def, Position.eq_iff] at hd he ⊢
    omega
  rw [hr] at h k
  have hc := (h.resolve_left (Range.not_lt_self _)).2
  have kc := (k.resolve_left (Range.not_lt_self _)).2
  exact Migration.sameKey_iff.2 ⟨String.le_antisymm hc kc, hr⟩

namespace Migration

variable {rules order : List Rule} {t : Text} {f g : Finding}

theorem validate_of_perm (hp : rules.Perm order) (h : Rule.validate rules = .ok ()) :
    Rule.validate order = .ok () := by
  obtain ⟨hs, hd⟩ := validate_eq_ok_iff.1 h
  refine validate_eq_ok_iff.2 ⟨?_, (hp.pairwise_iff Ne.symm).1 hd⟩
  intro rule hr
  exact hs rule (hp.mem_iff.2 hr)

theorem findingsFrom_perm (hp : rules.Perm order) (number : Nat) (lines : List Text) :
    (findingsFrom rules number lines).Perm (findingsFrom order number lines) := by
  induction lines generalizing number with
  | nil => exact .refl _
  | cons line lines ih => exact (hp.flatMap_right _).append (ih (number + 1))

theorem scan_perm (hp : rules.Perm order) (t : Text) : (scan rules t).Perm (scan order t) :=
  findingsFrom_perm hp 0 t.lines

theorem eq_of_sameKey (hv : Rule.validate rules = .ok ()) (hf : f ∈ scan rules t)
    (hg : g ∈ scan rules t) (hk : f.diagnostic.sameKey g.diagnostic = true) : f = g := by
  have : Std.Symm fun f g : Finding => ¬ f.diagnostic.sameKey g.diagnostic = true := by
    constructor
    intro f g h k
    rw [sameKey_iff] at h k
    exact h ⟨k.1.symm, k.2.symm⟩
  by_contra hne
  exact (distinctKeys_scan hv t).forall hf hg hne hk

theorem sort_scan_eq (hv : Rule.validate rules = .ok ()) (hp : rules.Perm order) (t : Text) :
    Diagnostic.sort ((scan rules t).map (·.diagnostic)) =
      Diagnostic.sort ((scan order t).map (·.diagnostic)) := by
  refine mergeSort_eq_of_perm Diagnostic.le_trans Diagnostic.le_total ?_ ((scan_perm hp t).map _)
  intro d hd e he hde hed
  obtain ⟨f, hf, rfl⟩ := List.mem_map.1 hd
  obtain ⟨g, hg, rfl⟩ := List.mem_map.1 he
  rw [eq_of_sameKey hv hf hg (Diagnostic.sameKey_of_le hde hed)]

def Pattern.leadingWord : Pattern → Option Text
  | .word name | .callOpening name | .emptyCall name | .call name _ => some name
  | .literal _ | .slashComment => none

theorem isWordChar_of_isSpace {c : Char} (h : isSpace c = true) : Token.isWordChar c = false := by
  simp only [isSpace, Bool.or_eq_true, beq_iff_eq] at h
  obtain ((((rfl | rfl) | rfl) | rfl) | rfl) | rfl := h <;> rfl

theorem takeWhile_isWordChar {name b v : Text} (hn : name.all Token.isWordChar = true)
    (hb : Blank b) : (name ++ (b ++ '(' :: v)).takeWhile Token.isWordChar = name := by
  rw [List.takeWhile_append_of_pos (List.all_eq_true.1 hn)]
  cases b with
  | nil =>
    have hp : Token.isWordChar '(' = false := rfl
    simp [hp]
  | cons c b => simp [isWordChar_of_isSpace (hb c List.mem_cons_self)]

theorem leadingWord_of_construct {rule : Rule} {matched argument : Text} (hr : rule ∈ registry)
    (h : Construct rule.pattern matched argument) :
    let lead := matched.takeWhile Token.isWordChar
    rule.pattern.leadingWord = if 2 ≤ lead.length then some lead else none := by
  have hw : ∀ rule ∈ registry, ∀ name ∈ rule.pattern.leadingWord,
      name.all Token.isWordChar = true ∧ 2 ≤ name.length := by decide
  have hl : ∀ rule ∈ registry, rule.pattern.leadingWord = none →
      rule = arrow ∨ rule = slashComment := by decide
  intro lead
  cases hn : rule.pattern.leadingWord with
  | none =>
    obtain rfl | rfl := hl rule hr hn
    · cases h
      rfl
    · have hs : Token.isWordChar '/' = false := rfl
      cases h with
      | slashesFirst => rfl
      | @slashes c => cases hc : Token.isWordChar c <;> simp [lead, hc, hs]
  | some name =>
    obtain ⟨ha, h2⟩ := hw rule hr name hn
    have ht : lead = name := by
      generalize rule.pattern = pattern at h hn
      cases h with
      | literal | slashesFirst | slashes => cases hn
      | word =>
        obtain rfl := Option.some.inj hn
        exact List.takeWhile_eq_self_iff.2 (List.all_eq_true.1 ha)
      | callOpening hb | emptyCall hb | call _ _ hb =>
        obtain rfl := Option.some.inj hn
        exact takeWhile_isWordChar ha hb
    rw [ht, if_pos h2]

theorem eq_of_construct {rule other : Rule} {matched a b : Text} (hr : rule ∈ registry)
    (ho : other ∈ registry) (h : Construct rule.pattern matched a)
    (k : Construct other.pattern matched b) : rule = other := by
  have hl : ∀ rule ∈ registry, ∀ other ∈ registry,
      rule.pattern.leadingWord = other.pattern.leadingWord →
      rule = other ∨ rule = arrow ∧ other = slashComment ∨ rule = slashComment ∧ other = arrow := by
    decide +kernel
  have he := (leadingWord_of_construct hr h).trans (leadingWord_of_construct ho k).symm
  obtain rfl | ⟨rfl, rfl⟩ | ⟨rfl, rfl⟩ := hl rule hr other ho he
  · rfl
  · cases h
    cases k
  · cases k
    cases h

theorem eq_of_stop_eq {pattern : Pattern} {line : Text} {m n : Match}
    (hm : m ∈ pattern.matchesIn line) (hn : n ∈ pattern.matchesIn line) (h : m.stop = n.stop) :
    m = n := by
  have : Std.Symm fun m n : Match => m.stop ≠ n.stop := ⟨fun _ _ => Ne.symm⟩
  by_contra hne
  exact ((pattern.stop_lt_stop line).imp Nat.ne_of_lt).forall hm hn hne h

/-- Of the findings of the registry, no two are fixed in the same range. -/
theorem eq_of_fix_range {d e : Edit} (hf : f ∈ scan registry t) (hg : g ∈ scan registry t)
    (hd : f.fix = some d) (he : g.fix = some e) (h : d.range = e.range) : f = g := by
  obtain ⟨l, line, hl, hf⟩ := mem_scan.1 hf
  obtain ⟨l', line', hl', hg⟩ := mem_scan.1 hg
  obtain ⟨rule, hr, m, hm, -, rfl⟩ := mem_findingsOn.1 hf
  obtain ⟨other, ho, n, hn, -, rfl⟩ := mem_findingsOn.1 hg
  obtain ⟨u, x, hu, hus, hmc⟩ := Pattern.exists_of_mem_matchesIn hm
  obtain ⟨v, y, hv, hvs, hnc⟩ := Pattern.exists_of_mem_matchesIn hn
  rw [fix_finding hu hus] at hd
  rw [fix_finding hv hvs] at he
  obtain ⟨new, -, rfl⟩ := Option.map_eq_some_iff.1 hd
  obtain ⟨new', -, rfl⟩ := Option.map_eq_some_iff.1 he
  -- The line, what stands in front of the construct, and the construct are the same.
  obtain ⟨⟨rfl, hsize⟩, -, hstop⟩ : (l = l' ∧ u.utf8Size = v.utf8Size) ∧ l = l' ∧
      u.utf8Size + m.capture.matched.utf8Size = v.utf8Size + n.capture.matched.utf8Size := by
    simpa [Range.onLine] using h
  obtain rfl : line = line' := Option.some.inj (hl.symm.trans hl')
  obtain ⟨rfl, hrest⟩ := Text.append_inj_of_size (hu.symm.trans hv) hsize
  obtain ⟨hmatched, -⟩ := Text.append_inj_of_size hrest (by omega)
  rw [← hmatched] at hnc
  obtain rfl := eq_of_construct hr ho hmc hnc
  obtain rfl := eq_of_stop_eq hm hn (by rw [Match.stop, Match.stop, hus, hvs, hmatched])
  rfl

theorem candidates_scan_eq (hp : registry.Perm order) (t : Text) :
    Fix.candidates (scan registry t) = Fix.candidates (scan order t) := by
  rw [Fix.candidates_eq, Fix.candidates_eq]
  refine mergeSort_eq_of_perm Fix.le_trans Fix.le_total ?_ ((scan_perm hp t).filterMap _)
  intro a ha b hb hab hba
  obtain ⟨f, hf, hfa⟩ := List.mem_filterMap.1 ha
  obtain ⟨g, hg, hgb⟩ := List.mem_filterMap.1 hb
  obtain ⟨d, hd, rfl⟩ := Option.map_eq_some_iff.1 hfa
  obtain ⟨e, he, rfl⟩ := Option.map_eq_some_iff.1 hgb
  have hr : d.range = e.range := by
    simp only [Fix.le_iff, Position.lt_def, Position.le_def, Position.eq_iff] at hab hba
    simp only [Range.eq_iff, Position.eq_iff]
    omega
  obtain rfl := eq_of_fix_range hf hg hd he hr
  rw [hd] at he
  obtain rfl := Option.some.inj he
  rfl

theorem batchEdits_scan_eq (hp : registry.Perm order) (t : Text) :
    batchEdits (scan registry t) = batchEdits (scan order t) := by
  rw [batchEdits, batchEdits, Fix.select, Fix.select, candidates_scan_eq hp]

/-- Rules that are accepted say the same about a document in every order. In every order, the
rules of the registry fix it in the same way. -/
theorem same_for_every_order (t : Text) :
    (∀ rules order : List Rule, Rule.validate rules = .ok () → rules.Perm order →
      ∃ c d, Checked.ofRules rules t = .ok c ∧ Checked.ofRules order t = .ok d ∧
        c.diagnostics = d.diagnostics ∧ c.hasErrors = d.hasErrors) ∧
    ∀ order, registry.Perm order →
      ∃ fixed, Fixed.ofRules registry t = .ok fixed ∧ Fixed.ofRules order t = .ok fixed := by
  refine ⟨?_, ?_⟩
  · intro rules order hv hp
    have hs := sort_scan_eq hv hp t
    refine ⟨Checked.of rules t, Checked.of order t, ?_, ?_, hs, congrArg Diagnostic.hasErrors hs⟩
    · simp only [Checked.ofRules, hv, Except.map]
    · simp only [Checked.ofRules, validate_of_perm hp hv, Except.map]
  · intro order hp
    have hv : Rule.validate registry = .ok () := rfl
    obtain ⟨r, hr⟩ := exists_spliced_scan registry t
    have ho := hr
    rw [batchEdits_scan_eq hp] at ho
    refine ⟨_, ofRules_eq_ok hv (of_eq_ok_of_spliced hr), ?_⟩
    rw [batchEdits_scan_eq hp, sort_scan_eq hv hp]
    exact ofRules_eq_ok (validate_of_perm hp hv) (of_eq_ok_of_spliced ho)

/-- Findings that overlap, found by other rules first. -/
theorem same_for_every_order_reversed :
    Rule.validate registry = .ok () ∧ registry.Perm registry.reverse ∧
      scan registry "grep(//) => ip('a')".toList ≠
        scan registry.reverse "grep(//) => ip('a')".toList ∧
      (∃ c d, Checked.ofRules registry "grep(//) => ip('a')".toList = .ok c ∧
        Checked.ofRules registry.reverse "grep(//) => ip('a')".toList = .ok d ∧
        c.diagnostics = d.diagnostics ∧ c.hasErrors = d.hasErrors) ∧
      ∃ fixed, Fixed.ofRules registry "grep(//) => ip('a')".toList = .ok fixed ∧
        Fixed.ofRules registry.reverse "grep(//) => ip('a')".toList = .ok fixed := by
  have hv : Rule.validate registry = .ok () := rfl
  have hp : registry.Perm registry.reverse := (List.reverse_perm registry).symm
  obtain ⟨hc, hf⟩ := same_for_every_order "grep(//) => ip('a')".toList
  exact ⟨hv, hp, by decide +kernel, hc _ _ hv hp, hf _ hp⟩

end Migration
end QueryTidy

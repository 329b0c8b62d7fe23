import QueryTidy.Migration.Registry
import QueryTidy.Proofs.Migration.Matching

/-! A weight of texts that every fix of the registry makes smaller, wherever it is made. Main
statement: `lightens_of_mem_registry`. -/
namespace QueryTidy.Migration

/-- Characters that fixes take away, and of which none brings more than it takes. -/
def isHeavy (c : Char) : Bool := ['(', '=', '/', 'y', 'c', 'z'].contains c

/-- Places where `this` is missing: right in front of the second character, the first being the
last one before it that is no blank. -/
def isTense : Option Char → Char → Bool
  | some a, ')' => a == '(' || a == '\x27' || a == '\x22'
  | some a, '<' => a == '('
  | _, _ => false

def lastSolid (previous : Option Char) : Text → Option Char
  | [] => previous
  | c :: t => lastSolid (if isSpace c then previous else some c) t

def tension (previous : Option Char) : Text → Nat
  | [] => 0
  | c :: t =>
    if isSpace c then tension previous t
    else (isTense previous c).toNat + tension (some c) t

def weight (t : Text) : Nat := 5 * t.countP isHeavy + tension none t

/-- Putting `new` in the place of `old` makes any text lighter. -/
def Lighter (new old : Text) : Prop :=
  ∀ u v, weight (u ++ (new ++ v)) < weight (u ++ (old ++ v))

variable {p q : Option Char} {s t b new old : Text}

theorem lastSolid_append (p : Option Char) (s t : Text) :
    lastSolid p (s ++ t) = lastSolid (lastSolid p s) t := by
  induction s generalizing p with
  | nil => rfl
  | cons c s ih => exact ih _

theorem lastSolid_concat {c : Char} (hc : isSpace c = false) (p : Option Char) (t : Text) :
    lastSolid p (t ++ [c]) = some c := by
  simp [lastSolid_append, lastSolid, hc]

theorem tension_append (p : Option Char) (s t : Text) :
    tension p (s ++ t) = tension p s + tension (lastSolid p s) t := by
  induction s generalizing p with
  | nil => simp [tension, lastSolid]
  | cons c s ih =>
    cases hc : isSpace c with
    | true => simp [tension, lastSolid, hc, ih]
    | false => simp [tension, lastSolid, hc, ih, Nat.add_assoc]

theorem tension_blank_append (hb : Blank b) (p : Option Char) (t : Text) :
    tension p (b ++ t) = tension p t := by
  induction b with
  | nil => rfl
  | cons c b ih =>
    have hc : isSpace c = true := hb c List.mem_cons_self
    simp [tension, hc, ih fun d hd => hb d (List.mem_cons_of_mem c hd)]

theorem lastSolid_blank_append (hb : Blank b) (p : Option Char) (t : Text) :
    lastSolid p (b ++ t) = lastSolid p t := by
  induction b with
  | nil => rfl
  | cons c b ih =>
    have hc : isSpace c = true := hb c List.mem_cons_self
    simp [lastSolid, hc, ih fun d hd => hb d (List.mem_cons_of_mem c hd)]

theorem tension_le (p q : Option Char) (t : Text) : tension p t ≤ tension q t + 1 := by
  induction t generalizing p q with
  | nil => simp [tension]
  | cons c t ih =>
    cases hc : isSpace c with
    | true => simpa [tension, hc] using ih p q
    | false =>
      have hp := Bool.toNat_le (isTense p c)
      simp only [tension, hc, Bool.false_eq_true, if_false]
      omega

theorem weight_append (u s v : Text) :
    weight (u ++ (s ++ v)) = 5 * (u.countP isHeavy + s.countP isHeavy + v.countP isHeavy) +
      (tension none u + tension (lastSolid none u) s +
        tension (lastSolid (lastSolid none u) s) v) := by
  simp only [weight, List.countP_append, tension_append]
  omega

theorem weight_le (t : Text) : weight t ≤ 6 * t.length := by
  have hh := List.countP_le_length (p := isHeavy) (l := t)
  have ht (p : Option Char) : tension p t ≤ t.length := by
    induction t generalizing p with
    | nil => simp [tension]
    | cons c t ih =>
      have hp := Bool.toNat_le (isTense p c)
      have h1 := ih List.countP_le_length p
      have h2 := ih List.countP_le_length (some c)
      simp only [tension, List.length_cons]
      split <;> omega
  have := ht none
  unfold weight
  omega

theorem lighter_of_heavy (hh : new.countP isHeavy < old.countP isHeavy)
    (ht : ∀ p, tension p new ≤ tension p old + 3) : Lighter new old := by
  intro u v
  -- Three places at most are new inside, and one behind: less than one heavy character.
  have h1 := ht (lastSolid none u)
  have h2 := tension_le (lastSolid (lastSolid none u) new) (lastSolid (lastSolid none u) old) v
  rw [weight_append, weight_append]
  omega

/-! The fixes of the registry, one after another. -/

theorem lighter_values : Lighter "values".toList "yield".toList :=
  lighter_of_heavy (by decide) fun p => by simp [tension, isSpace, isTense]

theorem lighter_fn : Lighter "fn".toList "func".toList :=
  lighter_of_heavy (by decide) fun p => by simp [tension, isSpace, isTense]

theorem lighter_into : Lighter "into".toList "=>".toList :=
  lighter_of_heavy (by decide) fun p => by simp [tension, isSpace, isTense]

theorem lighter_dashes (c : Text) : Lighter (c ++ ['-', '-']) (c ++ ['/', '/']) := by
  refine lighter_of_heavy ?_ ?_
  · simp [isHeavy]
  · intro p
    simp [tension_append, tension, isSpace, isTense]

theorem lighter_parseSup (b : Text) :
    Lighter "parse_sup(".toList ("parse_zson".toList ++ (b ++ ['('])) := by
  refine lighter_of_heavy ?_ ?_
  · simp [isHeavy]
  · intro p
    simp [tension, isSpace, isTense]

section Call

variable {name argument inner b₁ b₂ b₃ : Text}

def load (argument : Text) : Nat :=
  5 * argument.countP isHeavy +
    (tension (some '(') argument + (isTense (lastSolid (some '(') argument) ')').toNat)

theorem heavy_call (name argument b₁ b₂ b₃ : Text) :
    name.countP isHeavy + 1 + argument.countP isHeavy ≤
      (name ++ (b₁ ++ '(' :: (b₂ ++ (argument ++ (b₃ ++ [')']))))).countP isHeavy := by
  have hp : isHeavy '(' = true := by decide
  simp only [List.countP_append, List.countP_cons, hp, if_true]
  omega

variable (h₁ : Blank b₁) (h₂ : Blank b₂) (h₃ : Blank b₃)
include h₁ h₂ h₃

theorem tension_call (p : Option Char) :
    tension p (name ++ (b₁ ++ '(' :: (b₂ ++ (argument ++ (b₃ ++ [')']))))) =
      tension p name + (tension (some '(') argument +
        (isTense (lastSolid (some '(') argument) ')').toNat) := by
  have ho : isSpace '(' = false := by decide
  have hc : isSpace ')' = false := by decide
  have ht : isTense (lastSolid p name) '(' = false := by simp [isTense]
  rw [tension_append, tension_blank_append h₁, tension, ho, ht]
  simp only [Bool.false_eq_true, if_false, Bool.toNat_false, Nat.zero_add]
  rw [tension_blank_append h₂, tension_append, tension_blank_append h₃]
  simp [tension, hc]

theorem lastSolid_call (p : Option Char) :
    lastSolid p (name ++ (b₁ ++ '(' :: (b₂ ++ (argument ++ (b₃ ++ [')']))))) = some ')' := by
  have hc : isSpace ')' = false := by decide
  rw [lastSolid_append, lastSolid_blank_append h₁, lastSolid, lastSolid_blank_append h₂,
    lastSolid_append, lastSolid_blank_append h₃]
  simp [lastSolid, hc]

theorem lighter_cast :
    Lighter (argument ++ ([':', ':'] ++ name))
      (name ++ (b₁ ++ '(' :: (b₂ ++ (argument ++ (b₃ ++ [')']))))) := by
  have hh := heavy_call name argument b₁ b₂ b₃
  have hc : isHeavy ':' = false := by decide
  refine lighter_of_heavy ?_ ?_
  · have hn : (argument ++ ([':', ':'] ++ name)).countP isHeavy =
        argument.countP isHeavy + name.countP isHeavy := by simp [hc]
    omega
  · intro p
    have hn := tension_le (some ':') p name
    have ha := tension_le p (some '(') argument
    have hs : tension (lastSolid p argument) ([':', ':'] ++ name) = tension (some ':') name := by
      simp [tension, isSpace, isTense]
    rw [tension_call h₁ h₂ h₃, tension_append, hs]
    omega

theorem lighter_call (h : load inner < load argument) :
    Lighter (name ++ '(' :: (inner ++ [')']))
      (name ++ (b₁ ++ '(' :: (b₂ ++ (argument ++ (b₃ ++ [')']))))) := by
  have h₀ : Blank [] := fun _ h => by cases h
  have hp : isHeavy '(' = true ∧ isHeavy ')' = false := by decide
  have hn : (name ++ '(' :: (inner ++ [')'])).countP isHeavy =
      name.countP isHeavy + 1 + inner.countP isHeavy := by
    simp only [List.countP_append, List.countP_cons, List.countP_nil, hp, if_true,
      Bool.false_eq_true, if_false]
    omega
  have ht (p : Option Char) : tension p (name ++ '(' :: (inner ++ [')'])) = _ :=
    tension_call h₀ h₀ h₀ p
  have hl (p : Option Char) : lastSolid p (name ++ '(' :: (inner ++ [')'])) = some ')' :=
    lastSolid_call h₀ h₀ h₀ p
  have hh := heavy_call name argument b₁ b₂ b₃
  intro u v
  rw [weight_append, weight_append, hn, ht, hl, tension_call h₁ h₂ h₃, lastSolid_call h₁ h₂ h₃]
  unfold load at h
  omega

omit h₃ in
theorem lighter_emptyCall (h : load inner < load []) :
    Lighter (name ++ '(' :: (inner ++ [')'])) (name ++ (b₁ ++ '(' :: (b₂ ++ [')']))) := by
  have h₃ : Blank [] := fun _ h => by cases h
  have hl : Lighter (name ++ '(' :: (inner ++ [')']))
      (name ++ (b₁ ++ '(' :: (b₂ ++ ([] ++ ([] ++ [')']))))) := lighter_call h₁ h₂ h₃ h
  exact hl

end Call

/-! Arguments of calls to which `this` is added. -/

theorem load_slashes (body : Text) :
    load ('\x27' :: (body ++ "', this".toList)) < load ('/' :: (body ++ ['/'])) := by
  have hn : load ('\x27' :: (body ++ "', this".toList)) =
      5 * body.countP isHeavy + tension (some '\x27') body := by
    simp [load, isHeavy, tension_append, lastSolid_append, tension, lastSolid, isSpace, isTense]
  have ho : load ('/' :: (body ++ ['/'])) =
      5 * (body.countP isHeavy + 2) + tension (some '/') body := by
    simp [load, isHeavy, tension_append, lastSolid_append, tension, lastSolid, isSpace, isTense]
  have hb := tension_le (some '\x27') (some '/') body
  omega

theorem load_quoted {quote : Char} (hq : quote = '\x27' ∨ quote = '\x22') (body : Text) :
    load (quote :: (body ++ [quote]) ++ ", this".toList) < load (quote :: (body ++ [quote])) := by
  have ht : isTense (some quote) ')' = true := by obtain rfl | rfl := hq <;> decide
  have hl : lastSolid (some '(') (quote :: (body ++ [quote])) = some quote := by
    have hs : isSpace quote = false := by obtain rfl | rfl := hq <;> decide
    exact lastSolid_concat hs _ (quote :: body)
  generalize quote :: (body ++ [quote]) = argument at hl
  have hn : load (argument ++ ", this".toList) =
      5 * argument.countP isHeavy + tension (some '(') argument := by
    simp [load, isHeavy, tension_append, lastSolid_append, tension, lastSolid, isSpace, isTense]
  rw [hn, load, hl, ht, Bool.toNat_true]
  omega

theorem load_angles (body : Text) :
    load ("this, ".toList ++ '<' :: (body ++ ['>'])) < load ('<' :: (body ++ ['>'])) := by
  have hn : load ("this, ".toList ++ '<' :: (body ++ ['>'])) =
      5 * body.countP isHeavy + tension (some '<') body := by
    simp [load, isHeavy, tension_append, lastSolid_append, tension, lastSolid, isSpace, isTense]
  have ho : load ('<' :: (body ++ ['>'])) =
      5 * body.countP isHeavy + (1 + tension (some '<') body) := by
    simp [load, isHeavy, tension_append, lastSolid_append, tension, lastSolid, isSpace, isTense]
  omega

theorem load_this : load "this".toList < load [] := by decide

def Rule.Lightens (rule : Rule) : Prop :=
  ∀ matched argument new, Construct rule.pattern matched argument →
    rule.newText ⟨matched, argument⟩ = some new → Lighter new matched

theorem lightens_renamedWord {code message old new : String}
    (h : Lighter new.toList old.toList) : (renamedWord code message old new).Lightens := by
  intro matched argument _ hc hn
  obtain rfl := Option.some.inj hn
  cases hc
  exact h

theorem lightens_arrow : arrow.Lightens := by
  intro matched argument _ hc hn
  obtain rfl := Option.some.inj hn
  cases hc
  exact lighter_into

theorem lightens_slashComment : slashComment.Lightens := by
  intro matched argument _ hc hn
  obtain rfl := Option.some.inj hn
  cases hc with
  | slashesFirst => exact lighter_dashes []
  | @slashes c => exact lighter_dashes [c]

theorem lightens_parseZson : parseZson.Lightens := by
  intro matched argument _ hc hn
  obtain rfl := Option.some.inj hn
  cases hc with
  | @callOpening _ b _ => exact lighter_parseSup b

namespace Substitution

theorem slashBody?_slashes (body : Text) : slashBody? ('/' :: (body ++ ['/'])) = some body := by
  have hl : ('/' :: body ++ ['/']).getLast? = some '/' := List.getLast?_concat
  rw [List.cons_append] at hl
  simp [slashBody?, hl]

theorem slashBody?_of_ne {c : Char} (hc : c ≠ '/') (t : Text) : slashBody? (c :: t) = none := by
  simp [slashBody?, hc]

variable {matched argument body : Text}

theorem newText_slashes (h : slashBody? argument = some body) :
    newText .grepThis ⟨matched, argument⟩ = "grep('".toList ++ body ++ "', this)".toList := by
  unfold newText
  rw [h]

theorem newText_quoted (h : slashBody? argument = none) :
    newText .grepThis ⟨matched, argument⟩ = "grep(".toList ++ argument ++ ", this)".toList := by
  unfold newText
  rw [h]

theorem newText_isThis :
    newText .isThis ⟨matched, argument⟩ = "is(this, ".toList ++ argument ++ [')'] := rfl

theorem newText_cast (type : Text) :
    newText (.cast type) ⟨matched, argument⟩ = argument ++ "::".toList ++ type := rfl

end Substitution

theorem lightens_implicitGrep : implicitGrep.Lightens := by
  intro matched argument new hc hn
  obtain ⟨d, hd, body, b₁, b₂, b₃, -, h₁, h₂, h₃, rfl, ha⟩ := construct_call_iff.1 hc
  obtain rfl := Option.some.inj hn
  simp only [List.mem_cons, List.not_mem_nil, or_false] at hd
  obtain rfl | hd := hd
  · obtain rfl : argument = '/' :: (body ++ ['/']) := ha
    have he : "grep('".toList ++ body ++ "', this)".toList =
        "grep".toList ++ '(' :: ('\x27' :: (body ++ "', this".toList) ++ [')']) := by simp
    simp only [Substitution.newText_slashes (Substitution.slashBody?_slashes body), he]
    exact lighter_call h₁ h₂ h₃ (load_slashes body)
  · obtain ⟨q, hq, rfl⟩ : ∃ q, (q = '\x27' ∨ q = '\x22') ∧ argument = q :: (body ++ [q]) := by
      obtain rfl | rfl := hd
      · exact ⟨'\x27', .inl rfl, ha⟩
      · exact ⟨'\x22', .inr rfl, ha⟩
    have hne : q ≠ '/' := by obtain rfl | rfl := hq <;> decide
    have he : "grep(".toList ++ q :: (body ++ [q]) ++ ", this)".toList =
        "grep".toList ++ '(' :: (q :: (body ++ [q]) ++ ", this".toList ++ [')']) := by simp
    simp only [Substitution.newText_quoted (Substitution.slashBody?_of_ne hne _), he]
    exact lighter_call h₁ h₂ h₃ (load_quoted hq body)

theorem lightens_implicitIs : implicitIs.Lightens := by
  intro matched argument new hc hn
  obtain ⟨d, hd, body, b₁, b₂, b₃, -, h₁, h₂, h₃, rfl, ha⟩ := construct_call_iff.1 hc
  obtain rfl := List.mem_singleton.1 hd
  obtain rfl := Option.some.inj hn
  obtain rfl : argument = '<' :: (body ++ ['>']) := ha
  have he : "is(this, ".toList ++ '<' :: (body ++ ['>']) ++ [')'] =
      "is".toList ++ '(' :: ("this, ".toList ++ '<' :: (body ++ ['>']) ++ [')']) := by simp
  simp only [Substitution.newText_isThis, he]
  exact lighter_call h₁ h₂ h₃ (load_angles body)

theorem lightens_implicitNestDotted : implicitNestDotted.Lightens := by
  intro matched argument new hc hn
  obtain ⟨b₁, b₂, h₁, h₂, rfl, -⟩ := construct_emptyCall_iff.1 hc
  obtain rfl := Option.some.inj hn
  have he : "nest_dotted(this)".toList =
      "nest_dotted".toList ++ '(' :: ("this".toList ++ [')']) := by simp
  simp only [he]
  exact lighter_emptyCall h₁ h₂ load_this

theorem lightens_functionCast (type : String) : (functionCast type).Lightens := by
  intro matched argument new hc hn
  obtain ⟨d, -, body, b₁, b₂, b₃, -, h₁, h₂, h₃, rfl, -⟩ := construct_call_iff.1 hc
  obtain rfl := Option.some.inj hn
  have hl : "::".toList = [':', ':'] := by simp
  simp only [Substitution.newText_cast, hl, List.append_assoc]
  exact lighter_cast h₁ h₂ h₃

theorem lightens_removedFunction (name : String) : (removedFunction name).Lightens := by
  intro matched argument _ _ hn
  cases hn

theorem lightens_of_mem_registry : ∀ rule ∈ registry, rule.Lightens := by
  simp only [registry, List.forall_mem_cons, List.not_mem_nil, false_implies, implies_true,
    and_true]
  exact ⟨lightens_renamedWord lighter_values, lightens_renamedWord lighter_fn, lightens_arrow,
    lightens_slashComment, lightens_parseZson, lightens_implicitGrep, lightens_implicitIs,
    lightens_implicitNestDotted, lightens_functionCast _, lightens_functionCast _,
    lightens_functionCast _, lightens_functionCast _, lightens_removedFunction _,
    lightens_removedFunction _, lightens_removedFunction _, lightens_removedFunction _,
    lightens_removedFunction _⟩

end QueryTidy.Migration

import Mathlib.Logic.Function.Iterate
import QueryTidy.Files.Tree
import QueryTidy.Proofs.Text.Utf8

/-! Rewriting files in place. A file may be named by several paths; whatever is written through
one of them is read through all, and nothing else changes. Main statements:
`readText_rewriteFile`, `readText_foldl_rewriteFile`, `exists_of_node?_foldl_ne`. -/
namespace QueryTidy

theorem exists_of_map_eq_ok {ε α β : Type} {g : α → β} {x : Except ε α} {b : β}
    (h : x.map g = .ok b) : ∃ a, x = .ok a ∧ g a = b := by
  cases x with
  | error e => cases h
  | ok a => exact ⟨a, rfl, Except.ok.inj h⟩

namespace Files.Tree

variable {tree other : Tree} {l k : Location} {node : Node} {path q : Path} {t : Text}
  {f : Text → Text}

theorem lookup_cons_eq (l k : Location) (node : Node) (nodes : List (Location × Node)) :
    ((l, node) :: nodes).lookup k = if k = l then some node else nodes.lookup k := by
  by_cases h : k = l
  · simp [h]
  · have hb : (k == l) = false := beq_false_of_ne h
    simp [List.lookup_cons, hb, h]

theorem lookup_insertIn (l k : Location) (node : Node) (nodes : List (Location × Node)) :
    (insertIn l node nodes).lookup k = if k = l then some node else nodes.lookup k := by
  induction nodes with
  | nil => rw [insertIn, lookup_cons_eq]
  | cons entry nodes ih =>
    obtain ⟨m, old⟩ := entry
    rw [insertIn, lookup_cons_eq]
    by_cases hm : m = l
    · rw [if_pos hm, lookup_cons_eq, hm]
      split <;> rfl
    · rw [if_neg hm, lookup_cons_eq, ih]
      by_cases h : k = m
      · subst k
        simp [hm]
      · simp [h]

theorem node?_insert (hl : l ≠ []) (node : Node) (k : Location) :
    (tree.insert l node).node? k = if k = l then some node else tree.node? k := by
  unfold node?
  rw [insert, lookup_insertIn]
  by_cases h : k = l
  · subst k
    simp [hl]
  · simp [h]

structure Alike (tree other : Tree) : Prop where
  current_eq : other.current = tree.current
  nodes_alike : ∀ l, tree.node? l = other.node? l ∨
    ∃ old new, tree.node? l = some (.file old) ∧ other.node? l = some (.file new)

theorem walk_of_alike (h : Alike tree other) (l : Location) (names : List String) :
    other.walk l names = tree.walk l names := by
  induction names generalizing l with
  | nil => rfl
  | cons name names ih =>
    rw [walk, walk]
    obtain he | ⟨old, new, ho, hn⟩ := h.nodes_alike l
    · rw [he]
      split <;> simp only [ih]
    · rw [ho, hn]

theorem locate_of_alike (h : Alike tree other) (path : Path) :
    other.locate path = tree.locate path := by
  rw [locate, locate, startOf, startOf, h.current_eq, walk_of_alike h]

theorem readText_eq (hp : path.hasNul = false) :
    tree.readText path =
      match tree.locate path with
      | .error cause => .error (.path cause path)
      | .ok l =>
        match tree.node? l with
        | none => .error (.path .notFound path)
        | some .directory => .error (.path .isDirectory path)
        | some (.file bytes) =>
          match Text.decode bytes with
          | .error fault => .error (.content fault)
          | .ok t => .ok t.unifyBreaks := by
  rw [readText, hp, readBytes]
  cases tree.locate path with
  | error cause => rfl
  | ok l =>
    simp only [bind, Except.bind]
    cases tree.node? l with
    | none => rfl
    | some node => cases node <;> rfl

theorem exists_of_readText (h : tree.readText path = .ok t) :
    path.hasNul = false ∧ '\r' ∉ t ∧
      ∃ l bytes, tree.locate path = .ok l ∧ l ≠ [] ∧ tree.node? l = some (.file bytes) := by
  have hp : path.hasNul = false := by
    cases hp : path.hasNul with
    | false => rfl
    | true => simp [readText, hp] at h
  rw [readText_eq hp] at h
  split at h
  · cases h
  · rename_i l hl
    split at h
    · cases h
    · cases h
    · rename_i bytes hb
      split at h
      · cases h
      · obtain rfl := Except.ok.inj h
        refine ⟨hp, Text.return_not_mem_unifyBreaks _, l, bytes, hl, ?_, hb⟩
        rintro rfl
        simp [node?] at hb

theorem writeText_of_readText (h : tree.readText path = .ok t) (hl : tree.locate path = .ok l)
    (s : Text) : tree.writeText path s = .ok (tree.insert l (.file s.encode)) := by
  obtain ⟨hp, -, m, bytes, hm, -, hb⟩ := exists_of_readText h
  obtain rfl : l = m := Except.ok.inj (hl.symm.trans hm)
  rw [writeText, hp, writeBytes, hl]
  simp only [bind, Except.bind, hb]
  rfl

/-- Puts `f t` in the place of the text `t` of a file, unless it is the same text. -/
def rewriteFile (f : Text → Text) (tree : Tree) (path : Path) : Tree :=
  match tree.readText path with
  | .error _ => tree
  | .ok t => if f t = t then tree else (tree.writeText path (f t)).toOption.getD tree

theorem rewriteFile_of_error {fault : Fault} (h : tree.readText path = .error fault) :
    tree.rewriteFile f path = tree := by
  simp [rewriteFile, h]

theorem rewriteFile_of_ok (h : tree.readText path = .ok t) (hl : tree.locate path = .ok l) :
    tree.rewriteFile f path =
      if f t = t then tree else tree.insert l (.file (f t).encode) := by
  simp [rewriteFile, h, writeText_of_readText h hl, Except.toOption]

theorem node?_rewriteFile (h : tree.readText path = .ok t) (hl : tree.locate path = .ok l)
    (k : Location) :
    (tree.rewriteFile f path).node? k =
      if k = l ∧ f t ≠ t then some (.file (f t).encode) else tree.node? k := by
  obtain ⟨-, -, m, -, hm, ht, -⟩ := exists_of_readText h
  obtain rfl : l = m := Except.ok.inj (hl.symm.trans hm)
  rw [rewriteFile_of_ok h hl]
  by_cases hf : f t = t
  · simp [hf]
  · simp [hf, node?_insert ht]

theorem alike_rewriteFile (f : Text → Text) (tree : Tree) (path : Path) :
    Alike tree (tree.rewriteFile f path) := by
  cases h : tree.readText path with
  | error fault =>
    rw [rewriteFile_of_error h]
    exact ⟨rfl, fun _ => .inl rfl⟩
  | ok t =>
    obtain ⟨-, -, l, bytes, hl, -, hb⟩ := exists_of_readText h
    refine ⟨?_, ?_⟩
    · rw [rewriteFile_of_ok h hl]
      split <;> rfl
    · intro k
      rw [node?_rewriteFile h hl]
      split
      · rename_i hk
        exact .inr ⟨bytes, (f t).encode, by rw [hk.1, hb], rfl⟩
      · exact .inl rfl

@[simp]
theorem locate_rewriteFile (f : Text → Text) (tree : Tree) (path q : Path) :
    (tree.rewriteFile f path).locate q = tree.locate q :=
  locate_of_alike (alike_rewriteFile f tree path) q

theorem readText_of_node? (hq : q.hasNul = false) (hl : tree.locate q = .ok l)
    (hn : tree.node? l = some (.file t.encode)) (ht : '\r' ∉ t) : tree.readText q = .ok t := by
  rw [readText_eq hq, hl]
  simp only [hn, Text.decode_encode, Text.unifyBreaks_eq_self ht]

theorem readText_of_locate_eq (hq : q.hasNul = false) (h : tree.readText path = .ok t)
    (hl : tree.locate q = tree.locate path) : tree.readText q = .ok t := by
  obtain ⟨hp, -, l, bytes, hm, -, hb⟩ := exists_of_readText h
  rw [readText_eq hp, hm] at h
  rw [readText_eq hq, hl, hm]
  simp only [hb] at h ⊢
  split at h
  · cases h
  · exact h

theorem readText_rewriteFile (hf : ∀ t, '\r' ∉ t → '\r' ∉ f t) (hp : path.hasNul = false)
    (q : Path) :
    (tree.rewriteFile f path).readText q =
      if tree.locate q = tree.locate path then (tree.readText q).map f else tree.readText q := by
  cases hq : q.hasNul with
  | true => simp [readText, hq, Except.map]
  | false =>
    cases h : tree.readText path with
    | error fault =>
      rw [rewriteFile_of_error h]
      split
      · rename_i hl
        -- A text that is read through `q` would also be read through `path`.
        cases hr : tree.readText q with
        | error fault => rfl
        | ok t =>
          rw [readText_of_locate_eq hp hr hl.symm] at h
          cases h
      · rfl
    | ok t =>
      obtain ⟨-, ht, l, bytes, hl, -, hb⟩ := exists_of_readText h
      have hn := node?_rewriteFile (f := f) h hl
      split
      · rename_i he
        have hr := readText_of_locate_eq hq h he
        rw [hr]
        by_cases hc : f t = t
        · rw [rewriteFile_of_ok h hl, if_pos hc, hr, Except.map, hc]
        · refine readText_of_node? hq (l := l) (by simp [he, hl]) ?_ (hf t ht)
          rw [hn, if_pos ⟨rfl, hc⟩]
      · rename_i he
        rw [readText_eq hq, readText_eq hq, locate_rewriteFile]
        cases hk : tree.locate q with
        | error cause => rfl
        | ok k =>
          have hne : k ≠ l := by
            rintro rfl
            exact he (hk.trans hl.symm)
          simp only [hn, hne, false_and, if_false]

theorem exists_of_node?_ne (h : (tree.rewriteFile f path).node? k ≠ tree.node? k) :
    ∃ t, tree.locate path = .ok k ∧ tree.readText path = .ok t ∧ f t ≠ t := by
  cases hr : tree.readText path with
  | error fault =>
    rw [rewriteFile_of_error hr] at h
    exact absurd rfl h
  | ok t =>
    obtain ⟨-, -, l, -, hl, -⟩ := exists_of_readText hr
    rw [node?_rewriteFile hr hl] at h
    split at h
    · rename_i hk
      obtain ⟨rfl, hc⟩ := hk
      exact ⟨t, hl, rfl, hc⟩
    · exact absurd rfl h

section
variable {paths : List Path}

/-- After a run over some paths, a file is rewritten as often as it was named. -/
theorem readText_foldl_rewriteFile (hf : ∀ t, '\r' ∉ t → '\r' ∉ f t)
    (hp : ∀ path ∈ paths, path.hasNul = false) (q : Path) :
    (paths.foldl (rewriteFile f) tree).readText q =
      (tree.readText q).map f^[paths.countP (tree.locate · = tree.locate q)] := by
  induction paths generalizing tree with
  | nil =>
    rw [List.foldl_nil]
    cases tree.readText q <;> rfl
  | cons path paths ih =>
    obtain ⟨hpath, hpaths⟩ := List.forall_mem_cons.1 hp
    rw [List.foldl_cons, ih hpaths, readText_rewriteFile hf hpath, List.countP_cons]
    simp only [locate_rewriteFile, decide_eq_true_eq]
    by_cases he : tree.locate path = tree.locate q
    · rw [if_pos he, if_pos he.symm]
      cases tree.readText q <;> rfl
    · rw [if_neg he, if_neg (Ne.symm he), Nat.add_zero]

theorem exists_of_node?_foldl_ne (hf : ∀ t, '\r' ∉ t → '\r' ∉ f t)
    (hp : ∀ path ∈ paths, path.hasNul = false)
    (h : (paths.foldl (rewriteFile f) tree).node? k ≠ tree.node? k) :
    ∃ path ∈ paths, ∃ t, tree.locate path = .ok k ∧ tree.readText path = .ok t ∧ f t ≠ t := by
  induction paths generalizing tree with
  | nil => exact absurd rfl h
  | cons path paths ih =>
    obtain ⟨hpath, hpaths⟩ := List.forall_mem_cons.1 hp
    by_cases hs : (tree.rewriteFile f path).node? k = tree.node? k
    · rw [List.foldl_cons, ← hs] at h
      obtain ⟨q, hq, t, hl, hr, hc⟩ := ih hpaths h
      rw [locate_rewriteFile] at hl
      rw [readText_rewriteFile hf hpath] at hr
      -- Had `f` left the first text of the file alone, it would leave the second one alone.
      have ht : ∃ t, tree.readText q = .ok t ∧ f t ≠ t := by
        split at hr
        · obtain ⟨s, hs, rfl⟩ := exists_of_map_eq_ok hr
          exact ⟨s, hs, fun he => hc (by rw [he, he])⟩
        · exact ⟨t, hr, hc⟩
      obtain ⟨t, hr, hc⟩ := ht
      exact ⟨q, List.mem_cons_of_mem path hq, t, hl, hr, hc⟩
    · exact ⟨path, List.mem_cons_self, exists_of_node?_ne hs⟩

end

end Files.Tree
end QueryTidy

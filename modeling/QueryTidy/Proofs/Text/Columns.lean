import QueryTidy.Proofs.Place.Addressing
import QueryTidy.Proofs.Text.Utf8

/-! Byte columns of a line against indices of its characters. The first bytes of a line are a text
by themselves just when they end between two characters. Main statements: `decode_take_iff`,
`indexAt_columnAt`. -/
namespace QueryTidy.Text

variable {line u : Text} {c : Char} {bytes : Bytes} {n i j : Nat}

theorem encode_append (t u : Text) : encode (t ++ u) = encode t ++ encode u :=
  List.flatMap_append

theorem encode_cons (c : Char) (t : Text) :
    encode (c :: t) = String.utf8EncodeChar c ++ encode t := List.flatMap_cons

theorem length_encode (t : Text) : (encode t).length = t.utf8Size := by
  induction t with
  | nil => rfl
  | cons c t ih =>
    rw [encode_cons, List.length_append, String.length_utf8EncodeChar, ih, utf8Size_cons]

theorem decodeFrom_short {p : Partial} (h : bytes.length < p.left) (i : Nat) :
    ∃ fault, decodeFrom i (some p) bytes = .error fault := by
  induction bytes generalizing p i with
  | nil => exact ⟨_, rfl⟩
  | cons b bytes ih =>
    rw [List.length_cons] at h
    rw [decodeFrom]
    dsimp only
    split
    · rw [if_neg (by omega)]
      exact ih (by dsimp only; omega) _
    · exact ⟨_, rfl⟩

theorem exists_ofLead (hn : 0xc2 ≤ n) (hn' : n < 0xf5) (i : Nat) :
    ∃ p, Partial.ofLead? (UInt8.ofNat n) i = some p ∧
      p.left = if n < 0xe0 then 1 else if n < 0xf0 then 2 else 3 := by
  simp only [Partial.ofLead?, toNat_ofNat_byte (n := n) (by omega)]
  by_cases h2 : n < 0xe0
  · exact ⟨_, if_pos ⟨hn, h2⟩, (if_pos h2).symm⟩
  by_cases h3 : n < 0xf0
  · refine ⟨_, (if_neg (by omega)).trans (if_pos ⟨by omega, h3⟩), ?_⟩
    simp [h2, h3]
  · refine ⟨_, (if_neg (by omega)).trans ((if_neg (by omega)).trans (if_pos ⟨by omega, hn'⟩)), ?_⟩
    simp [h2, h3]

theorem exists_lead (hc : 1 < c.utf8Size) (i : Nat) :
    ∃ b bytes p, String.utf8EncodeChar c = b :: bytes ∧ 128 ≤ b.toNat ∧
      Partial.ofLead? b i = some p ∧ p.left = bytes.length := by
  have announced (n : Nat) (bytes : Bytes) (hn : 0xc2 ≤ n) (hn' : n < 0xf5)
      (hl : bytes.length = if n < 0xe0 then 1 else if n < 0xf0 then 2 else 3) :
      ∃ b bytes' p, UInt8.ofNat n :: bytes = b :: bytes' ∧ 128 ≤ b.toNat ∧
        Partial.ofLead? b i = some p ∧ p.left = bytes'.length := by
    obtain ⟨p, hp, hleft⟩ := exists_ofLead hn hn' i
    refine ⟨_, _, p, rfl, ?_, hp, hleft.trans hl.symm⟩
    rw [toNat_ofNat_byte (by omega)]
    omega
  have hlen := String.length_utf8EncodeChar c
  have hv := toNat_char c
  simp only [String.utf8EncodeChar] at hlen ⊢
  generalize c.val.toNat = v at hv hlen
  split_ifs at hlen ⊢ with h1 h2 h3
  · simp only [List.length_cons, List.length_nil] at hlen
    omega
  · refine announced _ _ (by omega) (by omega) ?_
    rw [if_pos (by omega)]
    rfl
  · refine announced _ _ (by omega) (by omega) ?_
    rw [if_neg (by omega), if_pos (by omega)]
    rfl
  · refine announced _ _ (by omega) (by omega) ?_
    rw [if_neg (by omega), if_neg (by omega)]
    rfl

theorem decodeFrom_take_char (hn : 0 < n) (hc : n < c.utf8Size) (i : Nat) :
    ∃ fault, decodeFrom i none ((String.utf8EncodeChar c).take n) = .error fault := by
  obtain ⟨b, bytes, p, hb, hlow, hp, hleft⟩ := exists_lead (c := c) (by omega) i
  have hlen := String.length_utf8EncodeChar c
  obtain ⟨m, rfl⟩ := Nat.exists_eq_add_one.2 hn
  rw [hb, List.length_cons] at hlen
  rw [hb, List.take_succ_cons, decodeFrom]
  simp only [if_neg (Nat.not_lt.2 hlow), hp]
  refine decodeFrom_short ?_ _
  rw [List.length_take, hleft]
  omega

theorem take_encode_append (u v : Text) : (encode (u ++ v)).take u.utf8Size = encode u := by
  rw [encode_append, List.take_left' (length_encode u)]

/-- The first bytes of a line are those of its first characters, or they cannot be read. -/
theorem decode_take_iff (hn : n ≤ line.utf8Size) :
    decode ((encode line).take n) = .ok u ↔ ∃ v, line = u ++ v ∧ u.utf8Size = n := by
  constructor
  · intro h
    obtain ⟨a, b, rfl, rfl⟩ | ⟨a, c, b, rfl, h1, h2⟩ := boundary_or_inside hn
    · rw [take_encode_append, decode_encode] at h
      obtain rfl := Except.ok.inj h
      exact ⟨b, rfl, rfl⟩
    · -- The bytes end inside of `c`.
      exfalso
      have hb : (encode (a ++ c :: b)).take n =
          encode a ++ (String.utf8EncodeChar c).take (n - a.utf8Size) := by
        rw [encode_append, encode_cons, List.take_append, length_encode,
          List.take_of_length_le (by rw [length_encode]; omega),
          List.take_append_of_le_length (by rw [String.length_utf8EncodeChar]; omega)]
      obtain ⟨k, hk⟩ := decodeFrom_encode_append a 0
        ((String.utf8EncodeChar c).take (n - a.utf8Size))
      obtain ⟨fault, hf⟩ := decodeFrom_take_char (c := c) (n := n - a.utf8Size) (by omega)
        (by omega) k
      rw [hb, decode, hk, hf] at h
      cases h
  · intro h
    obtain ⟨v, rfl, rfl⟩ := h
    rw [take_encode_append, decode_encode]

theorem exists_prefix_iff_columnAt :
    (∃ u v, line = u ++ v ∧ u.utf8Size = n ∧ u.length = i) ↔
      i ≤ line.length ∧ line.columnAt i = n := by
  rw [columnAt_natCast]
  constructor
  · intro h
    obtain ⟨u, v, rfl, rfl, rfl⟩ := h
    simp
  · intro h
    obtain ⟨hi, rfl⟩ := h
    refine ⟨line.take i, line.drop i, (List.take_append_drop i line).symm, rfl, ?_⟩
    exact List.length_take_of_le hi

inductive Missed (line : Text) (column : Int) : ColumnFault → Prop
  | negative : column < 0 → Missed line column (.outside column line.utf8Size)
  | pastEnd : line.utf8Size < column → Missed line column (.outside column line.utf8Size)
  | inside {a b : Text} {c : Char} : line = a ++ c :: b → a.utf8Size < column →
      column < a.utf8Size + c.utf8Size → Missed line column (.split column)

theorem indexAt_of_negative {column : Int} (h : column < 0) :
    line.indexAt column = .error (.outside column line.utf8Size) := if_pos (.inl h)

theorem indexAt_eq_ok_iff_columnAt {column : Int} :
    line.indexAt column = .ok i ↔ i ≤ line.length ∧ line.columnAt i = column := by
  by_cases h : column < 0
  · rw [indexAt_of_negative h]
    constructor
    · intro he
      cases he
    · intro h
      obtain ⟨-, he⟩ := h
      omega
  · obtain ⟨n, rfl⟩ := Int.eq_ofNat_of_zero_le (Int.not_lt.1 h)
    rw [indexAt_eq_ok_iff, exists_prefix_iff_columnAt, Int.natCast_inj]

theorem indexAt_eq_error_iff {column : Int} {fault : ColumnFault} :
    line.indexAt column = .error fault ↔ Missed line column fault := by
  constructor
  · intro h
    unfold indexAt at h
    split at h
    · rename_i ho
      obtain rfl := Except.error.inj h
      rcases ho with ho | ho
      · exact .negative ho
      · exact .pastEnd ho
    · rename_i ho
      split at h
      · cases h
      · rename_i hn
        obtain rfl := Except.error.inj h
        have hb : column.toNat ≤ line.utf8Size := by omega
        obtain ⟨u, v, hu, hs⟩ | ⟨a, c, b, hl, h1, h2⟩ := boundary_or_inside hb
        · rw [charsIn_eq_some_iff.2 ⟨u, v, hu, hs, rfl⟩] at hn
          cases hn
        · exact .inside hl (by omega) (by omega)
  · intro h
    unfold indexAt
    cases h with
    | negative h => exact if_pos (.inl h)
    | pastEnd h => exact if_pos (.inr h)
    | @inside a b c hl h1 h2 =>
      have hsize : line.utf8Size = a.utf8Size + (c.utf8Size + b.utf8Size) := by
        rw [hl, utf8Size_append, utf8Size_cons]
      rw [if_neg (by omega)]
      split
      · rename_i hs
        obtain ⟨u, v, hu, hn, -⟩ := charsIn_eq_some_iff.1 hs
        have hin := not_inside (hu.symm.trans hl) (by omega)
        omega
      · rfl

theorem indexAt_eq_ok_iff_decode {column : Int} :
    line.indexAt column = .ok i ↔
      0 ≤ column ∧ column ≤ (encode line).length ∧
        ∃ u, decode ((encode line).take column.toNat) = .ok u ∧ u.length = i := by
  rw [length_encode]
  by_cases h : column < 0
  · rw [indexAt_of_negative h]
    constructor
    · intro he
      cases he
    · intro h
      obtain ⟨h0, -⟩ := h
      omega
  obtain ⟨n, rfl⟩ := Int.eq_ofNat_of_zero_le (Int.not_lt.1 h)
  rw [indexAt_eq_ok_iff, Int.toNat_natCast]
  constructor
  · intro h
    obtain ⟨u, v, hu, hs, hi⟩ := h
    have hn : n ≤ line.utf8Size := by
      rw [hu, utf8Size_append]
      omega
    exact ⟨by omega, by omega, u, (decode_take_iff hn).2 ⟨v, hu, hs⟩, hi⟩
  · intro h
    obtain ⟨-, hn, u, hu, hi⟩ := h
    obtain ⟨v, hl, hs⟩ := (decode_take_iff (by omega)).1 hu
    exact ⟨u, v, hl, hs, hi⟩

/-- On a line, byte columns and indices are inverse to each other. A column is the number of bytes
in front of a character, and the index at a column the number of characters that these bytes are;
so every other column is refused: it is negative, past the end of the line, or inside of a
character. -/
theorem indexAt_columnAt (line : Text) :
    (∀ i : Nat, i ≤ line.length → line.indexAt (line.columnAt i) = .ok i) ∧
    (∀ i j : Nat, i < j → j ≤ line.length → line.columnAt i < line.columnAt j) ∧
    (∀ i : Nat, line.columnAt i = (encode (line.take i)).length) ∧
    ∀ column : Int,
      (∀ i : Nat, line.indexAt column = .ok i ↔ i ≤ line.length ∧ line.columnAt i = column) ∧
      (∀ i : Nat, line.indexAt column = .ok i ↔
        0 ≤ column ∧ column ≤ (encode line).length ∧
          ∃ u, decode ((encode line).take column.toNat) = .ok u ∧ u.length = i) ∧
      ((∃ fault, line.indexAt column = .error fault) ↔
        ¬ ∃ i : Nat, i ≤ line.length ∧ line.columnAt i = column) ∧
      ∀ fault, line.indexAt column = .error fault ↔ Missed line column fault := by
  refine ⟨?_, ?_, ?_, ?_⟩
  · intro i hi
    exact indexAt_eq_ok_iff_columnAt.2 ⟨hi, rfl⟩
  · intro i j hij hj
    rw [columnAt_natCast, columnAt_natCast]
    exact utf8Size_take_lt hij hj
  · intro i
    rw [columnAt_natCast, length_encode]
  · intro column
    refine ⟨fun i => indexAt_eq_ok_iff_columnAt, fun i => indexAt_eq_ok_iff_decode, ?_,
      fun fault => indexAt_eq_error_iff⟩
    simp only [← indexAt_eq_ok_iff_columnAt]
    cases line.indexAt column <;> simp

/-- Between characters of two and of four bytes, and inside of the second one. -/
theorem indexAt_columnAt_wide :
    let line : Text := "é🙂x".toList
    1 ≤ line.length ∧ line.columnAt 1 = 2 ∧ line.indexAt 2 = .ok 1 ∧
      (1 < 2 ∧ 2 ≤ line.length ∧ line.columnAt 1 < line.columnAt 2) ∧
      line.indexAt 4 = .error (.split 4) ∧ Missed line 4 (.split 4) := by
  intro line
  obtain ⟨hi, hlt, -, hc⟩ := indexAt_columnAt line
  have hs : line.indexAt 4 = .error (.split 4) := by decide
  refine ⟨by decide, by decide, hi 1 (by decide), ⟨by decide, by decide, ?_⟩, hs, ?_⟩
  · exact hlt 1 2 (by decide) (by decide)
  · exact ((hc 4).2.2.2 _).1 hs

end QueryTidy.Text

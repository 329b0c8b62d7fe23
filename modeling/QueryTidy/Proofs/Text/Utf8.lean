import Mathlib.Data.List.Basic
import QueryTidy.Text.Utf8

/-! A text that is written as bytes and read again. The lead byte of a character rules out just
the second bytes that no character has. Main statements: `decode_encode`,
`unifyBreaks_eq_self`, `return_not_mem_unifyBreaks`. -/
namespace QueryTidy.Text

theorem toNat_ofNat_byte {n : Nat} (h : n < 256) : (UInt8.ofNat n).toNat = n :=
  UInt8.toNat_ofNat_of_lt' h

section
variable {p : Partial} {n v : Nat} (i : Nat) (bytes : Bytes)

theorem decodeFrom_lead (hn : 128 ≤ n) (hb : n < 256)
    (hp : Partial.ofLead? (UInt8.ofNat n) i = some p) :
    decodeFrom i none (UInt8.ofNat n :: bytes) = decodeFrom (i + 1) (some p) bytes := by
  rw [decodeFrom, toNat_ofNat_byte hb, hp]
  simp [Nat.not_lt.2 hn]

theorem decodeFrom_inside (hn : n < 64) (hl : p.low ≤ n + 128) (hh : n + 128 ≤ p.high)
    (hp : 1 < p.left) :
    decodeFrom i (some p) (UInt8.ofNat (n + 128) :: bytes) =
      decodeFrom (i + 1) (some ⟨p.lead, p.start, p.bits * 64 + n, p.left - 1, 0x80, 0xbf⟩)
        bytes := by
  rw [decodeFrom, toNat_ofNat_byte (by omega)]
  simp [hl, hh, Nat.not_le.2 hp]

theorem decodeFrom_last (hn : n < 64) (hl : p.low ≤ n + 128) (hh : n + 128 ≤ p.high)
    (hp : p.left = 1) :
    decodeFrom i (some p) (UInt8.ofNat (n + 128) :: bytes) =
      (decodeFrom (i + 1) none bytes).map (Char.ofNat (p.bits * 64 + n) :: ·) := by
  rw [decodeFrom, toNat_ofNat_byte (by omega)]
  simp [hl, hh, hp]

theorem decodeFrom_two (h : 127 < v) (h' : v ≤ 2047) :
    decodeFrom i none
        (UInt8.ofNat (v / 64 % 32 + 192) :: UInt8.ofNat (v % 64 + 128) :: bytes) =
      (decodeFrom (i + 2) none bytes).map (Char.ofNat v :: ·) := by
  have hn := toNat_ofNat_byte (n := v / 64 % 32 + 192) (by omega)
  have hp : Partial.ofLead? (UInt8.ofNat (v / 64 % 32 + 192)) i =
      some ⟨UInt8.ofNat (v / 64 % 32 + 192), i, v / 64 % 32, 1, 0x80, 0xbf⟩ := by
    simp only [Partial.ofLead?, hn]
    rw [if_pos (by omega)]
    simp
  have hv : v / 64 % 32 * 64 + v % 64 = v := by omega
  rw [decodeFrom_lead i _ (by omega) (by omega) hp,
    decodeFrom_last _ _ (by omega) (by simp) (by simp; omega) rfl]
  simp only [hv]

/-- Of three bytes, the first one bounds the second, so that the number is not too small and no
surrogate. -/
theorem decodeFrom_three (h : 2047 < v) (h' : v ≤ 65535) (hs : v < 0xd800 ∨ 0xdfff < v) :
    decodeFrom i none
        (UInt8.ofNat (v / 4096 % 16 + 224) :: UInt8.ofNat (v / 64 % 64 + 128) ::
          UInt8.ofNat (v % 64 + 128) :: bytes) =
      (decodeFrom (i + 3) none bytes).map (Char.ofNat v :: ·) := by
  have hn := toNat_ofNat_byte (n := v / 4096 % 16 + 224) (by omega)
  have hp : Partial.ofLead? (UInt8.ofNat (v / 4096 % 16 + 224)) i =
      some ⟨UInt8.ofNat (v / 4096 % 16 + 224), i, v / 4096 % 16, 2,
        if v / 4096 % 16 + 224 = 0xe0 then 0xa0 else 0x80,
        if v / 4096 % 16 + 224 = 0xed then 0x9f else 0xbf⟩ := by
    simp only [Partial.ofLead?, hn]
    rw [if_neg (by omega), if_pos (by omega), Nat.add_sub_cancel]
  have hv : (v / 4096 % 16 * 64 + v / 64 % 64) * 64 + v % 64 = v := by omega
  rw [decodeFrom_lead i _ (by omega) (by omega) hp,
    decodeFrom_inside _ _ (by omega) (by dsimp only; split <;> omega)
      (by dsimp only; split <;> omega) (by simp),
    decodeFrom_last _ _ (by omega) (by simp) (by simp; omega) rfl]
  simp only [hv]

theorem decodeFrom_four (h : 65535 < v) (h' : v < 0x110000) :
    decodeFrom i none
        (UInt8.ofNat (v / 262144 % 8 + 240) :: UInt8.ofNat (v / 4096 % 64 + 128) ::
          UInt8.ofNat (v / 64 % 64 + 128) :: UInt8.ofNat (v % 64 + 128) :: bytes) =
      (decodeFrom (i + 4) none bytes).map (Char.ofNat v :: ·) := by
  have hn := toNat_ofNat_byte (n := v / 262144 % 8 + 240) (by omega)
  have hp : Partial.ofLead? (UInt8.ofNat (v / 262144 % 8 + 240)) i =
      some ⟨UInt8.ofNat (v / 262144 % 8 + 240), i, v / 262144 % 8, 3,
        if v / 262144 % 8 + 240 = 0xf0 then 0x90 else 0x80,
        if v / 262144 % 8 + 240 = 0xf4 then 0x8f else 0xbf⟩ := by
    simp only [Partial.ofLead?, hn]
    rw [if_neg (by omega), if_neg (by omega), if_pos (by omega), Nat.add_sub_cancel]
  have hv : ((v / 262144 % 8 * 64 + v / 4096 % 64) * 64 + v / 64 % 64) * 64 + v % 64 = v := by
    omega
  rw [decodeFrom_lead i _ (by omega) (by omega) hp,
    decodeFrom_inside _ _ (by omega) (by dsimp only; split <;> omega)
      (by dsimp only; split <;> omega) (by simp),
    decodeFrom_inside _ _ (by omega) (by simp) (by simp; omega) (by simp),
    decodeFrom_last _ _ (by omega) (by simp) (by simp; omega) rfl]
  simp only [hv]

end

theorem toNat_char (c : Char) :
    c.val.toNat < 0xd800 ∨ 0xdfff < c.val.toNat ∧ c.val.toNat < 0x110000 := by
  have h := c.valid
  simpa [UInt32.isValidChar, Nat.isValidChar] using h

theorem decodeFrom_char (c : Char) (i : Nat) (bytes : Bytes) :
    ∃ k, decodeFrom i none (String.utf8EncodeChar c ++ bytes) =
      (decodeFrom k none bytes).map (c :: ·) := by
  have hv := toNat_char c
  have hc : Char.ofNat c.val.toNat = c := Char.ofNat_toNat c
  simp only [String.utf8EncodeChar]
  generalize c.val.toNat = v at hv hc
  subst hc
  split_ifs with h1 h2 h3
  · refine ⟨i + 1, ?_⟩
    rw [List.singleton_append, decodeFrom, toNat_ofNat_byte (by omega)]
    simp [Nat.lt_succ_of_le h1]
  · exact ⟨i + 2, decodeFrom_two i bytes (by omega) h2⟩
  · exact ⟨i + 3, decodeFrom_three i bytes (by omega) h3 (by omega)⟩
  · exact ⟨i + 4, decodeFrom_four i bytes (by omega) (by omega)⟩

theorem decodeFrom_encode_append (t : Text) (i : Nat) (bytes : Bytes) :
    ∃ k, decodeFrom i none (encode t ++ bytes) = (decodeFrom k none bytes).map (t ++ ·) := by
  induction t generalizing i with
  | nil =>
    refine ⟨i, ?_⟩
    rw [encode, List.flatMap_nil, List.nil_append]
    cases decodeFrom i none bytes <;> rfl
  | cons c t ih =>
    obtain ⟨j, hj⟩ := decodeFrom_char c i (encode t ++ bytes)
    obtain ⟨k, hk⟩ := ih j
    refine ⟨k, ?_⟩
    rw [encode, List.flatMap_cons, ← encode, List.append_assoc, hj, hk]
    cases decodeFrom k none bytes <;> rfl

theorem decode_encode (t : Text) : decode (encode t) = .ok t := by
  obtain ⟨k, hk⟩ := decodeFrom_encode_append t 0 []
  rw [List.append_nil] at hk
  rw [decode, hk, decodeFrom]
  exact congrArg Except.ok (List.append_nil t)

theorem return_not_mem_unifyBreaks (t : Text) : '\r' ∉ unifyBreaks t := by
  fun_induction unifyBreaks t with
  | case1 => simp
  | case2 t ih => simpa using ih
  | case3 t _ ih => simpa using ih
  | case4 c t _ hc ih =>
    have hne : '\r' ≠ c := fun he => hc he.symm
    simp [hne, ih]

theorem unifyBreaks_eq_self {t : Text} (h : '\r' ∉ t) : unifyBreaks t = t := by
  fun_induction unifyBreaks t with
  | case1 => rfl
  | case2 | case3 => simp at h
  | case4 c t _ _ ih =>
    rw [ih]
    intro hm
    exact h (List.mem_cons_of_mem c hm)

end QueryTidy.Text

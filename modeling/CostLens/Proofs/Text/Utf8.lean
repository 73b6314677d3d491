import CostLens.Text.Utf8

/-! # Decoding what was encoded

The bytes of a character are read back as that character, whatever follows them, and take exactly
their own number. A whole text follows by induction. Carriage returns are the only characters that
the reading of a file does not keep.
-/
namespace CostLens.Utf8

theorem toNat_byte {n : Nat} (h : n < 0x100) : (byte n).toNat = n := by
  simp only [byte, UInt8.toNat_ofNat']
  omega

theorem toNat_valid (c : Char) : c.toNat < 0xd800 ∨ (0xdfff < c.toNat ∧ c.toNat < 0x110000) := by
  have h := c.valid
  simp only [UInt32.isValidChar, Nat.isValidChar] at h
  simp only [Char.toNat]
  omega

theorem follow_byte {lead : Lead} {used k m : Nat} {bs : Bytes} (hm : m < 0x100)
    (hlow : lead.low ≤ m) (hhigh : m ≤ lead.high) :
    follow lead used (k + 1) (byte m :: bs) =
      follow ⟨lead.following, 0x80, 0xbf, 0x40 * lead.bits + (m - 0x80)⟩ (used + 1) k bs := by
  rw [follow, toNat_byte hm, if_pos ⟨hlow, hhigh⟩]

/-- A byte behind the first one or two is a continuation byte, whatever its six bits are. -/
theorem follow_tail {lead : Lead} {used k n : Nat} {bs : Bytes} (hlow : lead.low = 0x80)
    (hhigh : lead.high = 0xbf) (hn : n < 0x40) :
    follow lead used (k + 1) (byte (0x80 + n) :: bs) =
      follow ⟨lead.following, 0x80, 0xbf, 0x40 * lead.bits + n⟩ (used + 1) k bs := by
  rw [follow_byte (by omega) (by omega) (by omega), Nat.add_sub_cancel_left]

theorem next_of_lead {b : UInt8} {bs : Bytes} {lead : Lead} {c : Char} {used : Nat}
    (hl : lead? b = some lead) (hf : follow lead 1 lead.following bs = .ok (c.toNat, used)) :
    next b bs = .ok (c, used) := by
  simp only [next, hl, hf, Except.map, Char.ofNat_toNat]

theorem next_two {c : Char} {rest : Bytes} (h1 : 0x80 ≤ c.toNat) (h2 : c.toNat < 0x800) :
    next (byte (0xc0 + c.toNat / 0x40)) (byte (0x80 + c.toNat % 0x40) :: rest) = .ok (c, 2) := by
  have hl : lead? (byte (0xc0 + c.toNat / 0x40)) = some ⟨1, 0x80, 0xbf, c.toNat / 0x40⟩ := by
    simp only [lead?, toNat_byte (show 0xc0 + c.toNat / 0x40 < 0x100 by omega)]
    rw [if_neg (by omega), if_neg (by omega), if_pos (by omega), Nat.add_sub_cancel_left]
  apply next_of_lead hl
  rw [follow_tail rfl rfl (by omega), follow]
  simp only [Except.ok.injEq, Prod.mk.injEq, and_true]
  omega

theorem next_three {c : Char} {rest : Bytes} (h1 : 0x800 ≤ c.toNat) (h2 : c.toNat < 0x10000) :
    next (byte (0xe0 + c.toNat / 0x1000)) (byte (0x80 + c.toNat / 0x40 % 0x40) ::
      byte (0x80 + c.toNat % 0x40) :: rest) = .ok (c, 3) := by
  have hv := toNat_valid c
  have hl : ∃ low high, lead? (byte (0xe0 + c.toNat / 0x1000)) =
      some ⟨2, low, high, c.toNat / 0x1000⟩ ∧ low ≤ 0x80 + c.toNat / 0x40 % 0x40 ∧
      0x80 + c.toNat / 0x40 % 0x40 ≤ high := by
    simp only [lead?, toNat_byte (show 0xe0 + c.toNat / 0x1000 < 0x100 by omega)]
    rw [if_neg (by omega), if_neg (by omega), if_neg (by omega), if_pos (by omega),
      Nat.add_sub_cancel_left]
    -- the lowest lead byte excludes overlong forms, and one of them excludes the surrogates
    refine ⟨_, _, rfl, ?_, ?_⟩ <;> split <;> omega
  obtain ⟨low, high, hl, hlow, hhigh⟩ := hl
  apply next_of_lead hl
  rw [follow_byte (by omega) hlow hhigh, follow_tail rfl rfl (by omega), follow]
  simp only [Except.ok.injEq, Prod.mk.injEq, and_true]
  omega

theorem next_four {c : Char} {rest : Bytes} (h1 : 0x10000 ≤ c.toNat) :
    next (byte (0xf0 + c.toNat / 0x40000)) (byte (0x80 + c.toNat / 0x1000 % 0x40) ::
      byte (0x80 + c.toNat / 0x40 % 0x40) :: byte (0x80 + c.toNat % 0x40) :: rest) =
      .ok (c, 4) := by
  have hv := toNat_valid c
  have hl : ∃ low high, lead? (byte (0xf0 + c.toNat / 0x40000)) =
      some ⟨3, low, high, c.toNat / 0x40000⟩ ∧ low ≤ 0x80 + c.toNat / 0x1000 % 0x40 ∧
      0x80 + c.toNat / 0x1000 % 0x40 ≤ high := by
    simp only [lead?, toNat_byte (show 0xf0 + c.toNat / 0x40000 < 0x100 by omega)]
    rw [if_neg (by omega), if_neg (by omega), if_neg (by omega), if_neg (by omega),
      if_pos (by omega), Nat.add_sub_cancel_left]
    refine ⟨_, _, rfl, ?_, ?_⟩ <;> split <;> omega
  obtain ⟨low, high, hl, hlow, hhigh⟩ := hl
  apply next_of_lead hl
  rw [follow_byte (by omega) hlow hhigh, follow_tail rfl rfl (by omega),
    follow_tail rfl rfl (by omega), follow]
  simp only [Except.ok.injEq, Prod.mk.injEq, and_true]
  omega

/-- The bytes of a character in front of others are read as that character. -/
theorem next_encodeChar (c : Char) (rest : Bytes) :
    ∃ b bs, encodeChar c = b :: bs ∧ next b (bs ++ rest) = .ok (c, bs.length + 1) := by
  unfold encodeChar
  by_cases h1 : c.toNat < 0x80
  · simp only [h1, if_true]
    have hl : lead? (byte c.toNat) = some ⟨0, 0x80, 0xbf, c.toNat⟩ := by
      simp only [lead?, toNat_byte (show c.toNat < 0x100 by omega), h1, if_true]
    exact ⟨_, _, rfl, next_of_lead hl rfl⟩
  by_cases h2 : c.toNat < 0x800
  · simp only [h1, h2, if_true, if_false]
    exact ⟨_, _, rfl, next_two (by omega) h2⟩
  by_cases h3 : c.toNat < 0x10000
  · simp only [h1, h2, h3, if_true, if_false]
    exact ⟨_, _, rfl, next_three (by omega) h3⟩
  · simp only [h1, h2, h3, if_false]
    exact ⟨_, _, rfl, next_four (by omega)⟩

theorem decodeFrom_skip (place : Nat) (bs rest : Bytes) :
    decodeFrom place bs.length (bs ++ rest) = decodeFrom (place + bs.length) 0 rest := by
  induction bs generalizing place with
  | nil => rfl
  | cons b bs ih =>
    simp only [List.length_cons, List.cons_append, decodeFrom, ih]
    congr 1
    omega

theorem decodeFrom_encode (place : Nat) (t : Text) : decodeFrom place 0 (encode t) = .ok t := by
  induction t generalizing place with
  | nil => rfl
  | cons c t ih =>
    obtain ⟨b, bs, hc, hn⟩ := next_encodeChar c (encode t)
    have he : encode (c :: t) = b :: (bs ++ encode t) := by
      rw [encode, List.flatMap_cons, hc]
      rfl
    simp only [he, decodeFrom, hn, Nat.add_sub_cancel, decodeFrom_skip, ih, Except.map]

theorem decode_encode (t : Text) : decode (encode t) = .ok t := decodeFrom_encode 0 t

theorem foldNewlines_eq_self {t : Text} (h : '\r' ∉ t) : foldNewlines t = t := by
  induction t with
  | nil => rfl
  | cons c t ih =>
    have hc : c ≠ '\r' := fun e => h (by simp [e])
    have ht : '\r' ∉ t := fun e => h (by simp [e])
    rw [foldNewlines, ih ht]
    · intro s e _
      exact hc e
    · exact hc

/-- A text without carriage returns is read from a file as it was written. -/
theorem readText_encode {t : Text} (h : '\r' ∉ t) : readText (encode t) = .ok t := by
  simp only [readText, decode_encode, Except.map, foldNewlines_eq_self h]

end CostLens.Utf8

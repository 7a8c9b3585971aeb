import Abacus.Text.Utf8

/-!
# Reading UTF-8 back

The bytes of a text are read back as the text. The bytes of a character are followed one by one: the first
announces how many there are and in which range the second lies, and each of the others adds six bits.

## Main results

* `Utf8.exists_decodeFrom_encodeChar` — the bytes of a character are read as the character
* `Utf8.decode_encode` — the bytes of a text are read as the text
-/

namespace Abacus.Utf8

/-! ### Bytes as numbers -/

/-- What the first byte of a character announces, by its number. -/
theorem lead?_ofNat {n : Nat} (hn : n < 256) :
    lead? (UInt8.ofNat n) =
      if n < 0x80 then some ⟨0, 0x80, 0xbf, n⟩
      else if n < 0xc2 then none
      else if n < 0xe0 then some ⟨1, 0x80, 0xbf, n - 0xc0⟩
      else if n = 0xe0 then some ⟨2, 0xa0, 0xbf, 0⟩
      else if n = 0xed then some ⟨2, 0x80, 0x9f, 13⟩
      else if n < 0xf0 then some ⟨2, 0x80, 0xbf, n - 0xe0⟩
      else if n = 0xf0 then some ⟨3, 0x90, 0xbf, 0⟩
      else if n < 0xf4 then some ⟨3, 0x80, 0xbf, n - 0xf0⟩
      else if n = 0xf4 then some ⟨3, 0x80, 0x8f, 4⟩
      else none := by
  simp only [lead?, UInt8.lt_iff_toNat_lt, ← UInt8.toNat_inj, UInt8.toNat_ofNat_of_lt' hn]
  rfl

/-! ### The bytes of a character -/

section Bytes

variable {bs : List UInt8}

theorem decodeFrom_first {b : UInt8} {l : Lead} (h : lead? b = some l) (howed : l.owed ≠ 0)
    (pos : Nat) : decodeFrom pos none (b :: bs) = decodeFrom (pos + 1) (some ⟨b, 1, l⟩) bs := by
  rw [decodeFrom, h]
  exact if_neg howed

section Continuation

variable {first low high : UInt8} {count owed bits n : Nat}

theorem toNat_continuation (hn : n < 64) : (UInt8.ofNat (n + 0x80)).toNat = n + 0x80 :=
  UInt8.toNat_ofNat_of_lt' (by omega : n + 0x80 < 256)

theorem continuation_range (hlow : low.toNat ≤ n + 0x80) (hhigh : n + 0x80 ≤ high.toNat)
    (hn : n < 64) : low ≤ UInt8.ofNat (n + 0x80) ∧ UInt8.ofNat (n + 0x80) ≤ high := by
  rw [UInt8.le_iff_toNat_le, UInt8.le_iff_toNat_le, toNat_continuation hn]
  exact ⟨hlow, hhigh⟩

/-- A byte after the first adds six bits. -/
theorem decodeFrom_inner (hn : n < 64) (hlow : low.toNat ≤ n + 0x80)
    (hhigh : n + 0x80 ≤ high.toNat) (pos : Nat) :
    decodeFrom pos (some ⟨first, count, ⟨owed + 2, low, high, bits⟩⟩)
        (UInt8.ofNat (n + 0x80) :: bs) =
      decodeFrom (pos + 1) (some ⟨first, count + 1, ⟨owed + 1, 0x80, 0xbf, bits * 64 + n⟩⟩) bs := by
  rw [decodeFrom, if_pos (continuation_range hlow hhigh hn)]
  simp only [Lead.next, toNat_continuation hn, Nat.add_sub_cancel]
  exact if_neg nofun

/-- The last byte adds six bits, and the character is complete. -/
theorem decodeFrom_last (hn : n < 64) (hlow : low.toNat ≤ n + 0x80)
    (hhigh : n + 0x80 ≤ high.toNat) (pos : Nat) :
    decodeFrom pos (some ⟨first, count, ⟨1, low, high, bits⟩⟩) (UInt8.ofNat (n + 0x80) :: bs) =
      (decodeFrom (pos + 1) none bs).map (Char.ofNat (bits * 64 + n) :: ·) := by
  rw [decodeFrom, if_pos (continuation_range hlow hhigh hn)]
  simp only [Lead.next, toNat_continuation hn, Nat.add_sub_cancel]
  exact if_pos trivial

end Continuation

theorem low_le (n : Nat) : (0x80 : UInt8).toNat ≤ n + 0x80 :=
  Nat.le_add_left _ _

theorem le_high {n : Nat} (hn : n < 64) : n + 0x80 ≤ (0xbf : UInt8).toNat := by
  have hbf : (0xbf : UInt8).toNat = 191 := rfl
  omega

/-- What the first byte of three announces. The range of the second byte leaves out what has a shorter
encoding, and surrogates. -/
theorem exists_lead_three {a n : Nat} (ha : a < 16) (hn : n < 64) (hshort : a = 0 → 32 ≤ n)
    (hhalf : a = 13 → n < 32) :
    ∃ low high, lead? (UInt8.ofNat (a + 0xe0)) = some ⟨2, low, high, a⟩ ∧
      low.toNat ≤ n + 0x80 ∧ n + 0x80 ≤ high.toNat := by
  by_cases h0 : a = 0
  · subst h0
    exact ⟨0xa0, 0xbf, rfl, by show 160 ≤ n + 128; omega, le_high hn⟩
  by_cases h13 : a = 13
  · subst h13
    exact ⟨0x80, 0x9f, rfl, low_le n, by show n + 128 ≤ 159; omega⟩
  refine ⟨0x80, 0xbf, ?_, low_le n, le_high hn⟩
  rw [lead?_ofNat (by omega), if_neg (by omega), if_neg (by omega), if_neg (by omega),
    if_neg (by omega), if_neg (by omega), if_pos (by omega), Nat.add_sub_cancel]

/-- What the first byte of four announces. The range of the second byte leaves out what has a shorter
encoding, and what is no character. -/
theorem exists_lead_four {a n : Nat} (ha : a < 5) (hn : n < 64) (hshort : a = 0 → 16 ≤ n)
    (hlarge : a = 4 → n < 16) :
    ∃ low high, lead? (UInt8.ofNat (a + 0xf0)) = some ⟨3, low, high, a⟩ ∧
      low.toNat ≤ n + 0x80 ∧ n + 0x80 ≤ high.toNat := by
  by_cases h0 : a = 0
  · subst h0
    exact ⟨0x90, 0xbf, rfl, by show 144 ≤ n + 128; omega, le_high hn⟩
  by_cases h4 : a = 4
  · subst h4
    exact ⟨0x80, 0x8f, rfl, low_le n, by show n + 128 ≤ 143; omega⟩
  refine ⟨0x80, 0xbf, ?_, low_le n, le_high hn⟩
  rw [lead?_ofNat (by omega), if_neg (by omega), if_neg (by omega), if_neg (by omega),
    if_neg (by omega), if_neg (by omega), if_neg (by omega), if_neg (by omega), if_pos (by omega),
    Nat.add_sub_cancel]

end Bytes

/-- The number of a character is no surrogate and not too large. -/
theorem toNat_cases (c : Char) : c.toNat < 0xd800 ∨ 0xdfff < c.toNat ∧ c.toNat < 0x110000 :=
  c.valid

/-- The bytes of a character are read as the character. -/
theorem exists_decodeFrom_encodeChar (c : Char) (bs : List UInt8) (pos : Nat) :
    ∃ next, decodeFrom pos none (String.utf8EncodeChar c ++ bs) =
      (decodeFrom next none bs).map (c :: ·) := by
  have hc := toNat_cases c
  have hself (n : Nat) (hn : n = c.toNat) : Char.ofNat n = c := by rw [hn, Char.ofNat_toNat]
  have hbits (n : Nat) : n % 64 < 64 := Nat.mod_lt n (by decide)
  have hval : c.val.toNat = c.toNat := rfl
  unfold String.utf8EncodeChar
  simp only [hval]
  split
  · -- one byte
    rename_i h1
    have hlead : lead? (UInt8.ofNat c.toNat) = some ⟨0, 0x80, 0xbf, c.toNat⟩ := by
      rw [lead?_ofNat (by omega), if_pos (by omega)]
    refine ⟨pos + 1, ?_⟩
    rw [List.cons_append, List.nil_append, decodeFrom, hlead]
    simp only [Char.ofNat_toNat, if_true]
  split
  · -- two bytes
    rename_i h1 h2
    have ha : c.toNat / 64 % 32 = c.toNat / 64 := by omega
    have hlead : lead? (UInt8.ofNat (c.toNat / 64 + 0xc0)) =
        some ⟨1, 0x80, 0xbf, c.toNat / 64⟩ := by
      rw [lead?_ofNat (by omega), if_neg (by omega), if_neg (by omega), if_pos (by omega),
        Nat.add_sub_cancel]
    refine ⟨pos + 1 + 1, ?_⟩
    rw [ha, List.cons_append, List.cons_append, List.nil_append, decodeFrom_first hlead nofun,
      decodeFrom_last (hbits _) (low_le _) (le_high (hbits _)), hself _ (by omega)]
  split
  · -- three bytes
    rename_i h1 h2 h3
    have ha : c.toNat / 4096 % 16 = c.toNat / 4096 := by omega
    obtain ⟨low, high, hlead, hlow, hhigh⟩ := exists_lead_three (by omega : c.toNat / 4096 < 16)
      (hbits (c.toNat / 64)) (by omega) (by omega)
    refine ⟨pos + 1 + 1 + 1, ?_⟩
    rw [ha, List.cons_append, List.cons_append, List.cons_append, List.nil_append,
      decodeFrom_first hlead nofun, decodeFrom_inner (hbits _) hlow hhigh,
      decodeFrom_last (hbits _) (low_le _) (le_high (hbits _)), hself _ (by omega)]
  · -- four bytes
    rename_i h1 h2 h3
    have ha : c.toNat / 262144 % 8 = c.toNat / 262144 := by omega
    obtain ⟨low, high, hlead, hlow, hhigh⟩ := exists_lead_four (by omega : c.toNat / 262144 < 5)
      (hbits (c.toNat / 4096)) (by omega) (by omega)
    refine ⟨pos + 1 + 1 + 1 + 1, ?_⟩
    rw [ha, List.cons_append, List.cons_append, List.cons_append, List.cons_append, List.nil_append,
      decodeFrom_first hlead nofun, decodeFrom_inner (hbits _) hlow hhigh,
      decodeFrom_inner (hbits _) (low_le _) (le_high (hbits _)),
      decodeFrom_last (hbits _) (low_le _) (le_high (hbits _)), hself _ (by omega)]

/-- The bytes of a text are read as the text. -/
theorem decode_encode (cs : List Char) : decode (encode cs) = .ok cs := by
  have hfrom (pos : Nat) : decodeFrom pos none (encode cs) = .ok cs := by
    induction cs generalizing pos with
    | nil => rfl
    | cons c cs ih =>
      obtain ⟨next, hnext⟩ := exists_decodeFrom_encodeChar c (encode cs) pos
      have hcons : encode (c :: cs) = String.utf8EncodeChar c ++ encode cs := List.flatMap_cons
      rw [hcons, hnext, ih]
      rfl
  exact hfrom 0

end Abacus.Utf8

import DualModule.Utf8
/-!
# Reading back what was written as UTF-8

Writing text and reading bytes are inverse to each other: text is read back as it was written, and
bytes that spell a text are the bytes that writing it gives.  So well-formed bytes and texts are
two views of one thing (`decode?_eq_some_iff`), and content that is text survives being read and
written.

The arithmetic is done once for each length of a sequence.  `scalars_of_width_one` and its
siblings say what reading does with a well-formed sequence; in the other direction
`encodeChar_of_width_one` and its siblings say that the character read is written as that
sequence.
-/

namespace DualModule.Utf8

/-! ### Leads and continuations, as numbers -/

theorem width_eq_one {a : UInt8} : width a = 1 ↔ a.toNat < 0x80 := by
  simp only [width, UInt8.lt_iff_toNat_lt, UInt8.reduceToNat]
  grind

theorem width_eq_two {a : UInt8} : width a = 2 ↔ 0xC2 ≤ a.toNat ∧ a.toNat < 0xE0 := by
  simp only [width, UInt8.lt_iff_toNat_lt, UInt8.reduceToNat]
  grind

theorem width_eq_three {a : UInt8} : width a = 3 ↔ 0xE0 ≤ a.toNat ∧ a.toNat < 0xF0 := by
  simp only [width, UInt8.lt_iff_toNat_lt, UInt8.reduceToNat]
  grind

theorem width_eq_four {a : UInt8} : width a = 4 ↔ 0xF0 ≤ a.toNat ∧ a.toNat < 0xF5 := by
  simp only [width, UInt8.lt_iff_toNat_lt, UInt8.reduceToNat]
  grind

theorem width_eq_four_of_ne {a : UInt8} (h0 : width a ≠ 0) (h1 : width a ≠ 1)
    (h2 : width a ≠ 2) (h3 : width a ≠ 3) : width a = 4 := by
  simp only [width] at *
  grind

theorem isContinuation_iff {b : UInt8} :
    isContinuation b = true ↔ 0x80 ≤ b.toNat ∧ b.toNat < 0xC0 := by
  simp [isContinuation, UInt8.lt_iff_toNat_lt, UInt8.le_iff_toNat_le]

theorem secondFits_iff {a b : UInt8} : secondFits a b = true ↔
    (0x80 ≤ b.toNat ∧ b.toNat < 0xC0) ∧ (a.toNat = 0xE0 → 0xA0 ≤ b.toNat) ∧
      (a.toNat = 0xED → b.toNat < 0xA0) ∧ (a.toNat = 0xF0 → 0x90 ≤ b.toNat) ∧
      (a.toNat = 0xF4 → b.toNat < 0x90) := by
  simp only [secondFits, Bool.and_eq_true, isContinuation_iff, Bool.or_eq_true, bne_iff_ne, ne_eq,
    ← UInt8.toNat_inj, UInt8.lt_iff_toNat_lt, UInt8.le_iff_toNat_le, UInt8.reduceToNat,
    decide_eq_true_eq]
  grind

/-! ### What reading does with a well-formed sequence -/

theorem scalars_of_width_one {a : UInt8} (h : width a = 1) (r : Bytes) :
    scalars (a :: r) = some (Char.ofNat a.toNat) :: scalars r := by
  simp [scalars, h]

theorem scalars_of_width_two {a b : UInt8} (h : width a = 2) (hb : secondFits a b = true)
    (r : Bytes) :
    scalars (a :: b :: r) = some (Char.ofNat (a.toNat % 32 * 64 + payload b)) :: scalars r := by
  rw [scalars.eq_def]
  simp [h, hb]

theorem scalars_of_width_three {a b c : UInt8} (h : width a = 3) (hb : secondFits a b = true)
    (hc : isContinuation c = true) (r : Bytes) :
    scalars (a :: b :: c :: r) =
      some (Char.ofNat (a.toNat % 16 * 4096 + payload b * 64 + payload c)) :: scalars r := by
  rw [scalars.eq_def]
  simp [h, hb, hc]

theorem scalars_of_width_four {a b c d : UInt8} (h : width a = 4) (hb : secondFits a b = true)
    (hc : isContinuation c = true) (hd : isContinuation d = true) (r : Bytes) :
    scalars (a :: b :: c :: d :: r) =
      some (Char.ofNat (a.toNat % 8 * 262144 + payload b * 4096 + payload c * 64 + payload d)) ::
        scalars r := by
  rw [scalars.eq_def]
  simp [h, hb, hc, hd]

/-- A character is read back, whatever follows it. -/
theorem scalars_encodeChar_append (c : Char) (rest : Bytes) :
    scalars (encodeChar c ++ rest) = some c :: scalars rest := by
  have valid : c.toNat < 0xD800 ∨ 0xDFFF < c.toNat ∧ c.toNat < 0x110000 := c.valid
  have hc := Char.ofNat_toNat c
  -- from here on a number; the cases are the lengths of the sequence
  unfold encodeChar
  generalize c.toNat = n at valid hc
  subst hc
  simp only
  split
  · have h : width (.ofNat n) = 1 := by
      rw [width_eq_one, UInt8.toNat_ofNat']; omega
    rw [List.singleton_append, scalars_of_width_one h, UInt8.toNat_ofNat',
      Nat.mod_eq_of_lt (by omega)]
  · split
    · have h : width (.ofNat (0xC0 + n / 64)) = 2 := by
        rw [width_eq_two, UInt8.toNat_ofNat']; omega
      have hb : secondFits (.ofNat (0xC0 + n / 64)) (.ofNat (0x80 + n % 64)) = true := by
        rw [secondFits_iff]; simp only [UInt8.toNat_ofNat']; omega
      rw [List.cons_append, List.singleton_append, scalars_of_width_two h hb]
      simp only [payload, UInt8.toNat_ofNat']
      congr 3
      omega
    · split
      · have h : width (.ofNat (0xE0 + n / 4096)) = 3 := by
          rw [width_eq_three, UInt8.toNat_ofNat']; omega
        have hb : secondFits (.ofNat (0xE0 + n / 4096)) (.ofNat (0x80 + n / 64 % 64)) = true := by
          rw [secondFits_iff]; simp only [UInt8.toNat_ofNat']; omega
        have hd : isContinuation (.ofNat (0x80 + n % 64)) = true := by
          rw [isContinuation_iff, UInt8.toNat_ofNat']; omega
        simp only [List.cons_append, List.nil_append]
        rw [scalars_of_width_three h hb hd]
        simp only [payload, UInt8.toNat_ofNat']
        congr 3
        omega
      · have h : width (.ofNat (0xF0 + n / 262144)) = 4 := by
          rw [width_eq_four, UInt8.toNat_ofNat']; omega
        have hb : secondFits (.ofNat (0xF0 + n / 262144)) (.ofNat (0x80 + n / 4096 % 64)) = true := by
          rw [secondFits_iff]; simp only [UInt8.toNat_ofNat']; omega
        have hd : isContinuation (.ofNat (0x80 + n / 64 % 64)) = true := by
          rw [isContinuation_iff, UInt8.toNat_ofNat']; omega
        have he : isContinuation (.ofNat (0x80 + n % 64)) = true := by
          rw [isContinuation_iff, UInt8.toNat_ofNat']; omega
        simp only [List.cons_append, List.nil_append]
        rw [scalars_of_width_four h hb hd he]
        simp only [payload, UInt8.toNat_ofNat']
        congr 3
        omega

/-- Text is read back character by character. -/
theorem scalars_encode (text : Text) : scalars (encode text) = text.map some := by
  induction text with
  | nil => rfl
  | cons c text ih => rw [encode_cons, scalars_encodeChar_append, ih, List.map_cons]

/-! ### How the character that was read is written -/

theorem toNat_ofNat {n : Nat} (h : n < 0xD800 ∨ 0xDFFF < n ∧ n < 0x110000) :
    (Char.ofNat n).toNat = n := by
  have hv : n.isValidChar := h
  rw [Char.ofNat, dif_pos hv]
  rfl

theorem encodeChar_of_width_one {a : UInt8} (h : width a = 1) :
    encodeChar (Char.ofNat a.toNat) = [a] := by
  rw [width_eq_one] at h
  rw [encodeChar, toNat_ofNat (by omega)]
  simp only [h, if_true, UInt8.ofNat_toNat]

theorem encodeChar_of_width_two {a b : UInt8} (h : width a = 2) (hb : secondFits a b = true) :
    encodeChar (Char.ofNat (a.toNat % 32 * 64 + payload b)) = [a, b] := by
  rw [width_eq_two] at h
  rw [secondFits_iff] at hb
  rw [encodeChar, payload, toNat_ofNat (by omega)]
  rw [if_neg (by omega), if_pos (by omega)]
  simp only [List.cons.injEq, ← UInt8.toNat_inj, UInt8.toNat_ofNat', and_true]
  omega

theorem encodeChar_of_width_three {a b c : UInt8} (h : width a = 3) (hb : secondFits a b = true)
    (hc : isContinuation c = true) :
    encodeChar (Char.ofNat (a.toNat % 16 * 4096 + payload b * 64 + payload c)) = [a, b, c] := by
  rw [width_eq_three] at h
  rw [secondFits_iff] at hb
  rw [isContinuation_iff] at hc
  rw [encodeChar, payload, payload, toNat_ofNat (by omega)]
  rw [if_neg (by omega), if_neg (by omega), if_pos (by omega)]
  simp only [List.cons.injEq, ← UInt8.toNat_inj, UInt8.toNat_ofNat', and_true]
  omega

theorem encodeChar_of_width_four {a b c d : UInt8} (h : width a = 4) (hb : secondFits a b = true)
    (hc : isContinuation c = true) (hd : isContinuation d = true) :
    encodeChar (Char.ofNat (a.toNat % 8 * 262144 + payload b * 4096 + payload c * 64 + payload d)) =
      [a, b, c, d] := by
  rw [width_eq_four] at h
  rw [secondFits_iff] at hb
  rw [isContinuation_iff] at hc hd
  rw [encodeChar, payload, payload, payload, toNat_ofNat (by omega)]
  rw [if_neg (by omega), if_neg (by omega), if_neg (by omega)]
  simp only [List.cons.injEq, ← UInt8.toNat_inj, UInt8.toNat_ofNat', and_true]
  omega

/-- Bytes that are read without fault are the bytes of what was read.  The induction is on the way
reading cuts the bytes up; the cases in which it meets an ill-formed stretch yield a `none`. -/
theorem encode_of_scalars {bytes : Bytes} {text : Text} (h : scalars bytes = text.map some) :
    encode text = bytes := by
  induction bytes using scalars.induct generalizing text with
  | case1 => simp_all [scalars]
  | case3 a r hw ih =>
      rw [scalars_of_width_one hw] at h
      obtain ⟨c, text, rfl, hc, ht⟩ := List.map_eq_cons_iff.1 h.symm
      cases hc
      rw [encode_cons, encodeChar_of_width_one hw, ih ht.symm]
      rfl
  | case5 a b r hb _ _ hw ih =>
      rw [scalars_of_width_two hw hb] at h
      obtain ⟨c, text, rfl, hc, ht⟩ := List.map_eq_cons_iff.1 h.symm
      cases hc
      rw [encode_cons, encodeChar_of_width_two hw hb, ih ht.symm]
      rfl
  | case7 a b hb c r hc _ _ _ hw ih =>
      rw [scalars_of_width_three hw hb hc] at h
      obtain ⟨x, text, rfl, hx, ht⟩ := List.map_eq_cons_iff.1 h.symm
      cases hx
      rw [encode_cons, encodeChar_of_width_three hw hb hc, ih ht.symm]
      rfl
  | case9 a b hb c hc d r hd h0 h1 h2 h3 ih =>
      have hw : width a = 4 := width_eq_four_of_ne h0 h1 h2 h3
      rw [scalars_of_width_four hw hb hc hd] at h
      obtain ⟨x, text, rfl, hx, ht⟩ := List.map_eq_cons_iff.1 h.symm
      cases hx
      rw [encode_cons, encodeChar_of_width_four hw hb hc hd, ih ht.symm]
      rfl
  | _ =>
      rw [scalars.eq_def] at h
      obtain _ | ⟨c, text⟩ := text <;> simp_all

/-! ### Text and bytes -/

theorem mapM_id_eq_some_iff {items : List (Option Char)} {text : Text} :
    items.mapM id = some text ↔ items = text.map some := by
  induction items generalizing text with
  | nil => cases text <;> simp
  | cons item items ih =>
      rw [List.mapM_cons]
      cases item with
      | none => cases text <;> simp
      | some c =>
          simp only [id, Option.bind_eq_bind, Option.bind_some, Option.bind_eq_some_iff, ih]
          cases text <;> simp [and_comm, and_assoc]

/-- **Bytes spell a text exactly if they are what writing the text gives.** -/
theorem decode?_eq_some_iff {bytes : Bytes} {text : Text} :
    decode? bytes = some text ↔ bytes = encode text := by
  rw [decode?, mapM_id_eq_some_iff]
  constructor
  · intro h
    exact (encode_of_scalars h).symm
  · rintro rfl
    exact scalars_encode text

@[simp] theorem decode?_encode (text : Text) : decode? (encode text) = some text :=
  decode?_eq_some_iff.2 rfl

@[simp] theorem lossy_encode (text : Text) : lossy (encode text) = text := by
  simp [lossy, scalars_encode, Function.comp_def]

theorem encode_injective {a b : Text} (h : encode a = encode b) : a = b := by
  rw [← lossy_encode a, h, lossy_encode]

theorem encode_eq_nil_iff {text : Text} : encode text = [] ↔ text = [] := by
  constructor
  · intro h
    exact encode_injective h
  · rintro rfl
    rfl

/-! ### Characters of one byte -/

theorem mem_encodeChar_iff {b : UInt8} (hb : b.toNat < 0x80) {c : Char} :
    b ∈ encodeChar c ↔ c.toNat = b.toNat := by
  have hc : c.toNat < 0x110000 := by
    have valid : c.toNat < 0xD800 ∨ 0xDFFF < c.toNat ∧ c.toNat < 0x110000 := c.valid
    omega
  unfold encodeChar
  generalize c.toNat = n at hc
  simp only
  split
  · simp only [List.mem_singleton, ← UInt8.toNat_inj, UInt8.toNat_ofNat']
    omega
  · split
    · simp only [List.mem_cons, List.not_mem_nil, or_false, ← UInt8.toNat_inj, UInt8.toNat_ofNat']
      omega
    · split
      · simp only [List.mem_cons, List.not_mem_nil, or_false, ← UInt8.toNat_inj,
          UInt8.toNat_ofNat']
        omega
      · simp only [List.mem_cons, List.not_mem_nil, or_false, ← UInt8.toNat_inj,
          UInt8.toNat_ofNat']
        omega

/-- A byte below 80 stands for a character of its own, and nowhere else. -/
theorem mem_encode_iff {b : UInt8} (hb : b.toNat < 0x80) {text : Text} :
    b ∈ encode text ↔ Char.ofNat b.toNat ∈ text := by
  rw [encode, List.mem_flatMap]
  constructor
  · rintro ⟨c, hc, h⟩
    rwa [← (mem_encodeChar_iff hb).1 h, Char.ofNat_toNat]
  · intro h
    exact ⟨_, h, (mem_encodeChar_iff hb).2 (toNat_ofNat (by omega))⟩

end DualModule.Utf8

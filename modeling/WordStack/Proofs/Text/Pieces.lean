import WordStack.Text.Utf8

/-!
# Pieces around ASCII characters

An ASCII character is one byte, and that byte is part of no other character. So wherever it stands
it is a piece by itself, and a text is cut into the same pieces in front of it and behind it as if
it were the end of one text and the start of another.

* `Utf8.encode_eq_singleton_of_mem`: an ASCII byte is all of the character that it is part of.
* `Utf8.pieces_append_cons`: the pieces of a text around an ASCII byte.
-/
namespace WordStack.Utf8

/-- A byte of ASCII. -/
def IsAscii (b : UInt8) : Prop := b.toNat < 0x80

instance (b : UInt8) : Decidable (IsAscii b) := Nat.decLt b.toNat 0x80

/-- The character of an ASCII byte. -/
def asciiChar (b : UInt8) : Char := Char.ofNat b.toNat

/-! ## ASCII characters and their bytes -/

theorem encode_of_lt {c : Char} (h : c.toNat < 0x80) : encode c = [c.toNat.toUInt8] := by
  have hsize : c.utf8Size = 1 := by
    rw [Char.utf8Size_eq_one_iff, UInt32.le_iff_toNat_le]
    exact Nat.le_of_lt_succ h
  exact String.utf8EncodeChar_eq_singleton hsize

theorem toNat_asciiChar {b : UInt8} (h : IsAscii b) : (asciiChar b).toNat = b.toNat := by
  have hvalid : b.toNat.isValidChar := .inl (Nat.lt_trans h (by decide))
  unfold asciiChar Char.ofNat
  rw [dif_pos hvalid]
  rfl

theorem encode_asciiChar {b : UInt8} (h : IsAscii b) : encode (asciiChar b) = [b] := by
  have hnat := toNat_asciiChar h
  rw [encode_of_lt (hnat ▸ h), hnat, Nat.toUInt8_eq, UInt8.ofNat_toNat]

/-- None of the bytes of a character outside of ASCII is in ASCII. -/
theorem not_isAscii_of_mem_encode {c : Char} (hc : 0x80 ≤ c.toNat) {b : UInt8}
    (hb : b ∈ encode c) : ¬ IsAscii b := by
  have hv : c.val.toNat = c.toNat := rfl
  simp only [encode, String.utf8EncodeChar, hv] at hb
  rw [if_neg (by omega)] at hb
  -- Every byte is written as a number of less than seven bits with the eighth bit added.
  split at hb
  · simp only [List.mem_cons, List.not_mem_nil, or_false] at hb
    rcases hb with rfl | rfl <;> simp only [IsAscii, UInt8.toNat_ofNat'] <;> omega
  · split at hb
    · simp only [List.mem_cons, List.not_mem_nil, or_false] at hb
      rcases hb with rfl | rfl | rfl <;> simp only [IsAscii, UInt8.toNat_ofNat'] <;> omega
    · simp only [List.mem_cons, List.not_mem_nil, or_false] at hb
      rcases hb with rfl | rfl | rfl | rfl <;> simp only [IsAscii, UInt8.toNat_ofNat'] <;> omega

theorem encode_eq_singleton_of_mem {c : Char} {b : UInt8} (hb : b ∈ encode c) (h : IsAscii b) :
    encode c = [b] := by
  have hc : c.toNat < 0x80 := Nat.lt_of_not_le fun hge => not_isAscii_of_mem_encode hge hb h
  rw [encode_of_lt hc, List.mem_singleton] at hb
  rw [encode_of_lt hc, hb]

/-- A character with an ASCII byte in it is that character. -/
theorem eq_asciiChar_of_mem {c : Char} {b : UInt8} (hb : b ∈ encode c) (h : IsAscii b) :
    c = asciiChar b := by
  have hone : encode c = encode (asciiChar b) :=
    (encode_eq_singleton_of_mem hb h).trans (encode_asciiChar h).symm
  have hfirst := first?_encode_append c []
  rw [hone, first?_encode_append] at hfirst
  exact (Prod.mk.inj (Option.some.inj hfirst)).1.symm

/-! ## One piece at a time -/

theorem pieces_encode_append (c : Char) (rest : Bytes) :
    pieces (encode c ++ rest) = .char c :: pieces rest := by
  have hfirst := first?_encode_append c rest
  have hlt := length_lt_of_first? hfirst
  cases htext : encode c ++ rest with
  | nil => rw [htext] at hlt; exact absurd hlt (Nat.not_lt_zero _)
  | cons x tail =>
    rw [htext] at hfirst
    rw [pieces]
    split
    · next h => rw [h] at hfirst; cases hfirst
    · next d r h => rw [h] at hfirst; cases hfirst; rfl

theorem pieces_of_first?_eq_none {x : UInt8} {tail : Bytes} (h : first? (x :: tail) = none) :
    pieces (x :: tail) = .stray x :: pieces tail := by
  rw [pieces]
  split
  · rfl
  · next hsome => rw [h] at hsome; cases hsome

theorem pieces_cons {x : UInt8} (hx : IsAscii x) (b : Bytes) :
    pieces (x :: b) = .char (asciiChar x) :: pieces b := by
  have h := pieces_encode_append (asciiChar x) b
  rwa [encode_asciiChar hx] at h

/-- A text of ASCII is a piece for each byte. -/
theorem pieces_append_of_ascii {a : Bytes} (ha : a.all (IsAscii ·) = true) (b : Bytes) :
    pieces (a ++ b) = a.map (.char ∘ asciiChar) ++ pieces b := by
  induction a with
  | nil => rfl
  | cons x a ih =>
    simp only [List.all_cons, Bool.and_eq_true, decide_eq_true_eq] at ha
    rw [List.cons_append, pieces_cons ha.1, ih ha.2]
    rfl

theorem pieces_of_ascii {a : Bytes} (ha : a.all (IsAscii ·) = true) :
    pieces a = a.map (.char ∘ asciiChar) := by
  have h := pieces_append_of_ascii ha []
  rwa [List.append_nil, pieces, List.append_nil] at h

/-- A byte that starts no character starts none either if an ASCII byte comes behind the text. -/
theorem first?_append_cons_eq_none {y : UInt8} {tail : Bytes} (h : first? (y :: tail) = none)
    {x : UInt8} (hx : IsAscii x) (b : Bytes) : first? (y :: tail ++ x :: b) = none := by
  cases hfirst : first? (y :: tail ++ x :: b) with
  | none => rfl
  | some r =>
    obtain ⟨c, rest⟩ := r
    rcases List.append_eq_append_iff.1 (eq_append_of_first? hfirst) with
      ⟨excess, hc, hexcess⟩ | ⟨behind, htext, _⟩
    · cases excess with
      | nil =>
        have : first? (y :: tail) = some (c, []) := by
          rw [first?_eq_some_iff, hc]
          simp
        rw [h] at this
        cases this
      | cons z excess =>
        obtain ⟨rfl, _⟩ := List.cons.inj hexcess
        -- The character would hold the ASCII byte and another one in front of it.
        have hone := encode_eq_singleton_of_mem (c := c) (b := x) (by rw [hc]; simp) hx
        rw [hone] at hc
        simp at hc
    · have : first? (y :: tail) = some (c, behind) := first?_eq_some_iff.2 htext
      rw [h] at this
      cases this

theorem pieces_append_cons (a : Bytes) {x : UInt8} (hx : IsAscii x) (b : Bytes) :
    pieces (a ++ x :: b) = pieces a ++ .char (asciiChar x) :: pieces b := by
  fun_induction pieces a with
  | case1 => exact pieces_cons hx b
  | case2 y tail h ih =>
    have hnone := first?_append_cons_eq_none h hx b
    rw [List.cons_append] at hnone ⊢
    rw [pieces_of_first?_eq_none hnone, ih, List.cons_append]
  | case3 y tail c rest h hlt ih =>
    rw [eq_append_of_first? h, List.append_assoc, pieces_encode_append, ih, List.cons_append]

end WordStack.Utf8

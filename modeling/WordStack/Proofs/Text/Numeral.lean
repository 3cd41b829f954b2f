import WordStack.Proofs.Source.Spacing
import WordStack.Proofs.Text.Pieces

/-!
# Numerals read back

A number that is written in decimal is read as the number it was.

* `Decimal.readNat?_ofNat`, `Decimal.readInt?_ofInt`, `Decimal.readInt32?_ofInt`: what is written is
  read back, up to the ends of the range of 32 bits.
* `Word.numeral`: a number as a word of a source. `Word.instruction_numeral`: the instruction of
  that word pushes the number.
-/
namespace WordStack

/-- The bounds of an ASCII digit. -/
theorem toNat_of_isDigit {c : Char} (h : c.isDigit = true) : 48 ≤ c.toNat ∧ c.toNat ≤ 57 := by
  simpa [Char.isDigit, UInt32.le_iff_toNat_le] using h

namespace Decimal

theorem isDigit_of_mem_toDigits {n : Nat} {c : Char} (h : c ∈ Nat.toDigits 10 n) :
    c.isDigit = true :=
  Nat.isDigit_of_mem_toDigits (by decide) (by decide) h

/-- A digit as a byte. -/
theorem toNat_toUInt8 {c : Char} (h : c.isDigit = true) : c.toNat.toUInt8.toNat = c.toNat := by
  have hc := toNat_of_isDigit h
  rw [Nat.toUInt8_eq, UInt8.toNat_ofNat']
  omega

theorem value_map {ds : List Char} (hds : ∀ c ∈ ds, c.isDigit = true) (start : Nat) :
    value start (ds.map (·.toNat.toUInt8)) = Nat.ofDigitChars 10 ds start := by
  induction ds generalizing start with
  | nil => rfl
  | cons c ds ih =>
    simp only [List.mem_cons, forall_eq_or_imp] at hds
    rw [Nat.ofDigitChars_cons, ← ih hds.2, List.map_cons, value, List.foldl_cons,
      toNat_toUInt8 hds.1]
    rfl

theorem all_isDigit_ofNat (n : Nat) : (ofNat n).all isDigit = true := by
  simp only [ofNat, List.all_map, List.all_eq_true, Function.comp_apply]
  intro c hc
  have hd := isDigit_of_mem_toDigits hc
  have hbounds := toNat_of_isDigit hd
  simp [isDigit, UInt8.le_iff_toNat_le, toNat_toUInt8 hd, hbounds]

theorem readNat?_ofNat (n : Nat) : readNat? (ofNat n) = some n := by
  have hne : (ofNat n).isEmpty = false := by simp [ofNat, Nat.toDigits_ne_nil]
  have hvalue : value 0 (ofNat n) = n := by
    rw [ofNat, value_map (fun c => isDigit_of_mem_toDigits), Nat.ofDigitChars_ten_toDigits]
  simp [readNat?, hne, all_isDigit_ofNat, hvalue]

/-- A text that begins with a digit is read without a sign. -/
theorem readInt?_of_isDigit {b : UInt8} {rest : Bytes} (h : isDigit b = true) :
    readInt? (b :: rest) = (readNat? (b :: rest)).map fun n => (n : Int) := by
  have hminus : b ≠ 45 := by rintro rfl; simp [isDigit] at h
  have hplus : b ≠ 43 := by rintro rfl; simp [isDigit] at h
  simp [readInt?, hminus, hplus]

theorem readInt?_ofInt (n : Int) : readInt? (ofInt n) = some n := by
  cases n with
  | ofNat n =>
    have hdigits := all_isDigit_ofNat n
    have hread := readNat?_ofNat n
    rw [ofInt]
    cases hb : ofNat n with
    | nil => simp [hb, readNat?] at hread
    | cons b rest =>
      simp only [hb, List.all_cons, Bool.and_eq_true] at hdigits
      rw [readInt?_of_isDigit hdigits.1, ← hb, hread]
      rfl
  | negSucc n =>
    have hsign : ofInt (.negSucc n) = 45 :: ofNat (n + 1) := rfl
    rw [hsign, readInt?, if_pos rfl, readNat?_ofNat]
    rfl

theorem ofInt_inj {m n : Int} (h : ofInt m = ofInt n) : m = n := by
  have hread := congrArg readInt? h
  rw [readInt?_ofInt, readInt?_ofInt] at hread
  exact Option.some.inj hread

theorem ofInt_ne_nil (n : Int) : ofInt n ≠ [] := by
  intro h
  have hread := readInt?_ofInt n
  rw [h] at hread
  cases hread

theorem readInt32?_ofInt (n : Int32) : readInt32? (ofInt n.toInt) = some n := by
  have hlo := n.le_toInt
  have hhi := n.toInt_lt
  have hrange : int32Range.1 ≤ n.toInt ∧ n.toInt ≤ int32Range.2 := by
    simp only [int32Range]
    omega
  rw [readInt32?, readInt?_ofInt, Option.bind_some, if_pos hrange, Int32.ofInt_toInt]

end Decimal

/-! ## Numerals as words -/

theorem isSpace_of_isDigit {c : Char} (h : c.isDigit = true) : isSpace c = false := by
  have hc := toNat_of_isDigit h
  simp only [isSpace, Bool.or_eq_false_iff, Bool.and_eq_false_iff, decide_eq_false_iff_not]
  omega

/-- Digits are characters of one byte. -/
theorem encodeAll_of_isDigit {ds : List Char} (hds : ∀ c ∈ ds, c.isDigit = true) :
    Utf8.encodeAll ds = ds.map (·.toNat.toUInt8) := by
  induction ds with
  | nil => rfl
  | cons c ds ih =>
    simp only [List.mem_cons, forall_eq_or_imp] at hds
    have hascii : c.toNat < 0x80 := Nat.lt_of_le_of_lt (toNat_of_isDigit hds.1).2 (by decide)
    rw [Utf8.encodeAll_cons, Utf8.encode_of_lt hascii, ih hds.2]
    rfl

/-- The characters of a numeral. -/
theorem toList_toString (n : Int) :
    (toString n).toList = (if n < 0 then ['-'] else []) ++ Nat.toDigits 10 n.natAbs := by
  rw [Int.toString_eq_repr]
  cases n with
  | ofNat n => simp [Int.repr]
  | negSucc n => simp [Int.repr, Int.negSucc_lt_zero]

theorem encodeAll_toString (n : Int) : Utf8.encodeAll (toString n).toList = Decimal.ofInt n := by
  rw [toList_toString, Utf8.encodeAll_append,
    encodeAll_of_isDigit fun c => Decimal.isDigit_of_mem_toDigits]
  cases n with
  | ofNat n => rw [if_neg (by simp only [Int.ofNat_eq_natCast]; omega)]; rfl
  | negSucc n => rw [if_pos (Int.negSucc_lt_zero n)]; rfl

namespace Word

/-- A number in decimal. -/
def numeral (n : Int32) : Word where
  chars := (toString n.toInt).toList
  ne_nil := by rw [toList_toString]; simp [Nat.toDigits_ne_nil]
  no_space := by
    intro c hc
    rw [toList_toString, List.mem_append] at hc
    rcases hc with hsign | hdigit
    · obtain rfl : c = '-' := by split at hsign <;> simp_all
      rfl
    · exact isSpace_of_isDigit (Decimal.isDigit_of_mem_toDigits hdigit)

theorem toBytes_numeral (n : Int32) : (numeral n).toBytes = Decimal.ofInt n.toInt :=
  encodeAll_toString n.toInt

theorem instruction_numeral (n : Int32) : (numeral n).instruction = .push n := by
  rw [instruction, toBytes_numeral, Instruction.classify, Decimal.readInt32?_ofInt]

end Word

end WordStack

import Mathlib.Algebra.Group.Nat.Defs
import WordStack.Proofs.Text.Pieces
import WordStack.Text.Quoted

/-!
# Quoted text read back

`readBody?` reads what stands between quotes up to the quote that closes it: a backslash begins a
letter, a quote, another backslash or a number of two, four or eight digits, and every other byte
stands for itself. So a quote ends where it says it does, and whatever is behind it is left.

* `stands_plain`, `stands_letter`, `stands_hex`: the ways in which bytes are written.
* `stands_escapePiece`, `stands_body`: between quotes, each piece of a text stands for its bytes.
* `quote_append_inj`: a text in quotes is read back, whatever is behind it.
* `lineFeed_not_mem_quote`: text in quotes stands on one line.
-/
namespace WordStack.Quoted

open Utf8 (Piece encode)

/-! ## Numbers -/

/-- The value of a hexadecimal digit in lower case. -/
def digitValue (b : UInt8) : Nat := if b < 58 then b.toNat - 48 else b.toNat - 87

/-- The number that hexadecimal digits write. -/
def hexValue (digits : Bytes) : Nat := digits.foldl (fun n b => 16 * n + digitValue b) 0

theorem digitValue_hexDigit {n : Nat} (h : n < 16) : digitValue (hexDigit n) = n := by
  revert n
  decide

theorem length_hex (width n : Nat) : (hex width n).length = width := by
  induction width generalizing n with
  | zero => rfl
  | succ width ih => simp [hex, ih]

theorem hexValue_hex {width n : Nat} (h : n < 16 ^ width) : hexValue (hex width n) = n := by
  induction width generalizing n with
  | zero =>
    rw [Nat.pow_zero, Nat.lt_one_iff] at h
    rw [h]
    rfl
  | succ width ih =>
    have hfront := ih (n := n / 16) (by rw [Nat.pow_succ] at h; omega)
    rw [hexValue] at hfront ⊢
    rw [hex, List.foldl_append, hfront, List.foldl_cons, List.foldl_nil,
      digitValue_hexDigit (Nat.mod_lt n (by decide))]
    omega

/-! ## What stands behind a backslash -/

/-- The byte that a single byte behind a backslash stands for. -/
def meant? (b : UInt8) : Option UInt8 :=
  [(34, 34), (92, 92), (97, 7), (98, 8), (116, 9), (110, 10), (118, 11), (102, 12),
    (114, 13)].lookup b

/-- How many digits a number has behind its letter. -/
def digitCount? (letter : UInt8) : Option Nat := [(120, 2), (117, 4), (85, 8)].lookup letter

/-- What a number stands for: two digits for a byte, more for a character. -/
def numbered (width n : Nat) : Bytes :=
  if width = 2 then [n.toUInt8] else encode (Char.ofNat n)

/-- What the front of a text behind a backslash stands for, and how many bytes that is. -/
def escaped? : Bytes → Option (Bytes × Nat)
  | [] => none
  | b :: rest =>
    match digitCount? b with
    | some width => some (numbered width (hexValue (rest.take width)), width + 1)
    | none => (meant? b).map ([·], 1)

/-- The text in front of the quote that closes it, and what is behind that quote. -/
def readBody? (b : Bytes) : Option (Bytes × Bytes) :=
  match b with
  | [] => none
  | x :: rest =>
    if x = 34 then some ([], rest)
    else if x = 92 then
      match escaped? rest with
      | none => none
      | some (bs, taken) => (readBody? (rest.drop taken)).map fun r => (bs ++ r.1, r.2)
    else (readBody? rest).map fun r => (x :: r.1, r.2)
termination_by b.length

theorem readBody?_quote (rest : Bytes) : readBody? (34 :: rest) = some ([], rest) := by
  rw [readBody?, if_pos rfl]

/-- Between quotes, `w` stands for `bs`. -/
def Stands (w bs : Bytes) : Prop :=
  ∀ rest, readBody? (w ++ rest) = (readBody? rest).map fun r => (bs ++ r.1, r.2)

theorem stands_nil : Stands [] [] := fun rest => by simp

theorem Stands.append {v w bs cs : Bytes} (hv : Stands v bs) (hw : Stands w cs) :
    Stands (v ++ w) (bs ++ cs) := by
  intro rest
  rw [List.append_assoc, hv, hw, Option.map_map]
  exact congrArg (Option.map · _) (funext fun r => by simp)

/-- Bytes other than a quote and a backslash stand for themselves. -/
theorem stands_plain {bs : Bytes} (h : ∀ b ∈ bs, b ≠ 34 ∧ b ≠ 92) : Stands bs bs := by
  induction bs with
  | nil => exact stands_nil
  | cons b bs ih =>
    simp only [List.mem_cons, forall_eq_or_imp] at h
    have hb : Stands [b] [b] := fun rest => by
      rw [List.singleton_append, readBody?, if_neg h.1.1, if_neg h.1.2]
      rfl
    exact hb.append (ih h.2)

theorem stands_backslash {w bs : Bytes}
    (h : ∀ rest, escaped? (w ++ rest) = some (bs, w.length)) : Stands (92 :: w) bs := by
  intro rest
  rw [List.cons_append, readBody?, if_neg (by decide), if_pos rfl, h]
  simp

theorem stands_letter {letter b : UInt8} (hno : digitCount? letter = none)
    (h : meant? letter = some b) : Stands [92, letter] [b] := by
  refine stands_backslash (w := [letter]) fun rest => ?_
  rw [List.singleton_append, escaped?, hno, h]
  rfl

theorem stands_hex (letter : UInt8) (width : Nat) {n : Nat}
    (hletter : digitCount? letter = some width) (hn : n < 16 ^ width) :
    Stands (92 :: letter :: hex width n) (numbered width n) := by
  refine stands_backslash (w := letter :: hex width n) fun rest => ?_
  have htake : (hex width n ++ rest).take width = hex width n :=
    List.take_left' (length_hex width n)
  rw [List.cons_append, escaped?, hletter]
  simp only [htake, hexValue_hex hn, List.length_cons, length_hex]

/-! ## Texts -/

theorem controlLetter?_eq_some {n : Nat} {letter : UInt8} (h : controlLetter? n = some letter) :
    n < 0x80 ∧ digitCount? letter = none ∧ meant? letter = some n.toUInt8 := by
  unfold controlLetter? at h
  split at h <;> first | cases h; decide | cases h

theorem stands_escape (c : Char) : Stands (escape {} c) (encode c) := by
  unfold escape
  split
  · next h => rcases h with rfl | rfl <;> exact stands_letter rfl rfl
  · next hmarks =>
    split
    · refine stands_plain fun b hb => ⟨?_, ?_⟩ <;> rintro rfl
      · exact hmarks (.inl (Utf8.eq_asciiChar_of_mem hb (by decide)))
      · exact hmarks (.inr (Utf8.eq_asciiChar_of_mem hb (by decide)))
    · simp only
      split
      · next letter h =>
        obtain ⟨hlt, hno, hmeant⟩ := controlLetter?_eq_some h
        rw [Utf8.encode_of_lt hlt]
        exact stands_letter hno hmeant
      · split
        · next hlt =>
          rw [Utf8.encode_of_lt hlt]
          exact stands_hex 120 2 rfl (Nat.lt_trans hlt (by decide))
        · have hc : encode c = encode (Char.ofNat c.toNat) := by rw [Char.ofNat_toNat]
          rw [hc]
          split
          · next hlt => exact stands_hex 117 4 rfl hlt
          · exact stands_hex 85 8 rfl c.val.toNat_lt

theorem stands_escapePiece (p : Piece) : Stands (escapePiece {} p) p.toBytes := by
  cases p with
  | char c => exact stands_escape c
  | stray b =>
    have h : Stands (escapePiece {} (.stray b)) (numbered 2 b.toNat) :=
      stands_hex 120 2 rfl b.toNat_lt
    rwa [numbered, if_pos rfl, Nat.toUInt8_eq, UInt8.ofNat_toNat] at h

theorem stands_body (b : Bytes) : Stands (body {} b) b := by
  have hpieces (ps : List Piece) :
      Stands (ps.flatMap (escapePiece {})) (ps.flatMap Piece.toBytes) := by
    induction ps with
    | nil => exact stands_nil
    | cons p ps ih => exact (stands_escapePiece p).append ih
  have hbody := hpieces (Utf8.pieces b)
  rwa [Utf8.flatMap_pieces] at hbody

/-- A text in quotes is read back, and what is behind it is left. -/
theorem readBody?_quote_append (b rest : Bytes) :
    ∃ inner, quote b ++ rest = 34 :: inner ∧ readBody? inner = some (b, rest) := by
  refine ⟨body {} b ++ 34 :: rest, ?_, ?_⟩
  · have hmark : encode '"' = [34] := rfl
    simp [quote, quoteAs, hmark]
  · rw [stands_body b, readBody?_quote]
    simp

theorem quote_append_inj {a b s t : Bytes} (h : quote a ++ s = quote b ++ t) : a = b ∧ s = t := by
  obtain ⟨inner, hinner, ha⟩ := readBody?_quote_append a s
  obtain ⟨inner', hinner', hb⟩ := readBody?_quote_append b t
  obtain rfl : inner = inner' := by
    rw [hinner, hinner'] at h
    exact (List.cons.inj h).2
  rw [ha] at hb
  exact Prod.mk.inj (Option.some.inj hb)

theorem quote_inj {a b : Bytes} (h : quote a = quote b) : a = b := by
  have hempty : quote a ++ [] = quote b ++ [] := by rw [h]
  exact (quote_append_inj hempty).1

/-! ## One line -/

theorem lineFeed_not_mem_hex (width n : Nat) : lineFeed ∉ hex width n := by
  have hdigit : ∀ d < 16, hexDigit d ≠ lineFeed := by decide
  induction width generalizing n with
  | zero => exact List.not_mem_nil
  | succ width ih =>
    rw [hex, List.mem_append, not_or, List.mem_singleton]
    exact ⟨ih _, (hdigit _ (Nat.mod_lt n (by decide))).symm⟩

theorem lineFeed_not_mem_escape (c : Char) : lineFeed ∉ escape {} c := by
  have hnumber (mark : Bytes) (hmark : lineFeed ∉ mark) (width : Nat) :
      lineFeed ∉ mark ++ hex width c.toNat := by
    rw [List.mem_append, not_or]
    exact ⟨hmark, lineFeed_not_mem_hex width _⟩
  unfold escape
  split
  · next h => rcases h with rfl | rfl <;> decide
  · split
    · next hprintable =>
      -- The line feed is not printable.
      intro hmem
      rw [Utf8.eq_asciiChar_of_mem hmem (by decide)] at hprintable
      exact absurd hprintable.1 (by decide)
    · simp only
      split
      · next letter h =>
        unfold controlLetter? at h
        split at h <;> first | cases h; decide | cases h
      · split
        · exact hnumber _ (by decide) 2
        · split
          · exact hnumber _ (by decide) 4
          · exact hnumber _ (by decide) 8

theorem lineFeed_not_mem_quote (b : Bytes) : lineFeed ∉ quote b := by
  have hpiece (p : Piece) : lineFeed ∉ escapePiece {} p := by
    cases p with
    | char c => exact lineFeed_not_mem_escape c
    | stray b =>
      rw [escapePiece, List.mem_append, not_or]
      exact ⟨by decide, lineFeed_not_mem_hex 2 _⟩
  have hbody : lineFeed ∉ body {} b := by
    rw [body, List.mem_flatMap]
    rintro ⟨p, -, hp⟩
    exact hpiece p hp
  rw [quote, quoteAs, List.mem_append, List.mem_append, not_or, not_or]
  exact ⟨⟨by decide, hbody⟩, by decide⟩

end WordStack.Quoted

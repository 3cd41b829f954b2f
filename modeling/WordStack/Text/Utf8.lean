import WordStack.Text.Bytes

/-!
# UTF-8

`first?` reads the character at the front of a byte string. `decode` reads characters until the
end or until the first byte that starts no well-formed sequence: it gives the characters of the
longest well-formed beginning, and the bytes that are left. `pieces` reads on behind such bytes,
each of which is a piece by itself. Stray, overlong, surrogate and cut-off sequences are all not
well-formed.

* `first?_eq_some_iff`: a character is read exactly where its encoding stands.
* `decode_append`, `flatMap_pieces`: nothing is lost or changed by decoding.
-/
namespace WordStack.Utf8

/-- The bytes of a character. -/
def encode (c : Char) : Bytes := String.utf8EncodeChar c

/-- The bytes of a list of characters. -/
def encodeAll (cs : List Char) : Bytes := cs.flatMap encode

/-- The character at the front, and what follows it; none if the front is not well-formed. -/
def first? (b : Bytes) : Option (Char × Bytes) :=
  ((b.take 4).toByteArray.utf8DecodeChar? 0).map fun c => (c, b.drop c.utf8Size)

theorem length_encode (c : Char) : (encode c).length = c.utf8Size := String.length_utf8EncodeChar c

theorem first?_encode_append (c : Char) (rest : Bytes) :
    first? (encode c ++ rest) = some (c, rest) := by
  have h4 : (encode c).length ≤ 4 := length_encode c ▸ c.utf8Size_le_four
  have htake : (encode c ++ rest).take 4 = encode c ++ rest.take (4 - (encode c).length) := by
    rw [List.take_append, List.take_of_length_le h4]
  have hdec : ((encode c ++ rest).take 4).toByteArray.utf8DecodeChar? 0 = some c := by
    rw [htake, List.toByteArray_append]
    exact ByteArray.utf8DecodeChar?_utf8EncodeChar_append
  unfold first?
  rw [hdec, Option.map_some, ← length_encode, List.drop_left]

theorem eq_append_of_first? {b rest : Bytes} {c : Char} (h : first? b = some (c, rest)) :
    b = encode c ++ rest := by
  unfold first? at h
  obtain ⟨d, hd, he⟩ := Option.map_eq_some_iff.1 h
  obtain ⟨rfl, hrest⟩ := Prod.mk.inj he
  obtain ⟨l, hl⟩ := ByteArray.exists_of_utf8DecodeChar?_eq_some hd
  have hlist : b.take 4 = encode d ++ l.data.toList := by
    have := congrArg (fun a : ByteArray => a.data.toList) hl
    simpa [encode, ByteArray.data_append] using this
  have hb : b = encode d ++ (l.data.toList ++ b.drop 4) := by
    rw [← List.append_assoc, ← hlist, List.take_append_drop]
  have hdrop : b.drop d.utf8Size = l.data.toList ++ b.drop 4 := by
    calc b.drop d.utf8Size
        = (encode d ++ (l.data.toList ++ b.drop 4)).drop (encode d).length := by
          rw [← hb, length_encode]
      _ = l.data.toList ++ b.drop 4 := List.drop_left
  rw [← hrest, hdrop]
  exact hb

theorem first?_eq_some_iff {b rest : Bytes} {c : Char} :
    first? b = some (c, rest) ↔ b = encode c ++ rest :=
  ⟨eq_append_of_first?, fun h => h ▸ first?_encode_append c rest⟩

/-- Reading a character leaves fewer bytes. -/
theorem length_lt_of_first? {b rest : Bytes} {c : Char} (h : first? b = some (c, rest)) :
    rest.length < b.length := by
  have hpos := c.utf8Size_pos
  rw [eq_append_of_first? h, List.length_append, length_encode]
  omega

/-- The characters of the longest well-formed beginning, and the bytes behind it. -/
def decode (b : Bytes) : List Char × Bytes :=
  match h : first? b with
  | none => ([], b)
  | some (c, rest) =>
    have := length_lt_of_first? h
    let (cs, left) := decode rest
    (c :: cs, left)
termination_by b.length

theorem decode_append (b : Bytes) : encodeAll (decode b).1 ++ (decode b).2 = b := by
  fun_induction decode b with
  | case1 b h => simp [encodeAll]
  | case2 b c rest h hlt cs left heq ih =>
    rw [heq] at ih
    simp only [encodeAll, List.flatMap_cons, List.append_assoc] at ih ⊢
    rw [ih]
    exact (eq_append_of_first? h).symm

/-- A character, or a byte that is part of none. -/
inductive Piece where
  | char (c : Char)
  | stray (b : UInt8)
  deriving DecidableEq, Repr

/-- The bytes of a piece. -/
def Piece.toBytes : Piece → Bytes
  | char c => encode c
  | stray b => [b]

/-- A byte string cut into characters and bytes that are part of none. -/
def pieces (b : Bytes) : List Piece :=
  match b with
  | [] => []
  | x :: tail =>
    match h : first? (x :: tail) with
    | none => .stray x :: pieces tail
    | some (c, rest) =>
      have := length_lt_of_first? h
      .char c :: pieces rest
termination_by b.length
decreasing_by
  · exact Nat.lt_succ_self tail.length
  · exact this

theorem flatMap_pieces (b : Bytes) : (pieces b).flatMap Piece.toBytes = b := by
  fun_induction pieces b with
  | case1 => rfl
  | case2 x tail h ih => simp [Piece.toBytes, ih]
  | case3 x tail c rest h hlt ih =>
    simp only [List.flatMap_cons, Piece.toBytes, ih]
    exact (eq_append_of_first? h).symm

/-- A byte string is UTF-8 if decoding leaves nothing. -/
def isValid (b : Bytes) : Bool := (decode b).2.isEmpty

/-- What stands in place of a byte that is part of no character. -/
def replacement : Char := Char.ofNat 0xFFFD

end WordStack.Utf8

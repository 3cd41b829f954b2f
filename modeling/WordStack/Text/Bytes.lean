/-!
# Byte strings

Source text, output and messages are byte strings: they may hold bytes that are not UTF-8, and
positions, widths of marks and buffer room are all counted in bytes. `bytes` gives the bytes of a
literal, `joinWith` puts a separator between the members of a list, `lines` cuts a byte string at
its line feeds, and `cut?` cuts it at the first occurrence of a mark.
-/
namespace WordStack

/-- A byte string. -/
abbrev Bytes := List UInt8

/-- The UTF-8 bytes of a string. -/
def bytes (s : String) : Bytes := s.toUTF8.data.toList

/-- The byte that ends a line. -/
def lineFeed : UInt8 := 10

/-- The members of a list in order, with a separator between neighbours. -/
def joinWith (separator : Bytes) : List Bytes → Bytes
  | [] => []
  | [b] => b
  | b :: rest => b ++ separator ++ joinWith separator rest

theorem joinWith_eq_intercalate (separator : Bytes) (members : List Bytes) :
    joinWith separator members = separator.intercalate members := by
  fun_induction joinWith separator members with
  | case1 => rfl
  | case2 b => simp
  | case3 b rest hrest ih =>
    obtain ⟨c, more, rfl⟩ := List.exists_cons_of_ne_nil hrest
    rw [ih, List.intercalate_cons_cons]

/-- The pieces between line feeds. The last piece is what follows the last line feed, so it is
empty when the text ends in one, and there is always at least one piece. -/
def lines (b : Bytes) : List Bytes := b.splitOnP (· == lineFeed)

/-- The rest of `b` behind `start`, if `b` begins with it. -/
def behind? : (start b : Bytes) → Option Bytes
  | [], b => some b
  | _ :: _, [] => none
  | x :: start, y :: b => if x = y then behind? start b else none

/-- What is in front of the first occurrence of a mark, and what is behind it. -/
def cut? (mark : Bytes) : Bytes → Option (Bytes × Bytes)
  | [] => (behind? mark []).map ([], ·)
  | x :: b =>
    match behind? mark (x :: b) with
    | some rest => some ([], rest)
    | none => (cut? mark b).map fun (front, rest) => (x :: front, rest)

theorem behind?_append (start rest : Bytes) : behind? start (start ++ rest) = some rest := by
  induction start with
  | nil => rfl
  | cons x start ih => simp [behind?, ih]

theorem eq_append_of_behind? {start b rest : Bytes} (h : behind? start b = some rest) :
    b = start ++ rest := by
  fun_induction behind? start b with
  | case1 b => simpa using h
  | case2 => simp at h
  | case3 x start b ih => simp [ih h]
  | case4 => simp at h

theorem eq_append_of_cut? {mark b front rest : Bytes} (h : cut? mark b = some (front, rest)) :
    b = front ++ mark ++ rest := by
  fun_induction cut? mark b generalizing front with
  | case1 =>
    obtain ⟨r, hr, he⟩ := Option.map_eq_some_iff.1 h
    obtain ⟨rfl, rfl⟩ := Prod.mk.inj he
    exact eq_append_of_behind? hr
  | case2 x b r hr =>
    obtain ⟨rfl, rfl⟩ := Prod.mk.inj (Option.some.inj h)
    exact eq_append_of_behind? hr
  | case3 x b _ ih =>
    obtain ⟨⟨f, r⟩, hr, he⟩ := Option.map_eq_some_iff.1 h
    obtain ⟨rfl, rfl⟩ := Prod.mk.inj he
    simp [ih hr]

end WordStack

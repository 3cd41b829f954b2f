import WordStack.Proofs.Source.Spacing
import WordStack.Reader

/-!
# Reading words character by character

The words of a source can be taken off a reader one character at a time: skip white space, collect
characters up to the next white space, and start again. A word at the end of the input is complete;
any other error drops the word it is met in. A byte that is part of no character is told from a
replacement character that stands in the text by its size.

* `Reader.char_encode`, `Reader.char_left`: one character, or the error in its place.
* `Reader.skip_space`, `Reader.collect_word`: the two loops.
* `Reader.words_spaced`: the words taken off a reader, by the spacing of its text.
* `lex_splits`: what is read from a source, however it ends, and that a reader gives the same.
-/
namespace WordStack

namespace Reader

/-- The next character. A byte that is part of none is an error. -/
def char (r : Reader) : Except Error Char × Reader :=
  match r.next with
  | (.error e, r') => (.error e, r')
  | (.ok (c, size), r') =>
    (if c = Utf8.replacement ∧ size = 1 then .error .invalidUtf8 else .ok c, r')

/-- The reader with some other bytes left. -/
def withRest (r : Reader) (b : Bytes) : Reader := { r with rest := b }

theorem withRest_rest (r : Reader) : r.withRest r.rest = r := rfl

variable {r r' : Reader} {c : Char} {b left : Bytes}

/-- A character is read where it stands. The size of the replacement character is not one. -/
theorem char_encode (r : Reader) (c : Char) (b : Bytes) :
    (r.withRest (Utf8.encode c ++ b)).char = (.ok c, r.withRest b) := by
  have hnext : (r.withRest (Utf8.encode c ++ b)).next = (.ok (c, c.utf8Size), r.withRest b) := by
    have hfirst := Utf8.first?_encode_append c b
    obtain ⟨x, tail, hx⟩ :=
      List.exists_cons_of_ne_nil (List.append_ne_nil_of_left_ne_nil (Utf8.encode_ne_nil c) b)
    rw [hx] at hfirst
    simp only [next, withRest, hx, hfirst]
  have hsize : ¬ (c = Utf8.replacement ∧ c.utf8Size = 1) := by
    rintro ⟨rfl, h⟩
    exact absurd h (by decide)
  simp only [char, hnext, if_neg hsize]

/-- The error in place of a character: what comes behind the bytes, or that they are not UTF-8. -/
def stopAt (ending : Error) (left : Bytes) : Error := if left = [] then ending else .invalidUtf8

theorem char_left (r : Reader) (h : Utf8.first? left = none) :
    (r.withRest left).char = (.error (stopAt r.ending left), r.withRest left.tail) := by
  cases left with
  | nil => rfl
  | cons x tail => simp [char, next, withRest, h, stopAt]

theorem length_lt_of_char (h : r.char = (.ok c, r')) : r'.rest.length < r.rest.length := by
  rw [← withRest_rest r] at h
  cases hfirst : Utf8.first? r.rest with
  | none =>
    rw [char_left r hfirst] at h
    cases (Prod.mk.inj h).1
  | some found =>
    obtain ⟨d, rest⟩ := found
    rw [Utf8.eq_append_of_first? hfirst, char_encode] at h
    rw [← (Prod.mk.inj h).2]
    exact Utf8.length_lt_of_first? hfirst

theorem length_le_of_char_error {e : Error} (h : r.char = (.error e, r')) :
    r'.rest.length ≤ r.rest.length := by
  rw [← withRest_rest r] at h
  cases hfirst : Utf8.first? r.rest with
  | none =>
    rw [char_left r hfirst] at h
    rw [← (Prod.mk.inj h).2]
    simp [withRest]
  | some found =>
    obtain ⟨d, rest⟩ := found
    rw [Utf8.eq_append_of_first? hfirst, char_encode] at h
    cases (Prod.mk.inj h).1

/-! ## The loops -/

/-- Read on to the first character that is no white space. -/
def skip (r : Reader) : Except Error Char × Reader :=
  match h : r.char with
  | (.error e, r') => (.error e, r')
  | (.ok c, r') =>
    have := length_lt_of_char h
    if isSpace c then skip r' else (.ok c, r')
termination_by r.rest.length

/-- Read on to the white space or the end of the input behind a word that has begun. -/
def collect (begun : List Char) (r : Reader) : Except Error (List Char) × Reader :=
  match h : r.char with
  | (.error e, r') => (if e = .endOfInput then .ok begun else .error e, r')
  | (.ok c, r') =>
    have := length_lt_of_char h
    if isSpace c then (.ok begun, r') else collect (begun ++ [c]) r'
termination_by r.rest.length

/-- The next word. -/
def word (r : Reader) : Except Error (List Char) × Reader :=
  match r.skip with
  | (.error e, r') => (.error e, r')
  | (.ok c, r') => r'.collect [c]

theorem length_lt_of_skip (h : r.skip = (.ok c, r')) : r'.rest.length < r.rest.length := by
  fun_induction skip r with
  | case1 => cases (Prod.mk.inj h).1
  | case2 r d r'' hchar hlt hspace ih => exact Nat.lt_trans (ih h) hlt
  | case3 r d r'' hchar hlt hspace => rw [← (Prod.mk.inj h).2]; exact hlt

theorem length_le_of_collect {begun w : List Char} (h : r.collect begun = (.ok w, r')) :
    r'.rest.length ≤ r.rest.length := by
  fun_induction collect begun r with
  | case1 begun r e r'' hchar =>
    rw [← (Prod.mk.inj h).2]
    exact length_le_of_char_error hchar
  | case2 begun r d r'' hchar hlt hspace => rw [← (Prod.mk.inj h).2]; exact Nat.le_of_lt hlt
  | case3 begun r d r'' hchar hlt hspace ih => exact Nat.le_trans (ih h) (Nat.le_of_lt hlt)

theorem length_lt_of_word {w : List Char} (h : r.word = (.ok w, r')) :
    r'.rest.length < r.rest.length := by
  unfold word at h
  split at h
  · cases (Prod.mk.inj h).1
  · next hskip => exact Nat.lt_of_le_of_lt (length_le_of_collect h) (length_lt_of_skip hskip)

/-- The words that can be read, and the error behind them unless that is the end of the input. -/
def words (r : Reader) : List (List Char) × Option Error :=
  match h : r.word with
  | (.error e, _) => ([], if e = .endOfInput then none else some e)
  | (.ok w, r') =>
    have := length_lt_of_word h
    let (rest, error) := words r'
    (w :: rest, error)
termination_by r.rest.length

/-- The instructions that can be read. -/
def lex (r : Reader) : List Instruction × Option Error :=
  (r.words.1.map fun w => .classify (Utf8.encodeAll w), r.words.2)

/-! One turn of each loop. -/

theorem skip_of_char (h : r.char = (.ok c, r')) :
    r.skip = if isSpace c then r'.skip else (.ok c, r') := by
  rw [skip]
  split
  · next h' => rw [h] at h'; cases h'
  · next h' => rw [h] at h'; cases h'; rfl

theorem skip_of_error {e : Error} (h : r.char = (.error e, r')) : r.skip = (.error e, r') := by
  rw [skip]
  split
  · next h' => rw [h] at h'; cases h'; rfl
  · next h' => rw [h] at h'; cases h'

theorem collect_of_char (h : r.char = (.ok c, r')) (begun : List Char) :
    r.collect begun = if isSpace c then (.ok begun, r') else r'.collect (begun ++ [c]) := by
  rw [collect]
  split
  · next h' => rw [h] at h'; cases h'
  · next h' => rw [h] at h'; cases h'; rfl

theorem collect_of_error {e : Error} (h : r.char = (.error e, r')) (begun : List Char) :
    r.collect begun = (if e = .endOfInput then .ok begun else .error e, r') := by
  rw [collect]
  split
  · next h' => rw [h] at h'; cases h'; rfl
  · next h' => rw [h] at h'; cases h'

theorem words_of_word {w : List Char} (h : r.word = (.ok w, r')) :
    r.words = (w :: r'.words.1, r'.words.2) := by
  rw [words]
  split
  · next h' => rw [h] at h'; cases h'
  · next h' => rw [h] at h'; cases h'; rfl

theorem words_of_error {e : Error} (h : r.word = (.error e, r')) :
    r.words = ([], if e = .endOfInput then none else some e) := by
  rw [words]
  split
  · next h' => rw [h] at h'; cases h'; rfl
  · next h' => rw [h] at h'; cases h'

/-! ## What the loops read -/

section
variable (r : Reader) (b : Bytes)

theorem skip_space {g : List Char} (hg : ∀ c ∈ g, isSpace c = true) :
    (r.withRest (Utf8.encodeAll g ++ b)).skip = (r.withRest b).skip := by
  induction g with
  | nil => rfl
  | cons c g ih =>
    simp only [List.mem_cons, forall_eq_or_imp] at hg
    rw [Utf8.encodeAll_cons, List.append_assoc, skip_of_char (char_encode r c _), if_pos hg.1,
      ih hg.2]

/-- White space in front of the words is skipped. -/
theorem words_space {g : List Char} (hg : ∀ c ∈ g, isSpace c = true) :
    (r.withRest (Utf8.encodeAll g ++ b)).words = (r.withRest b).words := by
  have hword : (r.withRest (Utf8.encodeAll g ++ b)).word = (r.withRest b).word := by
    rw [word, word, skip_space r b hg]
  match h : (r.withRest b).word with
  | (.error e, r') => rw [words_of_error h, words_of_error (hword.trans h)]
  | (.ok w, r') => rw [words_of_word h, words_of_word (hword.trans h)]

theorem collect_word {cs : List Char} (hcs : ∀ c ∈ cs, isSpace c = false) (begun : List Char) :
    (r.withRest (Utf8.encodeAll cs ++ b)).collect begun =
      (r.withRest b).collect (begun ++ cs) := by
  induction cs generalizing begun with
  | nil => simp
  | cons c cs ih =>
    simp only [List.mem_cons, forall_eq_or_imp] at hcs
    rw [Utf8.encodeAll_cons, List.append_assoc, collect_of_char (char_encode r c _),
      if_neg (by simp [hcs.1]), ih hcs.2, List.append_assoc, List.singleton_append]

/-- Behind a word that has begun with its first character the other ones are collected. -/
theorem word_begins (w : Word) : (r.withRest (w.toBytes ++ b)).word =
    (r.withRest b).collect w.chars := by
  obtain ⟨c, cs, hw⟩ := List.exists_cons_of_ne_nil w.ne_nil
  have hspace := w.no_space
  simp only [hw, List.mem_cons, forall_eq_or_imp] at hspace
  have hskip : (r.withRest (w.toBytes ++ b)).skip =
      (.ok c, r.withRest (Utf8.encodeAll cs ++ b)) := by
    rw [Word.toBytes, hw, Utf8.encodeAll_cons, List.append_assoc, skip_of_char (char_encode r c _),
      if_neg (by simp [hspace.1])]
  rw [word, hskip, hw]
  exact collect_word r b hspace.2 [c]

/-- A word with white space behind it. -/
theorem words_closed (w : Word) (g : Gap) :
    (r.withRest (w.toBytes ++ (Utf8.encodeAll g.chars ++ b))).words =
      (w.chars :: (r.withRest b).words.1, (r.withRest b).words.2) := by
  obtain ⟨c, cs, hg⟩ := List.exists_cons_of_ne_nil g.ne_nil
  have hspace := g.all_space
  simp only [hg, List.mem_cons, forall_eq_or_imp] at hspace
  have hword : (r.withRest (w.toBytes ++ (Utf8.encodeAll g.chars ++ b))).word =
      (.ok w.chars, r.withRest (Utf8.encodeAll cs ++ b)) := by
    rw [word_begins, hg, Utf8.encodeAll_cons, List.append_assoc,
      collect_of_char (char_encode r c _), if_pos hspace.1]
  rw [words_of_word hword, words_space r b hspace.2]

end

/-- The words read in front of an error: only the end of the input completes the last one. -/
def before (stop : Error) (closed : List (List Char)) (last : Option Word) :
    List (List Char) × Option Error :=
  if stop = .endOfInput then (closed ++ last.toList.map Word.chars, none) else (closed, some stop)

theorem before_cons (stop : Error) (w : List Char) (closed : List (List Char))
    (last : Option Word) : before stop (w :: closed) last =
      (w :: (before stop closed last).1, (before stop closed last).2) := by
  unfold before
  split <;> rfl

section
variable (r : Reader) (hleft : Utf8.first? left = none)

include hleft

/-- Nothing but an error is left. -/
theorem words_left : (r.withRest left).words = before (stopAt r.ending left) [] none := by
  have hword : (r.withRest left).word = (.error (stopAt r.ending left), r.withRest left.tail) := by
    rw [word, skip_of_error (char_left r hleft)]
  rw [words_of_error hword]
  unfold before
  split <;> rfl

/-- A last word with no white space behind it. -/
theorem words_last (w : Word) :
    (r.withRest (w.toBytes ++ left)).words = before (stopAt r.ending left) [] (some w) := by
  have hword : (r.withRest (w.toBytes ++ left)).word =
      (if stopAt r.ending left = .endOfInput then .ok w.chars else .error (stopAt r.ending left),
        r.withRest left.tail) := by
    rw [word_begins, collect_of_error (char_left r hleft)]
  by_cases hstop : stopAt r.ending left = .endOfInput
  · -- all bytes are used up, and the end is met once more
    obtain rfl : left = [] := by
      unfold stopAt at hstop
      split at hstop
      · next h => exact h
      · cases hstop
    rw [if_pos hstop] at hword
    rw [words_of_word hword, List.tail_nil, words_left r hleft, hstop]
    rfl
  · rw [if_neg hstop] at hword
    rw [words_of_error hword, if_neg hstop, before, if_neg hstop]

/-- The words of a text, by what stands behind it. -/
theorem words_spaced (k : Spacing) : (r.withRest (Utf8.encodeAll k.text ++ left)).words =
    before (stopAt r.ending left) (k.closedWords.map Word.chars) k.tail := by
  have hclosed : ∀ closed : List (Word × Gap),
      (r.withRest (Utf8.encodeAll ((closed.flatMap fun p => p.1.chars ++ p.2.chars) ++
        k.tailChars) ++ left)).words =
      before (stopAt r.ending left) (closed.map (·.1.chars)) k.tail := by
    intro closed
    induction closed with
    | nil =>
      cases htail : k.tail with
      | none => simpa [Spacing.tailChars, htail] using words_left r hleft
      | some w => simpa [Spacing.tailChars, htail, Word.toBytes] using words_last r hleft w
    | cons p closed ih =>
      rw [List.map_cons, before_cons, ← ih, ← words_closed r _ p.1 p.2]
      simp [Word.toBytes]
  rw [Spacing.text, List.append_assoc, Utf8.encodeAll_append, List.append_assoc,
    words_space r _ k.leadChars_isSpace, hclosed k.closed, Spacing.closedWords, List.map_map]
  rfl

/-- A reader gives what the source gives as a whole. -/
theorem lex_spaced (k : Spacing) : (r.withRest (Utf8.encodeAll k.text ++ left)).lex =
    Source.lex ⟨Utf8.encodeAll k.text ++ left,
      if r.ending = .endOfInput then none else some r.ending⟩ := by
  have hwords : ∀ ws : List Word, (ws.map Word.chars).map (fun w => .classify (Utf8.encodeAll w)) =
      ws.map Word.instruction := fun ws => List.map_map
  rw [lex, words_spaced r hleft k]
  by_cases hne : left = []
  · subst hne
    by_cases hend : r.ending = .endOfInput
    · simp only [stopAt, before, hend, if_true, List.append_nil, ← List.map_append, hwords,
        Source.lex_whole, Spacing.words]
    · simp only [stopAt, before, hend, if_true, if_false, List.append_nil, hwords,
        Source.lex_failed]
  · simp [stopAt, before, hne, Source.lex_broken k hleft hne, hwords, -List.map_map]

end

end Reader

open Source in
/-- **A source is read as its words.** Let the longest beginning of a source that is made of whole
characters be cut into words. If that is the whole source and it ends normally, all of its words are
read. If there is anything else behind it, or if it ends in an error, the words that have white
space behind them are read, and that is the error. A reader gives the same character by
character. -/
theorem lex_splits (src : Bytes) :
    (∃ k : Spacing, Utf8.Longest src (Utf8.encodeAll k.text)) ∧
    ∀ k : Spacing, Utf8.Longest src (Utf8.encodeAll k.text) →
      (Utf8.encodeAll k.text = src →
        lex ⟨src, none⟩ = (k.words.map Word.instruction, none)) ∧
      (Utf8.encodeAll k.text ≠ src → ∀ failure,
        lex ⟨src, failure⟩ = (k.closedWords.map Word.instruction, some .invalidUtf8)) ∧
      (Utf8.encodeAll k.text = src → ∀ e,
        lex ⟨src, some e⟩ = (k.closedWords.map Word.instruction, some e)) ∧
      ∀ ending same name, Reader.lex ⟨src, ending, same, name⟩ =
        lex ⟨src, if ending = .endOfInput then none else some ending⟩ := by
  have hdecoded := Utf8.longest_decode src
  refine ⟨⟨.ofText (Utf8.decode src).1, by rwa [Spacing.text_ofText]⟩, ?_⟩
  intro k hlongest
  have hleft := Utf8.first?_decode src
  have hsrc := Utf8.decode_append src
  rw [hdecoded.unique hlongest] at hsrc
  generalize (Utf8.decode src).2 = left at hleft hsrc
  refine ⟨?_, ?_, ?_, ?_⟩
  · intro hwhole
    rw [← hwhole, lex_whole]
  · intro hbroken failure
    have hne : left ≠ [] := by
      rintro rfl
      exact hbroken (by simpa using hsrc)
    rw [← hsrc, lex_broken k hleft hne]
  · intro hwhole e
    rw [← hwhole, lex_failed]
  · intro ending same name
    rw [← hsrc]
    exact Reader.lex_spaced ⟨[], ending, same, name⟩ hleft k

/-- A source that is cut off within a character, and the same source without the bytes of that. -/
theorem lex_splits_cutOff :
    Utf8.Longest (bytes "7 dup x" ++ [0xE2, 0x82]) (bytes "7 dup x") ∧
    Source.lex ⟨bytes "7 dup x" ++ [0xE2, 0x82], none⟩ =
      ([.push 7, { op := .dup }], some .invalidUtf8) ∧
    Source.lex ⟨bytes "7 dup x", none⟩ =
      ([.push 7, { op := .dup }, .ofWord (bytes "x")], none) := by
  have hlongest : ∀ left, Utf8.first? left = none →
      Utf8.Longest (bytes "7 dup x" ++ left) (bytes "7 dup x") := by
    intro left hleft
    have h := Utf8.longest_decode (Utf8.encodeAll "7 dup x".toList ++ left)
    rwa [Utf8.decode_encodeAll_append_of_none hleft] at h
  have hcut := hlongest [0xE2, 0x82] (by decide +kernel)
  have hwhole := hlongest [] Utf8.first?_nil
  rw [List.append_nil] at hwhole
  refine ⟨hcut, ?_, ?_⟩
  · exact ((lex_splits _).2 (.ofText "7 dup x".toList) hcut).2.1 (by decide +kernel) none
  · exact ((lex_splits _).2 (.ofText "7 dup x".toList) hwhole).1 rfl

end WordStack

import WordStack.Source

/-!
# Words and the white space around them

Any text is white space, then words each of which has white space behind it, then what is left
behind the last white space. A `Spacing` is a text given so. Its words are the longest stretches of
the text without white space: behind each of them there is white space or the end.

* `Utf8.longest_decode`: decoding reads the longest beginning that is made of whole characters.
* `Spacing.text_ofText`: every text has a spacing.
* `Source.hasRuns_text`: its words, and what is behind the last white space, are its runs.
* `Source.lex_whole`, `Source.lex_failed`, `Source.lex_broken`: what is read from a source that ends
  normally, in an error, and in bytes that are no character.
-/
namespace WordStack

namespace Utf8

/-- A byte string that is made of whole characters. -/
def Whole (b : Bytes) : Prop := ∃ cs, b = encodeAll cs

/-- The longest beginning of a byte string that is made of whole characters. -/
structure Longest (b v : Bytes) : Prop where
  front : v <+: b
  whole : Whole v
  longest : ∀ u, u <+: b → Whole u → u <+: v

@[simp] theorem encodeAll_nil : encodeAll [] = [] := rfl

@[simp] theorem encodeAll_cons (c : Char) (cs : List Char) :
    encodeAll (c :: cs) = encode c ++ encodeAll cs := rfl

@[simp] theorem encodeAll_append (cs ds : List Char) :
    encodeAll (cs ++ ds) = encodeAll cs ++ encodeAll ds := List.flatMap_append

theorem encode_ne_nil (c : Char) : encode c ≠ [] := by
  intro h
  have := length_encode c
  have := c.utf8Size_pos
  simp_all

/-- The characters at the front are read one by one. -/
theorem decode_encodeAll_append (cs : List Char) (b : Bytes) :
    decode (encodeAll cs ++ b) = (cs ++ (decode b).1, (decode b).2) := by
  induction cs with
  | nil => rfl
  | cons c cs ih =>
    have hfirst : first? (encodeAll (c :: cs) ++ b) = some (c, encodeAll cs ++ b) := by
      simp [first?_eq_some_iff]
    rw [decode]
    split
    · next h => rw [h] at hfirst; cases hfirst
    · next d rest h =>
      rw [hfirst] at h
      cases h
      simp [ih]

/-- Nothing is read behind a text if no character starts there. -/
theorem decode_encodeAll_append_of_none {left : Bytes} (h : first? left = none)
    (cs : List Char) : decode (encodeAll cs ++ left) = (cs, left) := by
  have hleft : decode left = ([], left) := by
    rw [decode]
    split
    · rfl
    · next hsome => rw [h] at hsome; cases hsome
  rw [decode_encodeAll_append, hleft, List.append_nil]

theorem first?_nil : first? [] = none := by
  cases h : first? [] with
  | none => rfl
  | some r => simpa using length_lt_of_first? h

theorem decode_encodeAll (cs : List Char) : decode (encodeAll cs) = (cs, []) := by
  simpa using decode_encodeAll_append_of_none first?_nil cs

/-- What is left starts with no character. -/
theorem first?_decode (b : Bytes) : first? (decode b).2 = none := by
  fun_induction decode b with
  | case1 b h => exact h
  | case2 b c rest h hlt cs left heq ih => rw [heq] at ih; exact ih

theorem longest_decode (b : Bytes) : Longest b (encodeAll (decode b).1) := by
  refine ⟨⟨_, decode_append b⟩, ⟨_, rfl⟩, ?_⟩
  rintro u ⟨rest, rfl⟩ ⟨cs, rfl⟩
  rw [decode_encodeAll_append, encodeAll_append]
  exact List.prefix_append _ _

theorem Longest.unique {b u v : Bytes} (hu : Longest b u) (hv : Longest b v) : u = v :=
  (hv.longest u hu.front hu.whole).eq_of_length_le
    (hu.longest v hv.front hv.whole).length_le

end Utf8

/-- A stretch of white space. -/
structure Gap where
  chars : List Char
  ne_nil : chars ≠ []
  all_space : ∀ c ∈ chars, isSpace c = true

/-- A stretch of characters that are not white space. -/
structure Word where
  chars : List Char
  ne_nil : chars ≠ []
  no_space : ∀ c ∈ chars, isSpace c = false

namespace Word

/-- The bytes of a word. -/
def toBytes (w : Word) : Bytes := Utf8.encodeAll w.chars

/-- The instruction of a word. -/
def instruction (w : Word) : Instruction := .classify w.toBytes

end Word

/-- A text as words and the white space around them. -/
structure Spacing where
  /-- The white space in front of the first word. -/
  lead : Option Gap := none
  /-- The words that have white space behind them, each with that. -/
  closed : List (Word × Gap) := []
  /-- The word behind the last white space. -/
  tail : Option Word := none

namespace Spacing

/-- The characters of the white space in front. -/
def leadChars (k : Spacing) : List Char := k.lead.elim [] Gap.chars

/-- The characters of the word behind the last white space. -/
def tailChars (k : Spacing) : List Char := k.tail.elim [] Word.chars

/-- The text itself. -/
def text (k : Spacing) : List Char :=
  k.leadChars ++ (k.closed.flatMap fun p => p.1.chars ++ p.2.chars) ++ k.tailChars

/-- The words that have white space behind them. -/
def closedWords (k : Spacing) : List Word := k.closed.map Prod.fst

/-- All words. The last one may stand at the end of the text. -/
def words (k : Spacing) : List Word := k.closedWords ++ k.tail.toList

theorem leadChars_isSpace (k : Spacing) : ∀ c ∈ k.leadChars, isSpace c = true := by
  cases h : k.lead with
  | none => simp [leadChars, h]
  | some g => simpa [leadChars, h] using g.all_space

theorem tailChars_not_isSpace (k : Spacing) : ∀ c ∈ k.tailChars, isSpace c = false := by
  cases h : k.tail with
  | none => simp [tailChars, h]
  | some w => simpa [tailChars, h] using w.no_space

/-! ## Every text has a spacing -/

/-- A character in front of a text: it belongs to the white space in front, it is a word of its own
in front of that, or it is the first character of the first word. -/
def cons (c : Char) (k : Spacing) : Spacing :=
  if h : isSpace c = true then
    { k with lead := some ⟨c :: k.leadChars, by simp, by simpa [h] using k.leadChars_isSpace⟩ }
  else
    match k with
    | { lead := some g, closed, tail } =>
      { closed := (⟨[c], by simp, by simpa using h⟩, g) :: closed, tail }
    | { lead := none, closed := (w, g) :: closed, tail } =>
      { closed := (⟨c :: w.chars, by simp, by simpa [h] using w.no_space⟩, g) :: closed, tail }
    | { lead := none, closed := [], tail } =>
      { tail := some ⟨c :: tailChars { tail }, by simp,
          by simpa [h] using tailChars_not_isSpace { tail }⟩ }

/-- The spacing of a text. -/
def ofText (cs : List Char) : Spacing := cs.foldr cons {}

theorem text_cons (c : Char) (k : Spacing) : (k.cons c).text = c :: k.text := by
  unfold cons
  split
  · simp [text, leadChars, tailChars]
  · split <;> simp [text, leadChars, tailChars]

theorem text_ofText (cs : List Char) : (ofText cs).text = cs := by
  induction cs with
  | nil => rfl
  | cons c cs ih => rw [ofText, List.foldr_cons, text_cons]; exact congrArg (c :: ·) ih

end Spacing

/-! ## The runs of a spacing -/

namespace Source

/-- The last run of a text is `last`, and those of the others that are not empty are `filled`. -/
def HasRuns (cs : List Char) (filled : List (List Char)) (last : List Char) : Prop :=
  ∃ rs, runs cs = rs ++ [last] ∧ rs.filter (!·.isEmpty) = filled

variable {c : Char} {cs last : List Char} {filled : List (List Char)}

theorem hasRuns_of_not_isSpace (h : ∀ c ∈ cs, isSpace c = false) : HasRuns cs [] cs :=
  ⟨[], List.splitOnP_eq_singleton h, rfl⟩

/-- White space in front of a text gives empty runs. -/
theorem HasRuns.space {g : List Char} (hg : ∀ c ∈ g, isSpace c = true)
    (h : HasRuns cs filled last) : HasRuns (g ++ cs) filled last := by
  induction g with
  | nil => exact h
  | cons c g ih =>
    simp only [List.mem_cons, forall_eq_or_imp] at hg
    obtain ⟨rs, hrs, hfilled⟩ := ih hg.2
    refine ⟨[] :: rs, ?_, by simpa using hfilled⟩
    rw [runs] at hrs ⊢
    simp [List.splitOnP_cons_eq_if_modifyHead, hg.1, hrs]

/-- A word with white space behind it is a run. -/
theorem HasRuns.word (w : Word) (g : Gap) (h : HasRuns cs filled last) :
    HasRuns (w.chars ++ g.chars ++ cs) (w.chars :: filled) last := by
  obtain ⟨c, gs, hgap⟩ := List.exists_cons_of_ne_nil g.ne_nil
  have hg := g.all_space
  simp only [hgap, List.mem_cons, forall_eq_or_imp] at hg
  obtain ⟨rs, hrs, hfilled⟩ := h.space hg.2
  refine ⟨w.chars :: rs, ?_, ?_⟩
  · rw [runs] at hrs ⊢
    rw [hgap, List.append_assoc, List.cons_append,
      List.splitOnP_append_cons_of_forall_mem w.no_space c hg.1, hrs, List.cons_append]
  · rw [List.filter_cons_of_pos (by simpa using w.ne_nil), hfilled]

theorem hasRuns_text (k : Spacing) :
    HasRuns k.text (k.closedWords.map Word.chars) k.tailChars := by
  have hclosed : ∀ closed : List (Word × Gap),
      HasRuns ((closed.flatMap fun p => p.1.chars ++ p.2.chars) ++ k.tailChars)
        (closed.map (·.1.chars)) k.tailChars := by
    intro closed
    induction closed with
    | nil => exact hasRuns_of_not_isSpace k.tailChars_not_isSpace
    | cons p closed ih => simpa using ih.word p.1 p.2
  rw [Spacing.text, List.append_assoc, Spacing.closedWords, List.map_map]
  exact (hclosed k.closed).space k.leadChars_isSpace

/-- The words among all runs of a text. -/
theorem words_runs (k : Spacing) :
    words (runs k.text) = k.words.map Word.toBytes := by
  obtain ⟨rs, hrs, hfilled⟩ := hasRuns_text k
  rw [words, hrs, List.filter_append, hfilled, Spacing.words]
  cases htail : k.tail with
  | none => simp [Spacing.tailChars, htail, Word.toBytes]
  | some w => simp [Spacing.tailChars, htail, w.ne_nil, Word.toBytes]

/-- The words among all runs of a text but the last. -/
theorem words_dropLast_runs (k : Spacing) :
    words (runs k.text).dropLast = k.closedWords.map Word.toBytes := by
  obtain ⟨rs, hrs, hfilled⟩ := hasRuns_text k
  rw [words, hrs, List.dropLast_concat, hfilled, List.map_map]
  rfl

/-! ## What is read from a source -/

theorem lex_whole (k : Spacing) :
    lex ⟨Utf8.encodeAll k.text, none⟩ = (k.words.map Word.instruction, none) := by
  simp [lex, Utf8.decode_encodeAll, words_runs, Word.instruction]

theorem lex_failed (k : Spacing) (e : Error) :
    lex ⟨Utf8.encodeAll k.text, some e⟩ = (k.closedWords.map Word.instruction, some e) := by
  simp [lex, Utf8.decode_encodeAll, words_dropLast_runs, Word.instruction]

theorem lex_broken (k : Spacing) {left : Bytes} (hleft : Utf8.first? left = none)
    (hne : left ≠ []) (failure : Option Error) :
    lex ⟨Utf8.encodeAll k.text ++ left, failure⟩ =
      (k.closedWords.map Word.instruction, some .invalidUtf8) := by
  have h := Utf8.decode_encodeAll_append_of_none hleft k.text
  simp [lex, h, hne, words_dropLast_runs, Word.instruction]

end Source

end WordStack

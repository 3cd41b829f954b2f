import Mathlib.Data.Nat.Digits.Defs
import WordStack.Proofs.Text.Numeral

/-!
# Instructions and the words they are written as

Every instruction that is read from a source is canonical: it pushes a number, it is the operation of
a reserved word and carries nothing, or it keeps a word that is neither a numeral in the range of 32
bits nor reserved. A canonical instruction is written as one word, its token, and reading that word
gives the instruction back. The three kinds of words overlap only in their spelling: `+` and `-` are
reserved, `+1` and `-1` are numerals, and `+-1` is neither.

* `Decimal.Numeral`: the form of a numeral. `Decimal.readInt32?_eq_some_iff`: numerals in the range
  of 32 bits are what is read as numbers.
* `Instruction.Canonical`, `Instruction.token`: what is read from sources, and how it is written.
* `Word.canonical_instruction`, `Instruction.Canonical.exists_word`: words and canonical
  instructions stand for each other.
* `lex_canonical`: so do sources and lists of canonical instructions.
-/
namespace WordStack

/-! ## Numerals -/

namespace Decimal

/-- One or more ASCII digits. -/
structure Digits where
  digits : Bytes
  ne_nil : digits ≠ []
  all_digit : ∀ d ∈ digits, 48 ≤ d ∧ d ≤ 57

/-- The number that digits stand for in base ten, the last of them for the ones. -/
def Digits.number (ds : Digits) : Nat := Nat.ofDigits 10 (ds.digits.map (·.toNat - 48)).reverse

/-- A byte string is a numeral with a value: digits behind at most one sign. -/
inductive Numeral : Bytes → Int → Prop
  | plain (ds : Digits) : Numeral ds.digits ds.number
  | plus (ds : Digits) : Numeral (43 :: ds.digits) ds.number
  | minus (ds : Digits) : Numeral (45 :: ds.digits) (-ds.number)

/-- Reading digits from the left adds up their places. -/
theorem value_eq_ofDigits (digits : Bytes) (start : Nat) :
    value start digits =
      Nat.ofDigits 10 (digits.map (·.toNat - 48)).reverse + 10 ^ digits.length * start := by
  induction digits generalizing start with
  | nil => simp [value]
  | cons d digits ih =>
    have hstep : value start (d :: digits) = value (10 * start + (d.toNat - 48)) digits := rfl
    rw [hstep, ih, List.map_cons, Nat.ofDigits_reverse_cons, List.length_map, List.length_cons,
      Nat.pow_succ]
    ring

theorem Digits.readNat? (ds : Digits) : readNat? ds.digits = some ds.number := by
  have hall : ds.digits.all isDigit = true := by
    simpa [isDigit] using ds.all_digit
  simp [Decimal.readNat?, ds.ne_nil, hall, value_eq_ofDigits, number]

theorem exists_digits {b : Bytes} {n : Nat} (h : readNat? b = some n) :
    ∃ ds : Digits, ds.digits = b ∧ ds.number = n := by
  unfold Decimal.readNat? at h
  split at h
  · next hb =>
    simp only [Bool.and_eq_true, Bool.not_eq_true', List.isEmpty_eq_false_iff, List.all_eq_true,
      isDigit, decide_eq_true_eq] at hb
    cases h
    refine ⟨⟨b, hb.1, hb.2⟩, rfl, ?_⟩
    simp [Digits.number, value_eq_ofDigits]
  · cases h

theorem Numeral.readInt? {b : Bytes} {n : Int} (h : Numeral b n) : readInt? b = some n := by
  cases h with
  | plain ds =>
    have hread := ds.readNat?
    obtain ⟨d, rest, hds⟩ := List.exists_cons_of_ne_nil ds.ne_nil
    have hdigit : isDigit d = true := by
      simpa [isDigit] using ds.all_digit d (by rw [hds]; exact List.mem_cons_self)
    rw [hds] at hread ⊢
    rw [readInt?_of_isDigit hdigit, hread]
    rfl
  | plus ds => simp [Decimal.readInt?, ds.readNat?]
  | minus ds => simp [Decimal.readInt?, ds.readNat?]

theorem readInt?_eq_some_iff {b : Bytes} {n : Int} : readInt? b = some n ↔ Numeral b n := by
  refine ⟨fun h => ?_, Numeral.readInt?⟩
  -- the value of the digits behind the sign, if there is one
  have hdigits : ∀ {rest : Bytes} {f : Int → Int},
      ((readNat? rest).bind fun m => some (f m)) = some n →
      ∃ ds : Digits, ds.digits = rest ∧ f ds.number = n := by
    intro rest f hrest
    obtain ⟨m, hm, hn⟩ := Option.bind_eq_some_iff.mp hrest
    obtain ⟨ds, hds, rfl⟩ := exists_digits hm
    exact ⟨ds, hds, Option.some.inj hn⟩
  unfold Decimal.readInt? at h
  split at h
  · cases h
  · next d rest =>
    split at h
    · next hminus =>
      obtain ⟨ds, rfl, rfl⟩ := hdigits (f := fun m => -m) (by simpa using h)
      rw [hminus]
      exact .minus ds
    split at h
    · next hplus =>
      obtain ⟨ds, rfl, rfl⟩ := hdigits (f := id) (by simpa using h)
      rw [hplus]
      exact .plus ds
    · obtain ⟨ds, hds, rfl⟩ := hdigits (f := id) (by simpa using h)
      rw [← hds]
      exact .plain ds

/-- A numeral is read if its value is that of a number of 32 bits. -/
theorem readInt32?_eq_some_iff {b : Bytes} {n : Int32} :
    readInt32? b = some n ↔ Numeral b n.toInt := by
  rw [← readInt?_eq_some_iff, readInt32?, Option.bind_eq_some_iff]
  constructor
  · rintro ⟨v, hv, h⟩
    split at h
    · next hrange =>
      cases h
      simp only [int32Range] at hrange
      rw [hv, Int32.toInt_ofInt_of_le (by omega) (by omega)]
    · cases h
  · intro h
    have hlo := n.le_toInt
    have hhi := n.toInt_lt
    have hrange : int32Range.1 ≤ n.toInt ∧ n.toInt ≤ int32Range.2 := by
      simp only [int32Range]
      omega
    exact ⟨n.toInt, h, by rw [if_pos hrange, Int32.ofInt_toInt]⟩

end Decimal

/-! ## Instructions -/

theorem Op.keyword?_of_ofKeyword? {w : Bytes} {op : Op} (h : ofKeyword? w = some op) :
    op.keyword? = some w := by
  simpa using List.find?_some h

namespace Instruction

/-- An instruction that can be read from a source. -/
inductive Canonical : Instruction → Prop
  | push (n : Int32) : Canonical (.push n)
  | keyword {op : Op} {k : Bytes} (h : op.keyword? = some k) : Canonical { op }
  /-- Any other word. -/
  | word (w : Word) (hreserved : ∀ op : Op, op.keyword? ≠ some w.toBytes)
      (hnumeral : ∀ n : Int32, ¬ Decimal.Numeral w.toBytes n.toInt) : Canonical (.ofWord w.toBytes)

/-- The word that an instruction is written as. -/
def token (i : Instruction) : Bytes :=
  match i.op with
  | .push => Decimal.ofInt i.int.toInt
  | .word => i.word
  | op => op.keyword?.getD []

/-- Exactly the numerals in the range of 32 bits push a number. -/
theorem classify_eq_push_iff {b : Bytes} {n : Int32} :
    classify b = .push n ↔ Decimal.Numeral b n.toInt := by
  rw [← Decimal.readInt32?_eq_some_iff]
  unfold classify
  split
  · next m hm => simp [hm, push]
  · next hm =>
    split
    · next op hop =>
      have hkeyword := Op.keyword?_of_ofKeyword? hop
      simp only [hm, push, Instruction.mk.injEq, reduceCtorEq, iff_false]
      rintro ⟨rfl, -, -⟩
      cases hkeyword
    · simp [hm, push, ofWord]

theorem classify_keyword {op : Op} {k : Bytes} (h : op.keyword? = some k) :
    classify k = { op } := by
  have hread : Decimal.readInt32? k = none := by
    cases op <;> simp only [Op.keyword?, Option.some.injEq, reduceCtorEq] at h <;> subst h <;>
      decide +kernel
  simp only [classify, hread, Op.ofKeyword?_keyword? h]

end Instruction

namespace Word

theorem canonical_instruction (w : Word) : w.instruction.Canonical := by
  unfold instruction Instruction.classify
  split
  · next n hn => exact .push n
  · next hnone =>
    split
    · next op hop => exact .keyword (Op.keyword?_of_ofKeyword? hop)
    · next hop =>
      refine .word w (fun op hkeyword => ?_) fun n hn => ?_
      · rw [Op.ofKeyword?_keyword? hkeyword] at hop
        cases hop
      · rw [Decimal.readInt32?_eq_some_iff.mpr hn] at hnone
        cases hnone

/-- A text in which a check finds no white space. -/
def ofText (t : String) (hne : t.toList ≠ []) (hspace : (t.toList.all fun c => !isSpace c) = true) :
    Word :=
  ⟨t.toList, hne, by simpa using hspace⟩

/-- Reserved words are words. -/
theorem exists_keyword {op : Op} {k : Bytes} (h : op.keyword? = some k) :
    ∃ w : Word, w.toBytes = k := by
  have hword : ∀ t : String, t.toList ≠ [] → (t.toList.all fun c => !isSpace c) = true →
      Utf8.encodeAll t.toList = bytes t → ∃ w : Word, w.toBytes = bytes t :=
    fun t hne hspace htext => ⟨ofText t hne hspace, htext⟩
  cases op <;> simp only [Op.keyword?, Option.some.injEq, reduceCtorEq] at h <;> subst h <;>
    exact hword _ (by decide) (by decide) (by decide +kernel)

end Word

/-- A canonical instruction is written as a word, and that word is read as the instruction. -/
theorem Instruction.Canonical.exists_word {i : Instruction} (h : i.Canonical) :
    ∃ w : Word, w.toBytes = i.token ∧ w.instruction = i := by
  cases h with
  | push n => exact ⟨.numeral n, Word.toBytes_numeral n, Word.instruction_numeral n⟩
  | @keyword op k hk =>
    obtain ⟨w, hw⟩ := Word.exists_keyword hk
    refine ⟨w, ?_, ?_⟩
    · rw [hw]
      cases op <;> cases hk <;> rfl
    · rw [Word.instruction, hw]
      exact classify_keyword hk
  | word w hreserved hnumeral =>
    refine ⟨w, rfl, ?_⟩
    have hread : Decimal.readInt32? w.toBytes = none := by
      cases hread : Decimal.readInt32? w.toBytes with
      | none => rfl
      | some n => exact absurd (Decimal.readInt32?_eq_some_iff.mp hread) (hnumeral n)
    have hop : Op.ofKeyword? w.toBytes = none := by
      cases hop : Op.ofKeyword? w.toBytes with
      | none => rfl
      | some op => exact absurd (Op.keyword?_of_ofKeyword? hop) (hreserved op)
    simp only [Word.instruction, classify, hread, hop]

theorem Instruction.Canonical.classify_token {i : Instruction} (h : i.Canonical) :
    classify i.token = i := by
  obtain ⟨w, hw, hi⟩ := h.exists_word
  rw [← hw]
  exact hi

/-! ## Sources -/

/-- Some words with a space behind each. -/
def Spacing.ofWords (ws : List Word) : Spacing :=
  { closed := ws.map fun w => (w, ⟨[' '], by simp, List.forall_mem_singleton.mpr rfl⟩) }

theorem Spacing.words_ofWords (ws : List Word) : (ofWords ws).words = ws := by
  simp [words, closedWords, ofWords, Function.comp_def]

/-- The words of a source are all that is read from it. -/
theorem Source.exists_word_of_lex {source : Source} {i : Instruction} (h : i ∈ source.lex.1) :
    ∃ w : Word, w.instruction = i := by
  obtain ⟨content, failure⟩ := source
  have hcontent := Utf8.decode_append content
  have hleft := Utf8.first?_decode content
  rw [← Spacing.text_ofText (Utf8.decode content).1] at hcontent
  generalize Spacing.ofText (Utf8.decode content).1 = k at hcontent
  generalize (Utf8.decode content).2 = left at hcontent hleft
  rw [← hcontent] at h
  have hmem : i ∈ k.words.map Word.instruction ∨ i ∈ k.closedWords.map Word.instruction := by
    by_cases hne : left = []
    · subst hne
      rw [List.append_nil] at h
      cases failure with
      | none => rw [lex_whole] at h; exact .inl h
      | some e => rw [lex_failed] at h; exact .inr h
    · rw [lex_broken k hleft hne] at h
      exact .inr h
  rcases hmem with hmem | hmem
  · obtain ⟨w, -, hw⟩ := List.mem_map.mp hmem
    exact ⟨w, hw⟩
  · obtain ⟨w, -, hw⟩ := List.mem_map.mp hmem
    exact ⟨w, hw⟩

/-- **What is read is canonical, and reading undoes writing.** Every instruction read from a source,
however that ends, is canonical. Canonical instructions can be written as words, and whatever white
space stands between and around these, the text is read as the instructions again. A word alone
pushes a number exactly if it is digits behind at most one sign, and the number is their value. -/
theorem lex_canonical :
    (∀ (source : Source), ∀ i ∈ source.lex.1, i.Canonical) ∧
    (∀ code : List Instruction, (∀ i ∈ code, i.Canonical) →
      (∃ k : Spacing, k.words.map Word.toBytes = code.map Instruction.token) ∧
      ∀ k : Spacing, k.words.map Word.toBytes = code.map Instruction.token →
        Source.lex ⟨Utf8.encodeAll k.text, none⟩ = (code, none)) ∧
    ∀ (w : Word) (n : Int32), Source.lex ⟨w.toBytes, none⟩ = ([.push n], none) ↔
      Decimal.Numeral w.toBytes n.toInt := by
  refine ⟨?_, ?_, ?_⟩
  · intro source i hi
    obtain ⟨w, rfl⟩ := Source.exists_word_of_lex hi
    exact w.canonical_instruction
  · intro code hcode
    refine ⟨?_, fun k hk => ?_⟩
    · have hwords : ∃ ws : List Word, ws.map Word.toBytes = code.map Instruction.token := by
        induction code with
        | nil => exact ⟨[], rfl⟩
        | cons i code ih =>
          simp only [List.mem_cons, forall_eq_or_imp] at hcode
          obtain ⟨ws, hws⟩ := ih hcode.2
          obtain ⟨w, hw, -⟩ := hcode.1.exists_word
          exact ⟨w :: ws, by rw [List.map_cons, List.map_cons, hw, hws]⟩
      obtain ⟨ws, hws⟩ := hwords
      exact ⟨.ofWords ws, by rw [Spacing.words_ofWords, hws]⟩
    · have hread : k.words.map Word.instruction = code := by
        calc k.words.map Word.instruction
            _ = (k.words.map Word.toBytes).map Instruction.classify := by rw [List.map_map]; rfl
            _ = (code.map Instruction.token).map Instruction.classify := by rw [hk]
            _ = code := by
              rw [List.map_map]
              exact (List.map_congr_left fun i hi => (hcode i hi).classify_token).trans code.map_id
      rw [Source.lex_whole, hread]
  · intro w n
    have hword : Source.lex ⟨w.toBytes, none⟩ = ([w.instruction], none) :=
      Source.lex_whole { tail := some w }
    rw [hword, ← Instruction.classify_eq_push_iff]
    simp [Word.instruction]

/-- The code `-5 - +-1 2147483648`: a number, an operator, and two words that only look like
numbers. -/
def Instruction.signs : List Instruction :=
  [.push (-5), { op := .sub }, .ofWord (bytes "+-1"), .ofWord (bytes "2147483648")]

theorem lex_canonical_signs :
    (∀ i ∈ Instruction.signs, i.Canonical) ∧
    Source.lex ⟨bytes "\u3000-5\t- +-1\n\n2147483648 ", none⟩ = (Instruction.signs, none) ∧
    Decimal.Numeral (bytes "+007") 7 ∧ Source.lex ⟨bytes "+007", none⟩ = ([.push 7], none) := by
  have hread : Source.lex ⟨bytes "-5 - +-1 2147483648", none⟩ = (Instruction.signs, none) :=
    Source.lex_whole (.ofText "-5 - +-1 2147483648".toList)
  have hcanonical : ∀ i ∈ Instruction.signs, i.Canonical := by
    have := lex_canonical.1 ⟨bytes "-5 - +-1 2147483648", none⟩
    rwa [hread] at this
  have hseven : Decimal.Numeral (bytes "+007") 7 :=
    .plus ⟨bytes "007", by decide +kernel, by decide +kernel⟩
  refine ⟨hcanonical, ?_, hseven, ?_⟩
  · exact (lex_canonical.2.1 _ hcanonical).2 (.ofText "\u3000-5\t- +-1\n\n2147483648 ".toList)
      (by decide +kernel)
  · exact (lex_canonical.2.2 (.ofText "+007" (by decide) (by decide)) 7).mpr hseven

end WordStack

import WordStack.Host.LineSplitter

/-!
# Lines do not depend on how output is cut into pieces

A line splitter sees output in pieces whose ends have nothing to do with the ends of lines. What it
gives on is nevertheless decided by the bytes alone: `cutLines` reads a whole text byte by byte, and
`Reference` only puts the bytes since the last close together. The splitter agrees with the reference
after every sequence of calls, so that two ways of cutting one text give the same lines.

* `inLines_cutLines`, `InLines.eq_cutLines`: the lines of a text, and that there is one way to give them.
* `cutLines_append`: the text behind the last line feed is all that matters for what comes later.
* `LineSplitter.call_agrees`, `callAll_agrees`: one call and a sequence of calls against the reference.
* `joinWith_closedLines`: the lines of a closed text, joined, are the text.
* `LineSplitter.lines_independent_of_cutting`: all of it about sequences of calls.
-/
namespace WordStack

/-! ## The lines of a text -/

/-- The lines of a text, read byte by byte, and the text behind the last line feed. -/
def cutLines : Bytes → List Bytes × Bytes
  | [] => ([], [])
  | b :: text =>
    let (whole, rest) := cutLines text
    if b = lineFeed then ([] :: whole, rest)
    else
      match whole with
      | [] => ([], b :: rest)
      | first :: whole => ((b :: first) :: whole, rest)

/-- A text is made of lines that end in line feeds and a rest, and there is no other line feed. -/
structure InLines (text : Bytes) (whole : List Bytes) (rest : Bytes) : Prop where
  text_eq : text = whole.flatMap (· ++ [lineFeed]) ++ rest
  whole_plain : ∀ line ∈ whole, lineFeed ∉ line
  rest_plain : lineFeed ∉ rest

/-- The lines that a text comes to when nothing more follows. -/
def closedLines (text : Bytes) : List Bytes :=
  (cutLines text).1 ++ if (cutLines text).2 = [] then [] else [(cutLines text).2]

theorem cutLines_lineFeed (text : Bytes) :
    cutLines (lineFeed :: text) = ([] :: (cutLines text).1, (cutLines text).2) := by
  simp [cutLines]

/-- Text without a line feed goes in front of the first line, or of the rest if there is no line. -/
theorem cutLines_plain_append {front : Bytes} (hfront : lineFeed ∉ front) (text : Bytes) :
    cutLines (front ++ text) = match (cutLines text).1 with
      | [] => ([], front ++ (cutLines text).2)
      | first :: whole => ((front ++ first) :: whole, (cutLines text).2) := by
  induction front with
  | nil => cases h : (cutLines text).1 <;> simp [← h]
  | cons b front ih =>
    have hb : b ≠ lineFeed := fun h => hfront (by simp [h])
    have hplain : lineFeed ∉ front := fun h => hfront (by simp [h])
    rw [List.cons_append, cutLines, ih hplain]
    cases h : (cutLines text).1 <;> simp [hb]

theorem inLines_cutLines (text : Bytes) : InLines text (cutLines text).1 (cutLines text).2 := by
  induction text with
  | nil => exact ⟨rfl, by simp [cutLines], by simp [cutLines]⟩
  | cons b text ih =>
    by_cases hb : b = lineFeed
    · subst hb
      rw [cutLines_lineFeed]
      refine ⟨?_, ?_, ih.rest_plain⟩
      · simpa using ih.text_eq
      · simpa using ih.whole_plain
    · have hplain : lineFeed ∉ [b] := by simpa using Ne.symm hb
      have h := cutLines_plain_append hplain text
      rw [List.singleton_append] at h
      obtain ⟨htext, hwhole, hrest⟩ := ih
      rw [h]
      cases hc : (cutLines text).1 with
      | nil =>
        rw [hc] at htext
        refine ⟨by simpa using htext, by simp, ?_⟩
        simpa using ⟨Ne.symm hb, hrest⟩
      | cons first whole =>
        rw [hc] at htext hwhole
        refine ⟨by simpa using htext, ?_, hrest⟩
        intro line hline
        rcases List.mem_cons.1 hline with rfl | hmem
        · simpa using ⟨Ne.symm hb, hwhole first (by simp)⟩
        · exact hwhole line (by simp [hmem])

/-- There is one way to read a text as lines and a rest. -/
theorem InLines.eq_cutLines {text rest : Bytes} {whole : List Bytes} (h : InLines text whole rest) :
    cutLines text = (whole, rest) := by
  obtain ⟨rfl, hwhole, hrest⟩ := h
  induction whole with
  | nil => simpa [cutLines] using cutLines_plain_append hrest []
  | cons line whole ih =>
    have hline : lineFeed ∉ line := hwhole line (by simp)
    have hplain : ∀ l ∈ whole, lineFeed ∉ l := fun l hl => hwhole l (by simp [hl])
    rw [List.flatMap_cons, List.append_assoc, List.append_assoc, List.singleton_append,
      cutLines_plain_append hline, cutLines_lineFeed, ih hplain]
    simp

/-- The lines of a longer text are those of its beginning, and those of what is left behind them. -/
theorem cutLines_append (text more : Bytes) :
    cutLines (text ++ more) = ((cutLines text).1 ++ (cutLines ((cutLines text).2 ++ more)).1,
      (cutLines ((cutLines text).2 ++ more)).2) := by
  obtain ⟨htext, hwhole, -⟩ := inLines_cutLines text
  obtain ⟨hmore, hlater, hrest⟩ := inLines_cutLines ((cutLines text).2 ++ more)
  refine InLines.eq_cutLines ⟨?_, ?_, hrest⟩
  · calc text ++ more
        = (cutLines text).1.flatMap (· ++ [lineFeed]) ++ ((cutLines text).2 ++ more) := by
          rw [← List.append_assoc, ← htext]
      _ = _ := by
          rw [List.flatMap_append, List.append_assoc, ← hmore]
  · intro line hline
    rcases List.mem_append.1 hline with h | h
    · exact hwhole line h
    · exact hlater line h

/-! ## Lines put together again -/

theorem joinWith_append_singleton (separator last : Bytes) (members : List Bytes) :
    joinWith separator (members ++ [last]) = members.flatMap (· ++ separator) ++ last := by
  induction members with
  | nil => rfl
  | cons member members ih =>
    cases members with
    | nil => simp [joinWith]
    | cons next members => simpa [joinWith] using ih

/-- A text is its lines, joined, and once more a line feed if the text ends in one. -/
theorem joinWith_closedLines (text : Bytes) :
    joinWith [lineFeed] (closedLines text) ++
      (if text.getLast? = some lineFeed then [lineFeed] else []) = text := by
  obtain ⟨htext, -, hplain⟩ := inLines_cutLines text
  unfold closedLines
  generalize (cutLines text).1 = whole at htext
  generalize (cutLines text).2 = rest at htext hplain
  subst htext
  rcases List.eq_nil_or_concat rest with rfl | ⟨front, last, rfl⟩
  · rcases List.eq_nil_or_concat whole with rfl | ⟨before, line, rfl⟩
    · rfl
    · simp [joinWith_append_singleton]
  · have hlast : last ≠ lineFeed := fun h => hplain (by simp [h])
    simp [joinWith_append_singleton, hlast, ← List.append_assoc]

namespace LineSplitter

/-! ## The reference -/

/-- What a reference knows that sees the same calls: the lines of the texts that were closed, and
all bytes written since. -/
structure Reference where
  closed : List Bytes := []
  text : Bytes := []

namespace Reference

/-- The reference after one more call. -/
def after (r : Reference) : Call → Reference
  | .write piece => { r with text := r.text ++ piece }
  | .close => { closed := r.closed ++ closedLines r.text }

/-- The lines that the reference has logged. -/
def logged (r : Reference) : List Bytes := r.closed ++ (cutLines r.text).1

/-- The text that the reference holds. -/
def held (r : Reference) : Bytes := (cutLines r.text).2

end Reference

/-! ## One call -/

/-- The pieces between line feeds are the lines and the rest. -/
theorem lines_eq_cutLines (text : Bytes) : lines text = (cutLines text).1 ++ [(cutLines text).2] := by
  unfold lines
  induction text with
  | nil => rfl
  | cons b text ih =>
    rw [List.splitOnP_cons_eq_if_modifyHead, ih, cutLines]
    by_cases hb : b = lineFeed
    · simp [hb]
    · cases h : (cutLines text).1 <;> simp [hb, h]

theorem write_eq_cutLines {s : LineSplitter} (hs : lineFeed ∉ s.held) (piece : Bytes) :
    s.write piece = ((cutLines (s.held ++ piece)).1, ⟨(cutLines (s.held ++ piece)).2⟩) := by
  unfold write
  rw [lines_eq_cutLines, cutLines_plain_append hs]
  cases h : (cutLines piece).1 with
  | nil => simp
  | cons first whole =>
    have hconcat : (s.held ++ first) :: (whole ++ [(cutLines piece).2]) =
        ((s.held ++ first) :: whole) ++ [(cutLines piece).2] := rfl
    dsimp only [List.cons_append]
    rw [hconcat, List.dropLast_concat, List.getLast?_concat, Option.getD_some]

/-- What is held by a splitter that agrees with the reference has no line feed. -/
theorem held_plain (r : Reference) : lineFeed ∉ r.held := (inLines_cutLines r.text).rest_plain

/-- A call keeps the agreement: the lines that it gives on are those by which the reference grows. -/
theorem call_agrees {s : LineSplitter} {r : Reference} (hheld : s.held = r.held) (c : Call) :
    (r.after c).logged = r.logged ++ (s.call c).1.lines ∧ (s.call c).2.held = (r.after c).held := by
  have hplain : lineFeed ∉ s.held := hheld ▸ held_plain r
  cases c with
  | write piece =>
    simp only [call, write_eq_cutLines hplain, hheld, Reference.held, Reference.after,
      Reference.logged, cutLines_append r.text piece, List.append_assoc, and_self]
  | close =>
    by_cases h : (cutLines r.text).2 = [] <;>
      simp [call, close, hheld, Reference.held, Reference.after, Reference.logged, closedLines, h,
        cutLines]

/-! ## Sequences of calls -/

/-- All lines given on in the replies to calls. -/
def given (replies : List Reply) : List Bytes := replies.flatMap (·.lines)

/-- A sequence of calls keeps the agreement, by induction on the calls. -/
theorem callAll_agrees {s : LineSplitter} {r : Reference} (hheld : s.held = r.held)
    (calls : List Call) :
    (calls.foldl Reference.after r).logged = r.logged ++ given (s.callAll calls).1 ∧
      (s.callAll calls).2.held = (calls.foldl Reference.after r).held := by
  induction calls generalizing s r with
  | nil => exact ⟨by simp [callAll, given], hheld⟩
  | cons c calls ih =>
    obtain ⟨hlines, hheld'⟩ := call_agrees hheld c
    obtain ⟨hlater, hlast⟩ := ih hheld'
    refine ⟨?_, hlast⟩
    rw [List.foldl_cons, hlater, hlines]
    simp [callAll, given]

/-- The reference after some writes has only put the pieces together. -/
theorem foldl_after_writes (r : Reference) (pieces : List Bytes) :
    (pieces.map Call.write).foldl Reference.after r = { r with text := r.text ++ pieces.flatten } := by
  induction pieces generalizing r with
  | nil => simp
  | cons piece pieces ih => simp [ih, Reference.after]

/-- The lines of a text that is written in pieces and then closed. -/
theorem given_pieces (pieces : List Bytes) :
    given (callAll {} (pieces.map .write ++ [.close])).1 = closedLines pieces.flatten := by
  have h := (callAll_agrees (s := {}) (r := {}) rfl (pieces.map .write ++ [.close])).1
  rw [List.foldl_append, foldl_after_writes] at h
  simpa [Reference.after, Reference.logged, cutLines] using h.symm

/-- A line splitter takes every piece whole, and after any calls it has given on and holds what the
reference has logged and holds, where the lines and the rest of a text are the only ones there are.
So the lines do not depend on how a text is cut into pieces before it is closed, and joined with line
feeds they are the text. -/
theorem lines_independent_of_cutting :
    (∀ (before : List Call) (piece : Bytes),
      ((callAll {} before).2.call (.write piece)).1.wrote = ⟨piece.length, none⟩) ∧
    (∀ calls : List Call, given (callAll {} calls).1 = (calls.foldl Reference.after {}).logged ∧
      (callAll {} calls).2.held = (calls.foldl Reference.after {}).held) ∧
    (∀ (text : Bytes) (whole : List Bytes) (rest : Bytes),
      cutLines text = (whole, rest) ↔ InLines text whole rest) ∧
    (∀ pieces others : List Bytes, pieces.flatten = others.flatten →
      given (callAll {} (pieces.map .write ++ [.close])).1 =
        given (callAll {} (others.map .write ++ [.close])).1) ∧
    ∀ pieces : List Bytes,
      joinWith [lineFeed] (given (callAll {} (pieces.map .write ++ [.close])).1) ++
        (if pieces.flatten.getLast? = some lineFeed then [lineFeed] else []) = pieces.flatten := by
  refine ⟨fun _ _ => rfl, fun calls => ?_, fun text whole rest => ?_, fun pieces others h => ?_,
    fun pieces => ?_⟩
  · obtain ⟨hlines, hheld⟩ := callAll_agrees (s := {}) (r := {}) rfl calls
    exact ⟨by simpa [Reference.logged, cutLines] using hlines.symm, hheld⟩
  · refine ⟨fun h => ?_, InLines.eq_cutLines⟩
    simpa [h] using inLines_cutLines text
  · rw [given_pieces, given_pieces, h]
  · rw [given_pieces]
    exact joinWith_closedLines pieces.flatten

/-- Text with an empty line and no line feed at its end, cut inside a line and at a line feed. -/
theorem lines_independent_of_cutting_blank :
    given (callAll {} ([bytes "ab", bytes "c\n\nd"].map .write ++ [.close])).1 =
      given (callAll {} ([bytes "abc\n", [], bytes "\n", bytes "d"].map .write ++ [.close])).1 ∧
    given (callAll {} ([bytes "ab", bytes "c\n\nd"].map .write ++ [.close])).1 =
      [bytes "abc", [], bytes "d"] :=
  ⟨lines_independent_of_cutting.2.2.2.1 _ _ (by decide), by decide⟩

end LineSplitter

end WordStack

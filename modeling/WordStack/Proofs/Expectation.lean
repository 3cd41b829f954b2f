import Mathlib.Data.List.TakeWhile
import WordStack.Expectation
import WordStack.Proofs.Text.Pieces

/-!
# What is found in a source of builders

A source is read line by line. A line is that of a builder method if it begins as such a method
does: with a name made of letters, digits and underscores, and with parameters that end where
`) vmTestCase` first stands, so that parentheses in their types do not end them. `Method` is such a
line in its parts, and `Extracts` says which expectations the lines of a source give.

`Parameter` is a parameter with or without a type. Where the parameters of a method are a list of
such, their names in order are the arguments, with dots behind those whose type begins with dots.

* `before?_eq_some_iff`: a text is cut at the first place where a pattern stands.
* `ofLine?_eq_some_iff`: the lines of methods are found, and only those.
* `fields_spaced`, `fields_append_space`: a text falls into fields at its blanks.
* `forward_declared`: the arguments that forward a list of parameters.
* `scan_extracts`: all of a source whose lines are short enough.
-/
namespace WordStack

namespace Expectation

/-! ## The line of a method -/

/-- How the line of a method begins. -/
def opening : Bytes := bytes "func (vmt vmTestCase) expect"

/-- What ends the parameters of a method. -/
def closing : Bytes := bytes ") vmTestCase"

/-- A line that declares a method, in its parts. -/
structure Method where
  /-- The name behind `expect`. -/
  name : Bytes
  /-- The parameters as they are declared. -/
  params : Bytes
  /-- What stands on the line behind the declared type. -/
  behind : Bytes
  name_ne_nil : name ≠ []
  name_word : ∀ b ∈ name, isWordByte b = true
  /-- The parameters go up to the first place where they can end. -/
  params_first : ∀ early late, early ++ closing ++ late = params ++ closing → early = params

/-- The line itself. -/
def Method.line (m : Method) : Bytes :=
  opening ++ (m.name ++ (bytes "(" ++ (m.params ++ closing ++ m.behind)))

/-- What lines declare: one expectation in order for each line of a method, none for any other. -/
inductive Extracts : List Bytes → List Expectation → Prop where
  | nil : Extracts [] []
  | method (m : Method) {e : Expectation} {ls : List Bytes} {es : List Expectation}
      (hname : e.name = m.name) (hparams : e.params = m.params) (later : Extracts ls es) :
      Extracts (m.line :: ls) (e :: es)
  | other {line : Bytes} {ls : List Bytes} {es : List Expectation}
      (h : ∀ m : Method, m.line ≠ line) (later : Extracts ls es) : Extracts (line :: ls) es

/-- A text holds a pattern first behind `front`. -/
structure FirstBehind (pattern b front : Bytes) : Prop where
  here : ∃ rest, b = front ++ pattern ++ rest
  first : ∀ early late, early ++ pattern ++ late = front ++ pattern → early = front

variable {pattern b front : Bytes}

theorem firstBehind_of_begins (h : pattern <+: b) : FirstBehind pattern b front ↔ front = [] := by
  constructor
  · rintro ⟨⟨rest, hb⟩, hfirst⟩
    have hfront : pattern <+: front ++ pattern :=
      List.prefix_of_prefix_length_le h ⟨rest, hb.symm⟩ (by simp)
    obtain ⟨late, hlate⟩ := hfront
    exact (hfirst [] late hlate).symm
  · rintro rfl
    obtain ⟨rest, hrest⟩ := h
    refine ⟨⟨rest, hrest.symm⟩, fun early late heq => ?_⟩
    have hlength := congrArg List.length heq
    simp only [List.length_append, List.length_nil] at hlength
    exact List.eq_nil_of_length_eq_zero (by omega)

theorem firstBehind_cons {x : UInt8} (h : ¬ pattern <+: x :: b) :
    FirstBehind pattern (x :: b) front ↔ ∃ f, FirstBehind pattern b f ∧ x :: f = front := by
  constructor
  · rintro ⟨⟨rest, hb⟩, hfirst⟩
    cases front with
    | nil => exact absurd ⟨rest, hb.symm⟩ h
    | cons y f =>
      obtain ⟨rfl, htail⟩ := List.cons.inj hb
      refine ⟨f, ⟨⟨rest, htail⟩, fun early late heq => ?_⟩, rfl⟩
      exact (List.cons.inj (hfirst (x :: early) late (congrArg (x :: ·) heq))).2
  · rintro ⟨f, ⟨⟨rest, rfl⟩, hfirst⟩, rfl⟩
    refine ⟨⟨rest, rfl⟩, fun early late heq => ?_⟩
    cases early with
    | nil => exact absurd ⟨late ++ rest, by simpa using congrArg (· ++ rest) heq⟩ h
    | cons y early =>
      obtain ⟨rfl, htail⟩ := List.cons.inj heq
      rw [hfirst early late htail]

theorem before?_eq_some_iff : before? pattern b = some front ↔ FirstBehind pattern b front := by
  induction b generalizing front with
  | nil =>
    cases pattern with
    | nil => simp [before?, firstBehind_of_begins, eq_comm]
    | cons x pattern =>
      have hno : ¬ FirstBehind (x :: pattern) [] front := fun h => by simpa using h.here
      simpa [before?] using hno
  | cons x b ih =>
    rw [before?]
    split
    · next h => rw [firstBehind_of_begins (List.isPrefixOf_iff_prefix.1 h)]; simp [eq_comm]
    · next h =>
      rw [firstBehind_cons (mt List.isPrefixOf_iff_prefix.2 h), Option.map_eq_some_iff]
      simp only [ih]

/-- The name of a method ends at the parenthesis behind it. -/
theorem Method.takeWhile_name (m : Method) (b : Bytes) :
    (m.name ++ (bytes "(" ++ b)).takeWhile isWordByte = m.name := by
  rw [List.takeWhile_append_of_pos m.name_word]
  exact List.append_nil _

theorem Method.dropWhile_name (m : Method) (b : Bytes) :
    (m.name ++ (bytes "(" ++ b)).dropWhile isWordByte = bytes "(" ++ b := by
  rw [List.dropWhile_append_of_pos m.name_word]
  rfl

/-- A line is read part by part. -/
theorem ofLine?_eq (line : Bytes) :
    ofLine? line = (behind? opening line).bind fun rest =>
      if (rest.takeWhile isWordByte).isEmpty then none
      else (behind? (bytes "(") (rest.dropWhile isWordByte)).bind fun inner =>
        (before? closing inner).bind fun params =>
          some ⟨rest.takeWhile isWordByte, params, forward params⟩ :=
  rfl

theorem Method.ofLine?_line (m : Method) :
    ofLine? m.line = some ⟨m.name, m.params, forward m.params⟩ := by
  have hname : ¬ m.name.isEmpty = true := by simpa using m.name_ne_nil
  have hparams : before? closing (m.params ++ closing ++ m.behind) = some m.params :=
    before?_eq_some_iff.2 ⟨⟨m.behind, rfl⟩, m.params_first⟩
  rw [ofLine?_eq, line, behind?_append, Option.bind_some, m.takeWhile_name, m.dropWhile_name,
    if_neg hname, behind?_append, Option.bind_some, hparams, Option.bind_some]

theorem ofLine?_eq_some_iff {line : Bytes} {e : Expectation} :
    ofLine? line = some e ↔
      ∃ m : Method, m.line = line ∧ e = ⟨m.name, m.params, forward m.params⟩ := by
  constructor
  · intro h
    rw [ofLine?_eq] at h
    obtain ⟨rest, hrest, h⟩ := Option.bind_eq_some_iff.1 h
    split at h
    · cases h
    · next hname =>
      obtain ⟨inner, hinner, h⟩ := Option.bind_eq_some_iff.1 h
      obtain ⟨params, hparams, h⟩ := Option.bind_eq_some_iff.1 h
      obtain ⟨⟨behind, hbehind⟩, hfirst⟩ := before?_eq_some_iff.1 hparams
      let m : Method :=
        ⟨rest.takeWhile isWordByte, params, behind, by simpa using hname,
          List.all_eq_true.1 List.all_takeWhile, hfirst⟩
      refine ⟨m, ?_, (Option.some.inj h).symm⟩
      calc m.line
          = opening ++ (rest.takeWhile isWordByte ++ (bytes "(" ++ inner)) := by
            rw [hbehind]; rfl
        _ = opening ++ rest := by
          rw [← eq_append_of_behind? hinner, List.takeWhile_append_dropWhile]
        _ = line := (eq_append_of_behind? hrest).symm
  · rintro ⟨m, rfl, rfl⟩
    exact m.ofLine?_line

/-! ## The lines of a source -/

theorem ofLine?_nil : ofLine? [] = none := rfl

/-- A carriage return behind a line makes no difference. -/
theorem ofLine?_concat_return (line : Bytes) : ofLine? (line ++ [13]) = ofLine? line := by
  refine Option.ext fun e => ?_
  rw [ofLine?_eq_some_iff, ofLine?_eq_some_iff]
  constructor
  · rintro ⟨m, hm, rfl⟩
    rcases List.eq_nil_or_concat m.behind with hnil | ⟨behind, last, hconcat⟩
    · -- The line would end in what ends the parameters.
      have hlast := congrArg List.getLast? hm
      have hclosing : closing.getLast? = some 101 := rfl
      simp [Method.line, hnil, List.getLast?_append, hclosing] at hlast
    · let shorter : Method := { m with behind }
      have hshorter : shorter.line ++ [last] = line ++ [13] := by
        rw [← hm]
        simp [shorter, Method.line, hconcat]
      exact ⟨shorter, (List.append_inj' hshorter rfl).1, rfl⟩
  · rintro ⟨m, rfl, rfl⟩
    exact ⟨{ m with behind := m.behind ++ [13] }, by simp [Method.line], rfl⟩

theorem ofLine?_chomp (line : Bytes) : ofLine? (chomp line) = ofLine? line := by
  unfold chomp
  split
  · next h =>
    obtain ⟨front, rfl⟩ := List.getLast?_eq_some_iff.1 (by simpa using h)
    rw [List.dropLast_concat, ofLine?_concat_return]
  · rfl

theorem filterMap_sourceLines (src : Bytes) :
    (sourceLines src).filterMap (fun line => ofLine? (chomp line)) =
      (lines src).filterMap ofLine? := by
  simp only [ofLine?_chomp, sourceLines]
  split
  · next h =>
    obtain ⟨front, hfront⟩ := List.getLast?_eq_some_iff.1 (by simpa using h)
    rw [hfront, List.dropLast_concat, List.filterMap_append]
    simp [ofLine?_nil]
  · rfl

theorem extracts_filterMap (ls : List Bytes) : Extracts ls (ls.filterMap ofLine?) := by
  induction ls with
  | nil => exact .nil
  | cons line ls ih =>
    cases h : ofLine? line with
    | none =>
      rw [List.filterMap_cons_none h]
      refine .other (fun m hm => ?_) ih
      rw [← hm, m.ofLine?_line] at h
      cases h
    | some e =>
      rw [List.filterMap_cons_some h]
      obtain ⟨m, rfl, rfl⟩ := ofLine?_eq_some_iff.1 h
      exact .method m rfl rfl ih

theorem scan_of_short {src : Bytes} (h : ∀ line ∈ lines src, line.length < lineLimit) :
    scan src = ((lines src).filterMap ofLine?, none) := by
  have hsub : sourceLines src ⊆ lines src := by
    simp only [sourceLines]
    split
    · exact (List.dropLast_sublist _).subset
    · exact fun _ => id
  have hall : (sourceLines src).takeWhile (·.length < lineLimit) = sourceLines src := by
    rw [List.takeWhile_eq_self_iff]
    exact fun line hl => by simpa using h line (hsub hl)
  rw [scan, hall, filterMap_sourceLines]
  simp

/-! ## Fields -/

/-- The bytes of a run of pieces. -/
def runBytes (ps : List Utf8.Piece) : Bytes := ps.flatMap Utf8.Piece.toBytes

theorem runBytes_pieces (b : Bytes) : runBytes (Utf8.pieces b) = b := Utf8.flatMap_pieces b

theorem pieces_ne_nil {b : Bytes} (h : b ≠ []) : Utf8.pieces b ≠ [] := by
  intro hnil
  have hb := runBytes_pieces b
  rw [hnil] at hb
  exact h hb.symm

/-- The fields of the runs between blanks. -/
def fieldsOf (runs : List (List Utf8.Piece)) : List Bytes :=
  (runs.filter (!·.isEmpty)).map runBytes

theorem fieldsOf_cons {run : List Utf8.Piece} (h : run ≠ []) (runs : List (List Utf8.Piece)) :
    fieldsOf (run :: runs) = runBytes run :: fieldsOf runs := by
  rw [fieldsOf, List.filter_cons_of_pos (by simpa using h), List.map_cons, fieldsOf]

theorem fields_eq (b : Bytes) : fields b = fieldsOf ((Utf8.pieces b).splitOnP isBlank) := rfl

theorem pieces_append_space (a b : Bytes) :
    Utf8.pieces (a ++ 32 :: b) = Utf8.pieces a ++ .char (Utf8.asciiChar 32) :: Utf8.pieces b :=
  Utf8.pieces_append_cons a (by decide) b

variable {w : Bytes}

/-- A space in front of a text is part of no field. -/
theorem fields_spaced (b : Bytes) : fields (32 :: b) = fields b := by
  have hpieces := pieces_append_space [] b
  rw [Utf8.pieces, List.nil_append, List.nil_append] at hpieces
  rw [fields_eq, hpieces, List.splitOnP_cons_eq_if_modifyHead, if_pos (by decide)]
  rfl

/-- A text with no blank in it is a field. -/
theorem fields_of_no_blank (hne : w ≠ []) (hw : ∀ p ∈ Utf8.pieces w, isBlank p = false) :
    fields w = [w] := by
  rw [fields_eq, List.splitOnP_eq_singleton hw, fieldsOf_cons (pieces_ne_nil hne),
    runBytes_pieces]
  rfl

theorem fields_append_space (hne : w ≠ []) (hw : ∀ p ∈ Utf8.pieces w, isBlank p = false)
    (b : Bytes) : fields (w ++ 32 :: b) = w :: fields b := by
  rw [fields_eq, pieces_append_space,
    List.splitOnP_append_cons_of_forall_mem hw _ (by decide), fieldsOf_cons (pieces_ne_nil hne),
    runBytes_pieces, ← fields_eq]

/-- The first part of a list that is split goes up to the first separator. -/
theorem splitOnP_eq_takeWhile_cons {α : Type} (p : α → Bool) (l : List α) :
    ∃ later, l.splitOnP p = l.takeWhile (!p ·) :: later := by
  induction l with
  | nil => exact ⟨[], rfl⟩
  | cons x l ih =>
    obtain ⟨later, hl⟩ := ih
    rw [List.splitOnP_cons_eq_if_modifyHead]
    cases hx : p x with
    | true => exact ⟨_, by simp [hx]; rfl⟩
    | false => exact ⟨later, by simp [hx, hl]⟩

/-- The run of pieces in front of the first blank. -/
def firstRun (b : Bytes) : List Utf8.Piece := (Utf8.pieces b).takeWhile (!isBlank ·)

theorem fields_of_starts (hne : w ≠ []) (hw : ∀ p ∈ (Utf8.pieces w).head?, isBlank p = false) :
    ∃ later, fields w = runBytes (firstRun w) :: later := by
  obtain ⟨later, hlater⟩ := splitOnP_eq_takeWhile_cons isBlank (Utf8.pieces w)
  have hrun : firstRun w ≠ [] := by
    obtain ⟨p, ps, hps⟩ := List.exists_cons_of_ne_nil (pieces_ne_nil hne)
    have hp : isBlank p = false := hw p (by simp [hps])
    simp [firstRun, hps, hp]
  exact ⟨fieldsOf later, by rw [fields_eq, hlater, ← firstRun, fieldsOf_cons hrun]⟩

/-- Dots in front of a text are in front of its first field. -/
theorem dots_prefix_firstRun : bytes "..." <+: runBytes (firstRun w) ↔ bytes "..." <+: w := by
  constructor
  · intro h
    refine h.trans ⟨runBytes ((Utf8.pieces w).dropWhile (!isBlank ·)), ?_⟩
    calc runBytes (firstRun w) ++ runBytes ((Utf8.pieces w).dropWhile (!isBlank ·))
        = runBytes (Utf8.pieces w) := by
          rw [firstRun, runBytes, runBytes, ← List.flatMap_append, List.takeWhile_append_dropWhile,
            runBytes]
      _ = w := runBytes_pieces w
  · rintro ⟨rest, rfl⟩
    rw [firstRun, Utf8.pieces_append_of_ascii rfl,
      List.takeWhile_append_of_pos (by decide), runBytes, List.flatMap_append]
    exact List.prefix_append _ _

/-! ## Parameters and the arguments that forward them -/

/-- The name of a parameter. -/
structure ParameterName where
  text : Bytes
  ne_nil : text ≠ []
  no_blank : ∀ p ∈ Utf8.pieces text, isBlank p = false
  no_comma : 44 ∉ text

/-- The type of a parameter. -/
structure ParameterType where
  text : Bytes
  ne_nil : text ≠ []
  starts : ∀ p ∈ (Utf8.pieces text).head?, isBlank p = false
  no_comma : 44 ∉ text

/-- A parameter: a name, and a type behind it if it is not that of a later parameter. -/
structure Parameter where
  name : ParameterName
  type : Option ParameterType := none

/-- A name of ASCII text. -/
def ParameterName.ofAscii (text : Bytes) (ne_nil : text ≠ [])
    (h : (text.all fun b => Utf8.IsAscii b && !isSpace (Utf8.asciiChar b) && b != 44) = true) :
    ParameterName where
  text
  ne_nil
  no_blank := by
    simp only [List.all_eq_true, Bool.and_eq_true, decide_eq_true_eq] at h
    intro p hp
    rw [Utf8.pieces_of_ascii (List.all_eq_true.2 fun b hb => by simpa using (h b hb).1.1)] at hp
    obtain ⟨b, hb, rfl⟩ := List.mem_map.1 hp
    simpa [isBlank] using (h b hb).1.2
  no_comma := fun hb => absurd (List.all_eq_true.1 h 44 hb) (by decide)

/-- A type of ASCII text. -/
def ParameterType.ofAscii (text : Bytes) (ne_nil : text ≠ [])
    (starts : (text.head?.all fun b => !isSpace (Utf8.asciiChar b)) = true)
    (h : (text.all fun b => Utf8.IsAscii b && b != 44) = true) : ParameterType where
  text
  ne_nil
  starts := by
    simp only [List.all_eq_true, Bool.and_eq_true, decide_eq_true_eq] at h
    intro p hp
    rw [Utf8.pieces_of_ascii (List.all_eq_true.2 fun b hb => by simpa using (h b hb).1),
      List.head?_map] at hp
    obtain ⟨b, hb, rfl⟩ := Option.map_eq_some_iff.1 hp
    rw [hb] at starts
    simpa [isBlank] using starts
  no_comma := fun hb => absurd (List.all_eq_true.1 h 44 hb) (by decide)

namespace Parameter

/-- A parameter as it is declared. -/
def declared (p : Parameter) : Bytes :=
  match p.type with
  | none => p.name.text
  | some t => p.name.text ++ 32 :: t.text

/-- Whether any number of arguments can stand for a parameter. -/
def variadic (p : Parameter) : Bool := p.type.any fun t => (bytes "...").isPrefixOf t.text

/-- The argument that forwards a parameter. -/
def forwarded (p : Parameter) : Bytes :=
  if p.variadic then p.name.text ++ bytes "..." else p.name.text

theorem no_comma_declared (p : Parameter) : ∀ b ∈ p.declared, (b == 44) = false := by
  intro b hb
  rw [beq_eq_false_iff_ne]
  rintro rfl
  unfold declared at hb
  split at hb
  · exact p.name.no_comma hb
  · next t _ =>
    rcases List.mem_append.1 hb with hname | htype
    · exact p.name.no_comma hname
    · exact t.no_comma (List.mem_of_ne_of_mem (by decide) htype)

theorem forwardOne_declared (p : Parameter) : forwardOne p.declared = some p.forwarded := by
  unfold forwardOne declared forwarded variadic
  cases p.type with
  | none => simp [fields_of_no_blank p.name.ne_nil p.name.no_blank]
  | some t =>
    obtain ⟨later, hlater⟩ := fields_of_starts t.ne_nil t.starts
    have hdots : (bytes "...").isPrefixOf (runBytes (firstRun t.text)) =
        (bytes "...").isPrefixOf t.text := by
      rw [Bool.eq_iff_iff, List.isPrefixOf_iff_prefix, List.isPrefixOf_iff_prefix,
        dots_prefix_firstRun]
    simp [fields_append_space p.name.ne_nil p.name.no_blank, hlater, hdots, apply_ite some]

end Parameter

theorem forwardOne_nil : forwardOne [] = none := by
  simp [forwardOne, fields, Utf8.pieces]

theorem forwardOne_spaced (b : Bytes) : forwardOne (32 :: b) = forwardOne b := by
  rw [forwardOne, fields_spaced, ← forwardOne]

/-- Parts without a comma are told apart by the commas between them. -/
theorem splitOnP_joinWith (b : Bytes) (bs : List Bytes)
    (h : ∀ c ∈ b :: bs, ∀ x ∈ c, (x == 44) = false) :
    (joinWith (bytes ", ") (b :: bs)).splitOnP (· == 44) = b :: bs.map (32 :: ·) := by
  induction bs generalizing b with
  | nil => exact List.splitOnP_eq_singleton (h b (by simp))
  | cons c bs ih =>
    have hjoin : joinWith (bytes ", ") (b :: c :: bs) =
        b ++ 44 :: 32 :: joinWith (bytes ", ") (c :: bs) :=
      List.append_assoc b (bytes ", ") _
    have hlater := ih c fun d hd => h d (List.mem_cons_of_mem b hd)
    rw [hjoin, List.splitOnP_append_cons_of_forall_mem (h b (by simp)) 44 (by decide),
      List.splitOnP_cons_eq_if_modifyHead, if_neg (by decide), hlater]
    rfl

theorem forward_declared (ps : List Parameter) :
    forward (joinWith (bytes ", ") (ps.map Parameter.declared)) =
      joinWith (bytes ", ") (ps.map Parameter.forwarded) := by
  cases ps with
  | nil => simp [forward, joinWith, forwardOne_nil]
  | cons p ps =>
    have hcommas : ∀ c ∈ (p :: ps).map Parameter.declared, ∀ x ∈ c, (x == 44) = false := by
      intro c hc
      obtain ⟨q, -, rfl⟩ := List.mem_map.1 hc
      exact q.no_comma_declared
    have hlater : (forwardOne ∘ (32 :: ·)) ∘ Parameter.declared = some ∘ Parameter.forwarded := by
      funext q
      exact (forwardOne_spaced q.declared).trans q.forwardOne_declared
    rw [forward, List.map_cons, splitOnP_joinWith _ _ hcommas,
      List.filterMap_cons_some p.forwardOne_declared, List.filterMap_map, List.filterMap_map,
      hlater, List.filterMap_eq_map, List.map_cons]

theorem scan_extracts {src : Bytes} (h : ∀ line ∈ lines src, line.length < lineLimit) :
    (scan src).2 = none ∧ Extracts (lines src) (scan src).1 ∧
      ∀ e ∈ (scan src).1, ∀ ps : List Parameter,
        e.params = joinWith (bytes ", ") (ps.map Parameter.declared) →
          e.args = joinWith (bytes ", ") (ps.map Parameter.forwarded) := by
  rw [scan_of_short h]
  refine ⟨rfl, extracts_filterMap _, fun e he ps hps => ?_⟩
  obtain ⟨line, -, hline⟩ := List.mem_filterMap.1 he
  obtain ⟨m, -, rfl⟩ := ofLine?_eq_some_iff.1 hline
  simp only at hps ⊢
  rw [hps, forward_declared]

/-- Parameters that share a type, one with parentheses in its type, and one with dots. -/
theorem scan_extracts_sharedType :
    let src := bytes ("// expectNothing(x int) vmTestCase\n" ++
      "func (vmt vmTestCase) expectOutput(a, b int, f func(int) error, lines ...string)" ++
      " vmTestCase \x7b\r\n\treturn vmt\n\x7d\n")
    (∀ line ∈ lines src, line.length < lineLimit) ∧
      ∃ e ∈ (scan src).1, e.params = bytes "a, b int, f func(int) error, lines ...string" ∧
        e.args = bytes "a, b, f, lines..." := by
  intro src
  have hshort : ∀ line ∈ lines src, line.length < lineLimit := by decide
  obtain ⟨-, -, hargs⟩ := scan_extracts hshort
  let e : Expectation := ⟨bytes "Output", bytes "a, b int, f func(int) error, lines ...string",
    forward (bytes "a, b int, f func(int) error, lines ...string")⟩
  have he : e ∈ (scan src).1 := .head []
  refine ⟨hshort, e, he, rfl, ?_⟩
  exact hargs e he
    [⟨.ofAscii (bytes "a") (by decide) rfl, none⟩,
      ⟨.ofAscii (bytes "b") (by decide) rfl,
        some (.ofAscii (bytes "int") (by decide) rfl rfl)⟩,
      ⟨.ofAscii (bytes "f") (by decide) rfl,
        some (.ofAscii (bytes "func(int) error") (by decide) rfl rfl)⟩,
      ⟨.ofAscii (bytes "lines") (by decide) rfl,
        some (.ofAscii (bytes "...string") (by decide) rfl rfl)⟩] rfl

end Expectation

end WordStack

import WordStack.Proofs.Dump
import WordStack.Proofs.Session.Notes
import WordStack.Proofs.Session.Printing

/-!
# What the lines of a trace tell

From a line of a trace it can be told what it is about. The mark in front gives the kind of a note.
Positions, instructions and operands end where their own texts say, and the numbers of a stack are
told apart by the spaces between them; a text on the stack may hold a space itself. An error of an
instruction is worded like no other one, so that the line of a halt gives its reason.

* `splitOnP_intercalate`: texts are read back from between their separators.
* `Session.stackText_inj`: a stack of numbers is read back from its text.
* `Session.noteLine_inj`: a note is read back from its line.
* `Error.OfInstruction.of_reason`: the errors with which instructions halt.
* `Error.message_inj`, `Session.haltLine_inj`: such an error is read back from its wording, and from
  the line of the halt.
-/
namespace WordStack

/-! ## Stacks -/

/-- Texts that do not hold the separator are read back from between it. -/
theorem splitOnP_intercalate {x : UInt8} {members : List Bytes} (hne : members ≠ [])
    (h : ∀ a ∈ members, ∀ y ∈ a, (y == x) = false) :
    ([x].intercalate members).splitOnP (· == x) = members := by
  induction members with
  | nil => exact absurd rfl hne
  | cons a members ih =>
    have hfirst := h a List.mem_cons_self
    cases members with
    | nil =>
      rw [List.intercalate_singleton]
      exact List.splitOnP_eq_singleton hfirst
    | cons b more =>
      have hlater := ih (List.cons_ne_nil b more) fun c hc => h c (List.mem_cons_of_mem _ hc)
      rw [List.intercalate_cons_cons, List.append_assoc, List.singleton_append,
        List.splitOnP_append_cons_of_forall_mem hfirst x (beq_self_eq_true x), hlater]

namespace Session

/-- The text of a number. -/
def numberText (n : Int32) : Bytes := Decimal.ofInt n.toInt

theorem numberText_inj {m n : Int32} (h : numberText m = numberText n) : m = n :=
  Int32.toInt_inj.mp (Decimal.ofInt_inj h)

/-- Numbers are read back from between spaces. -/
theorem filter_splitOnP_numbers (ns : List Int32) :
    (((bytes " ").intercalate (ns.map numberText)).splitOnP (· == 32)).filter (· ≠ []) =
      ns.map numberText := by
  have hspace : bytes " " = [32] := rfl
  by_cases hne : ns = []
  · subst hne
    rfl
  have hplain : ∀ a ∈ ns.map numberText, ∀ y ∈ a, (y == 32) = false := by
    intro a ha y hy
    obtain ⟨n, -, rfl⟩ := List.mem_map.mp ha
    rw [beq_eq_false_iff_ne]
    rintro rfl
    exact Decimal.not_mem_ofInt rfl (by decide) _ hy
  rw [hspace, splitOnP_intercalate (by simpa using hne) hplain, List.filter_eq_self]
  intro a ha
  obtain ⟨n, -, rfl⟩ := List.mem_map.mp ha
  exact decide_eq_true (Decimal.ofInt_ne_nil n.toInt)

theorem stackText_ints (ns : List Int32) : stackText (ns.map .int) =
    bytes "[" ++ (bytes " ").intercalate (ns.reverse.map numberText) ++ bytes "]" := by
  rw [stackText, ← List.map_reverse, List.map_map]
  rfl

theorem stackText_inj {vs ws : List Value} (hv : ∀ v ∈ vs, v.IsInt) (hw : ∀ w ∈ ws, w.IsInt)
    (h : stackText vs = stackText ws) : vs = ws := by
  obtain ⟨ms, rfl⟩ := exists_ints hv
  obtain ⟨ns, rfl⟩ := exists_ints hw
  rw [stackText_ints, stackText_ints] at h
  have hnumbers := congrArg (fun inner => (inner.splitOnP (· == 32)).filter (· ≠ []))
    (List.append_cancel_left (List.append_cancel_right h))
  simp only [filter_splitOnP_numbers] at hnumbers
  have hsame := (List.map_inj_right fun _ _ => numberText_inj).mp hnumbers
  rw [List.reverse_inj.mp hsame]

/-! ## Notes -/

/-- Marks of one byte in lines of one width. -/
theorem traceLine_inj {indent mark mark' text text' : Bytes} {width : Nat} (hmark : mark.length = 1)
    (hmark' : mark'.length = 1)
    (h : traceLine indent width mark text = traceLine indent width mark' text') :
    mark = mark' ∧ text = text' := by
  obtain ⟨k, hk⟩ : ∃ k, max width 1 = k + 1 := ⟨max width 1 - 1, by omega⟩
  rw [traceLine, traceLine, hk, List.replicate_succ, List.replicate_succ, List.flatten_cons,
    List.flatten_cons] at h
  simp only [List.append_assoc] at h
  obtain ⟨rfl, hrest⟩ := List.append_inj (List.append_cancel_left h) (hmark.trans hmark'.symm)
  exact ⟨rfl, List.append_cancel_left (List.append_cancel_left hrest)⟩

end Session

/-- A note about an instruction as it is read from a source, on a stack of numbers; or about a text
that a known operation met; or about a jump. -/
inductive Note.Plain : Note → Prop
  | exec {position : Int} {i : Instruction} {stack : List Value} (hi : i.Tidy)
      (hs : ∀ v ∈ stack, v.IsInt) : Note.Plain (.exec position i stack)
  | mismatch {op : Op} (hop : op ∈ Op.known) (t : Bytes) : Note.Plain (.mismatch op (.text t))
  | jump (source target : Int) : Note.Plain (.jump source target)

theorem Note.length_mark (n : Note) : n.mark.length = 1 := by cases n <;> rfl

/-- Behind its mark, a note is told by its text. -/
theorem Note.render_inj {n n' : Note} (hn : n.Plain) (hn' : n'.Plain) (hmark : n.mark = n'.mark)
    (h : n.render = n'.render) : n = n' := by
  have hexecMismatch : bytes ">" ≠ bytes "!" := by decide
  have hexecJump : bytes ">" ≠ bytes "^" := by decide
  have hmismatchJump : bytes "!" ≠ bytes "^" := by decide
  cases hn with
  | exec hi hs =>
    cases hn' with
    | exec hi' hs' =>
      simp only [render, List.append_assoc, List.append_cancel_left_eq, Session.showStack_eq] at h
      obtain ⟨rfl, hrest⟩ := Decimal.ofInt_append_inj (x := 32) rfl (by decide) h
      obtain ⟨rfl, hstack⟩ := Instruction.render_append_inj hi hi' hrest
      rw [Session.stackText_inj hs hs' (List.append_cancel_left hstack)]
    | mismatch => exact absurd hmark hexecMismatch
    | jump => exact absurd hmark hexecJump
  | mismatch hop t =>
    cases hn' with
    | exec => exact absurd hmark.symm hexecMismatch
    | mismatch hop' t' =>
      simp only [render, List.append_assoc, List.append_cancel_left_eq] at h
      obtain ⟨rfl, hrest⟩ := Op.name_append_inj hop hop' h
      rw [Quoted.quote_inj (List.append_cancel_left hrest)]
    | jump => exact absurd hmark hmismatchJump
  | jump source target =>
    cases hn' with
    | exec => exact absurd hmark.symm hexecJump
    | mismatch => exact absurd hmark.symm hmismatchJump
    | jump source' target' =>
      simp only [render, List.append_assoc, List.append_cancel_left_eq] at h
      obtain ⟨rfl, hrest⟩ := Decimal.ofInt_append_inj (x := 32) rfl (by decide) h
      have htarget : bytes "-> @" ++ Decimal.ofInt target = bytes "-> @" ++ Decimal.ofInt target' :=
        hrest
      rw [Decimal.ofInt_inj (List.append_cancel_left htarget)]

theorem Session.noteLine_inj {width : Nat} {n n' : Note} (hn : n.Plain) (hn' : n'.Plain)
    (h : noteLine width n = noteLine width n') : n = n' := by
  rw [noteLine_eq, noteLine_eq] at h
  obtain ⟨hmark, htext⟩ := traceLine_inj n.length_mark n'.length_mark h
  exact Note.render_inj hn hn' hmark htext

/-! ## Errors -/

/-- An error with which an instruction of a known operation halts. -/
inductive Error.OfInstruction : Error → Prop
  | underflow {op : Op} (hop : op ∈ Op.known) : OfInstruction (.underflow op)
  | divisionByZero : OfInstruction .divisionByZero
  | typeMismatch {op : Op} (hop : op ∈ Op.known) (t : Bytes) :
      OfInstruction (.typeMismatch op (.text t))
  | unresolved (position : Int) : OfInstruction (.unresolved position)

namespace Error

variable {e e' : Error}

/-- What an instruction returns an error for, unless the context does. -/
theorem OfInstruction.of_reason {p : Program} {strict : Bool} {c : Context} {k : Nat}
    {i : Instruction} (h : Reason p strict c k i e) (hop : i.op ∈ Op.known)
    (hc : ∀ asked, c asked ≠ some e) : e.OfInstruction := by
  cases h with
  | underflow => exact .underflow hop
  | divisor => exact .divisionByZero
  | unresolved => exact .unresolved k
  | mismatch _ operand => exact .typeMismatch hop operand
  | context asked h => exact absurd h (hc asked)

/-- The first letter of the wording of an error of an instruction. -/
def initial : Error → UInt8
  | underflow _ => 115
  | divisionByZero => 100
  | typeMismatch .. => 116
  | unresolved _ => 117
  | _ => 0

theorem OfInstruction.head_message (h : e.OfInstruction) : e.message.head? = some e.initial := by
  cases h <;> rfl

/-- An error of an instruction is told by its wording: the first letter gives the kind. -/
theorem message_inj (h : e.OfInstruction) (h' : e'.OfInstruction)
    (hmessage : e.message = e'.message) : e = e' := by
  have hinitial : e.initial = e'.initial := by
    have hhead := congrArg List.head? hmessage
    rw [h.head_message, h'.head_message] at hhead
    exact Option.some.inj hhead
  cases h with
  | underflow hop =>
    cases h' with
    | underflow hop' =>
      rw [Op.name_inj hop hop' (List.append_cancel_left hmessage)]
    | _ => cases hinitial
  | divisionByZero =>
    cases h' with
    | divisionByZero => rfl
    | _ => cases hinitial
  | typeMismatch hop t =>
    cases h' with
    | typeMismatch hop' t' =>
      simp only [message, Value.render, List.append_assoc, List.append_cancel_left_eq] at hmessage
      obtain ⟨rfl, hrest⟩ := Op.name_append_inj hop hop' hmessage
      rw [Quoted.quote_inj (List.append_cancel_left hrest)]
    | _ => cases hinitial
  | unresolved position =>
    cases h' with
    | unresolved position' =>
      simp only [message, List.append_assoc, List.append_cancel_left_eq] at hmessage
      rw [(Decimal.ofInt_append_inj (x := 58) rfl (by decide) hmessage).1]
    | _ => cases hinitial

end Error

/-- The last line of a run that an instruction halts gives its reason. -/
theorem Session.haltLine_inj {width : Nat} {e e' : Error} (he : e.OfInstruction)
    (he' : e'.OfInstruction) (h : haltLine width e = haltLine width e') : e = e' := by
  obtain ⟨-, htext⟩ := traceLine_inj rfl rfl h
  exact Error.message_inj he he' (List.append_cancel_left htext)

end WordStack

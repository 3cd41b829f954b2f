import WordStack.Proofs.Session.Progress
import WordStack.Proofs.Session.Safety
import WordStack.Proofs.Text.Numeral

/-!
# What a program prints is a program

A `print` takes the top of the stack and writes it as a line. Nothing else is written while
instructions are executed, so the text of a run is the lines of the values that it prints. A program
that was read from a source prints only numbers, and their lines are themselves a source: that of
the program which pushes these numbers in the same order.

* `Session.printedValues`: the values that a run prints, by the instructions it executes.
* `Execution.carry_written`, `Execution.advance_written`: what one instruction writes.
* `Session.execution_written`: so what a run of instructions writes.
* `Source.lex_lines`: the lines of numbers are read as the code that pushes them.
* `run_printsSource`: so it is for every program and run.
-/
namespace WordStack

/-- A value as a line of the output. -/
def Value.line (v : Value) : Bytes := v.render ++ bytes "\n"

/-- The value that an instruction prints from a stack. -/
def Instruction.prints? (i : Instruction) (stack : List Value) : Option Value :=
  if i.op = .print then stack.head? else none

/-- The value that the next instruction of a machine prints. -/
def Machine.prints? (m : Machine) (p : Program) : Option Value :=
  (p.fetch? m.next).bind (·.prints? m.stack)

/-! ## One instruction -/

namespace Store

variable {strict : Bool} {op : Op} {s : Store}

theorem binary_written : (s.binary strict op).2.written = s.written := by
  unfold binary
  split
  · split <;> rfl
  all_goals rfl

theorem test_written : (s.test strict op).2.written = s.written := by
  unfold test
  split
  · rfl
  · rfl
  · cases strict <;> rfl

theorem perform_written (i : Instruction) :
    (s.perform strict i).2.written = s.written ++ (i.prints? s.stack).elim [] Value.line := by
  unfold perform
  split
  · next hop => simp [Instruction.prints?, hop]
  · next hop => simp [Instruction.prints?, hop]
  · next hop _ => simp [Instruction.prints?, hop]
  · next hop hstack => simp [Instruction.prints?, hop, hstack, Value.line]
  · next _ hprint =>
    rw [binary_written]
    unfold Instruction.prints?
    split
    · next hop =>
      -- a `print` that finds nothing
      cases hstack : s.stack with
      | nil => simp
      | cons v rest => exact absurd hstack (hprint v rest hop)
    · simp

end Store

namespace Execution

variable {p : Program} {strict : Bool} {x y : Execution} {i : Instruction} {s : Store}

theorem Stands.written {current next : Int} {e : Option Error} (h : y.Stands s current next e) :
    y.written = s.written := congrArg Store.written h.store

/-- A condition writes nothing, whether it holds or not. -/
theorem written_of_branch {op : Op} {target : Option Int} {k : Int} (land : Int → Int)
    (h : match s.test strict op, target with
      | (.error e, t), _ => y.Stands t k (k + 1) (some e)
      | (.ok true, t), _ => y.Stands t k (k + 1) none
      | (.ok false, t), some j => y.Stands t k (land j) none
      | (.ok false, t), none => y.Stands t k (k + 1) (some (.unresolved k))) :
    y.written = s.written := by
  have htest : (s.test strict op).2.written = s.written := Store.test_written
  match hresult : s.test strict op, target with
  | (.error e, t), _ | (.ok true, t), _ | (.ok false, t), some j | (.ok false, t), none =>
    rw [hresult] at h htest
    exact h.written.trans htest

/-- Only `print` writes, and it writes a line. -/
theorem carry_written (hi : p.fetch? x.machine.next = some i) :
    (x.carry p strict i).written =
      x.written ++ (i.prints? x.machine.stack).elim [] Value.line := by
  have hsilent : i.op ≠ .print → i.prints? x.machine.stack = none := fun hop => if_neg hop
  have hstore : x.store.written = x.written := rfl
  cases hop : i.op with
  | ifTest =>
    rw [hsilent (by simp [hop]), ← hstore, Option.elim_none, List.append_nil]
    exact written_of_branch id (carry_if p strict x hop)
  | doTest =>
    rw [hsilent (by simp [hop]), ← hstore, Option.elim_none, List.append_nil]
    exact written_of_branch _ (carry_do p strict x hop)
  | wend =>
    rw [hsilent (by simp [hop]), ← hstore, Option.elim_none, List.append_nil]
    have h := carry_wend p strict x hop
    split at h
    · exact h.written
    · exact h.written
  | whileMark | endMark =>
    rw [hsilent (by simp [hop]), ← hstore, Option.elim_none, List.append_nil]
    exact (carry_mark p strict x (by simp [hop])).written
  | unknown past =>
    rw [hsilent (by simp [hop]), carry, hop, Option.elim_none, List.append_nil]
    rfl
  | _ => exact (carry_plain p strict x hi (by rw [hop]; rfl)).written.trans (Store.perform_written i)

/-- What the next instruction writes. -/
theorem advance_written (hover : x.isOver p = false) (answer : Option Error) :
    (x.advance p strict answer).written =
      x.written ++ (x.machine.prints? p).elim [] Value.line := by
  unfold Machine.prints?
  cases hi : p.fetch? x.machine.next with
  | none =>
    rw [advance, hover, Machine.step, hi]
    exact (List.append_nil _).symm
  | some i =>
    rw [advance_eq_carry hover hi]
    exact carry_written hi

end Execution

/-! ## Runs of instructions -/

namespace Session

/-- The value that a run prints with the instruction behind `k` others, if it comes so far and that
is a `print`. -/
def printedAt? (s : Session) (c : Context) (k : Nat) : Option Value :=
  match s.run c k with
  | (.unfinished, s') => s'.machine.prints? s.program
  | (.ended _, _) => none

/-- The values that the first `n` instructions of a run print. -/
def printedValues (s : Session) (c : Context) (n : Nat) : List Value :=
  (List.range n).filterMap (s.printedAt? c)

variable {s : Session} {c : Context} {n : Nat}

theorem printedValues_succ (s : Session) (c : Context) (n : Nat) :
    s.printedValues c (n + 1) = s.printedValues c n ++ (s.printedAt? c n).toList := by
  rw [printedValues, List.range_succ, List.filterMap_append, printedValues]
  cases h : s.printedAt? c n <;> simp [h]

section
variable (hs : s.Steady)

include hs

theorem printedAt?_eq (c : Context) (k : Nat) : s.printedAt? c k =
    if (s.execution c 0 k).isOver s.program then none
    else (s.execution c 0 k).machine.prints? s.program := by
  obtain ⟨s', hrun, hsettles⟩ := run_of_steady hs c k
  unfold printedAt?
  rw [hrun]
  cases hover : (s.execution c 0 k).isOver s.program with
  | true =>
    obtain ⟨error, hout⟩ := exists_outcomeOf hover
    rw [hout]
    rfl
  | false =>
    rw [outcomeOf_eq_unfinished.mpr hover]
    exact congrArg (·.prints? s.program) hsettles.machine

/-- A run of instructions writes the lines of the values that it prints. -/
theorem execution_written (c : Context) (n : Nat) :
    (s.execution c 0 n).written = (s.printedValues c n).flatMap Value.line := by
  induction n with
  | zero => rfl
  | succ n ih =>
    have hnext : s.execution c 0 (n + 1) =
        (s.execution c 0 n).advance s.program s.strict (c (0 + n)) := Execution.after_succ' n
    rw [hnext, printedValues_succ, List.flatMap_append, ← ih, printedAt?_eq hs]
    cases hover : (s.execution c 0 n).isOver s.program with
    | true => simp [Execution.advance_of_isOver hover]
    | false =>
      rw [Execution.advance_written hover]
      cases (s.execution c 0 n).machine.prints? s.program <;> simp

/-- With numbers only on the stack all along, only numbers are printed. -/
theorem printedValues_isInt (hints : ∀ k, (s.execution c 0 k).store.Ints) :
    ∀ v ∈ s.printedValues c n, v.IsInt := by
  intro v hv
  obtain ⟨k, -, hk⟩ := List.mem_filterMap.mp hv
  rw [printedAt?_eq hs] at hk
  split at hk
  · cases hk
  · obtain ⟨i, -, hprints⟩ := Option.bind_eq_some_iff.mp hk
    unfold Instruction.prints? at hprints
    split at hprints
    · exact hints k v (List.mem_of_head? hprints)
    · cases hprints

end

end Session

/-! ## Lines of numbers -/

theorem exists_ints {vs : List Value} (h : ∀ v ∈ vs, v.IsInt) :
    ∃ ns : List Int32, vs = ns.map Value.int := by
  induction vs with
  | nil => exact ⟨[], rfl⟩
  | cons v vs ih =>
    simp only [List.mem_cons, forall_eq_or_imp] at h
    obtain ⟨n, rfl⟩ := h.1
    obtain ⟨ns, rfl⟩ := ih h.2
    exact ⟨n :: ns, rfl⟩

/-- The lines of numbers are words with a line feed behind each. -/
theorem Source.lex_lines (ns : List Int32) :
    Source.lex ⟨(ns.map Value.int).flatMap Value.line, none⟩ = (ns.map .push, none) := by
  let k : Spacing :=
    { closed := ns.map fun n => (.numeral n, ⟨['\n'], by simp, List.forall_mem_singleton.mpr rfl⟩) }
  have htext : Utf8.encodeAll k.text = (ns.map Value.int).flatMap Value.line := by
    have hline : ∀ n : Int32, Utf8.encodeAll ((Word.numeral n).chars ++ ['\n']) =
        (Value.int n).line := by
      intro n
      rw [Utf8.encodeAll_append]
      exact congrArg (· ++ bytes "\n") (Word.toBytes_numeral n)
    simp only [k, Spacing.text, Spacing.leadChars, Spacing.tailChars, Option.elim_none,
      List.nil_append, List.append_nil]
    induction ns with
    | nil => rfl
    | cons n ns ih =>
      rw [List.map_cons, List.flatMap_cons, Utf8.encodeAll_append, ih, List.map_cons,
        List.flatMap_cons, hline]
  have hwords : k.words.map Word.instruction = ns.map .push := by
    simp [k, Spacing.words, Spacing.closedWords, Function.comp_def, Word.instruction_numeral]
  rw [← htext, lex_whole, hwords]

/-! ## Runs -/

theorem Program.resolve_of_compile {source : Source} {p : Program} (h : compile source = .ok p) :
    resolve source.lex.1 = .ok p := by
  unfold compile at h
  split at h
  · cases h
  · next hlex => rw [hlex]; exact h

/-- **What a program prints is a program.** Take a source that compiles and a new session that runs
it without a listing, on an output that never fails. However the run ends, it has printed numbers
only, each sink has received their lines behind what it had before, and these lines are read as the
code that pushes the numbers in the order in which they were printed. -/
theorem run_printsSource {source : Source} {s s' : Session}
    (hcompile : Program.compile source = .ok s.program) (hnew : s.machine = {})
    (hlisting : s.listing = none) (hs : s.Steady) {c : Context} {n : Nat} {error : Option Error}
    (hrun : s.run c n = (.ended error, s')) :
    ∃ ns : List Int32, s.printedValues c n = ns.map .int ∧
      (∀ w i, s.Feeds w i → s'.host.received i =
        s.printed w i ++ ns.flatMap fun n => Decimal.ofInt n.toInt ++ bytes "\n") ∧
      Source.lex ⟨ns.flatMap fun n => Decimal.ofInt n.toInt ++ bytes "\n", none⟩ =
        (ns.map .push, none) := by
  have hp := Program.resolve_of_compile hcompile
  have hknown := lex_known source
  have hsafe : Execution.Safe s.program s.strict c { machine := s.machine } := by
    rw [hnew]
    exact ⟨Int.le_refl 0, Int.natCast_nonneg _, fun stop hstop => nomatch hstop⟩
  have hwhole : Execution.Whole c 0 { machine := s.machine } := by
    rw [hnew]
    exact ⟨(fun v hv => nomatch hv), rfl, fun op v hv => nomatch hv⟩
  obtain ⟨ns, hns⟩ := exists_ints (Session.printedValues_isInt (n := n) hs fun k =>
    (Execution.after_whole hp hknown hsafe hwhole 0 k).ints)
  have hlines : (ns.map Value.int).flatMap Value.line =
      ns.flatMap fun n => Decimal.ofInt n.toInt ++ bytes "\n" := List.flatMap_map ..
  obtain ⟨hout, hsettles⟩ := Session.settles_of_run hs hrun
  have hfault : ∀ f, (s.execution c 0 n).stop ≠ some (.fault f) := by
    intro f hf
    obtain ⟨e, k, i, hstop, -⟩ := (Execution.after_safe hp hknown hsafe 0 n).reason _ hf
    cases hstop
  refine ⟨ns, hns, fun w i hw => ?_, by rw [← hlines]; exact Source.lex_lines ns⟩
  have hflushed := hsettles.flushed error hout.symm hfault
  have hmem : w ∈ s'.outlet := by rw [hsettles.tells.outlet]; exact hw.outlet.mem
  calc s'.host.received i
      _ = s'.printed w i := (Session.printed_of_flushed hflushed hmem).symm
      _ = s.printed w i ++ (s.heading ++ (s.execution c 0 n).written) := hsettles.printed hw
      _ = s.printed w i ++ ns.flatMap fun n => Decimal.ofInt n.toInt ++ bytes "\n" := by
        rw [Session.execution_written hs, hns, hlines, Session.heading, hlisting, List.nil_append]

/-- The program of `-2147483648 print 0 print +`. -/
def Program.leastAndZero : Program where
  code := #[.push (-2147483648), { op := .print }, .push 0, { op := .print }, { op := .add }]
  targets := #[none, none, none, none, none]

/-- The run ends with an error, as there is nothing to add. -/
theorem run_printsSource_leastAndZero : ∃ s' : Session,
    Program.compile ⟨bytes "-2147483648 print 0 print +", none⟩ = .ok .leastAndZero ∧
    (Session.inMemory .leastAndZero []).run .never 9 = (.ended (some (.underflow .add)), s') ∧
    s'.host.received 0 = bytes "-2147483648\n0\n" ∧
    Source.lex ⟨bytes "-2147483648\n0\n", none⟩ =
      ([.push (-2147483648), .push 0], none) := by
  have hlex : Source.lex ⟨bytes "-2147483648 print 0 print +", none⟩ =
      (Program.leastAndZero.code.toList, none) := by decide +kernel
  have hcompile : Program.compile ⟨bytes "-2147483648 print 0 print +", none⟩ =
      .ok .leastAndZero := by rw [Program.compile, hlex]; rfl
  have hrun : (Session.inMemory .leastAndZero []).run .never 9 = (.ended (some (.underflow .add)),
      ((Session.inMemory .leastAndZero []).run .never 9).2) :=
    Session.run_eq_of_fst (by decide +kernel)
  obtain ⟨ns, hns, hreceived, hsource⟩ :=
    run_printsSource hcompile rfl rfl (Session.steady_inMemory _ _) hrun
  have hvalues : (Session.inMemory .leastAndZero []).printedValues .never 9 =
      [(-2147483648), 0].map .int := by decide +kernel
  obtain rfl : ns = [(-2147483648), 0] :=
    (List.map_inj_right fun _ _ => Value.int.inj).mp (hns.symm.trans hvalues)
  have hlines : [(-2147483648 : Int32), 0].flatMap
      (fun n => Decimal.ofInt n.toInt ++ bytes "\n") = bytes "-2147483648\n0\n" := by
    decide +kernel
  rw [hlines] at hsource
  refine ⟨_, hcompile, hrun, ?_, hsource⟩
  rw [hreceived (.direct 0) 0 (Session.feeds_inMemory _ _), hlines]
  rfl

end WordStack

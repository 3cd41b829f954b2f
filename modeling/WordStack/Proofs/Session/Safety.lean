import WordStack.Proofs.Machine.Store
import WordStack.Proofs.Session.Steady

/-!
# Resolved programs run safely

A program that resolved, of known operations, never leaves its code but at the end, and never hits a
fault. Each error that a run of it returns has a reason in the last instruction (`Reason`), or comes
from the context. With numbers only on the stack there are no mismatches.

* `Execution.carry_follows`: what one instruction may do.
* `Execution.after_safe`, `Execution.after_whole`: so what a run of instructions may do.
* `run_safe`: the same of runs of sessions with reliable output.
-/
namespace WordStack

/-- Why a run may return an error, if the instruction `i` at `k` was its last. -/
inductive Reason (p : Program) (strict : Bool) (context : Context) (k : Nat) (i : Instruction) :
    Error → Prop
  | underflow : Reason p strict context k i (.underflow i.op)
  | divisor (hop : i.op = .div ∨ i.op = .mod) : Reason p strict context k i .divisionByZero
  /-- The condition does not hold, and the block is never closed. -/
  | unresolved (hop : i.op = .ifTest ∨ i.op = .doTest) (hblank : p.targets[k]? = some none) :
      Reason p strict context k i (.unresolved k)
  | mismatch (hstrict : strict = true) (operand : Bytes) :
      Reason p strict context k i (.typeMismatch i.op (.text operand))
  /-- The run was called off. -/
  | context {e : Error} (asked : Nat) (h : context asked = some e) : Reason p strict context k i e

/-- A contained crash or end can only come from the context. -/
theorem Reason.context_of_crash {p : Program} {strict : Bool} {context : Context} {k : Nat}
    {i : Instruction} {e : Error} (h : Reason p strict context k i e)
    (he : e.isCrash = true ∨ e.isExit = true) : ∃ asked, context asked = some e := by
  cases h with
  | context asked h => exact ⟨asked, h⟩
  | _ => simp [Error.isCrash, Error.isExit] at he

/-! ## Stores -/

def Value.IsInt (v : Value) : Prop := ∃ n, v = .int n

namespace Store

/-- There are only numbers on the stack. -/
def Ints (s : Store) : Prop := ∀ v ∈ s.stack, v.IsInt

/-- The store `s'` has only numbers too, and there was no mismatch. -/
structure Numeric (s s' : Store) (e : Option Error) : Prop where
  ints : s'.Ints
  mismatches : s'.mismatches = s.mismatches
  error : ∀ op v, e ≠ some (.typeMismatch op v)

variable {p : Program} {strict : Bool} {context : Context} {k : Nat} {i : Instruction} {s : Store}

/-- A mismatch is an error only on a strict machine. -/
theorem mismatch_reason {t : Bytes} {e : Error}
    (h : (s.mismatch strict i.op (.text t)).1 = some e) : Reason p strict context k i e := by
  cases strict with
  | false => cases h
  | true => cases h; exact .mismatch rfl t

theorem binary_reason {e : Error} (h : (s.binary strict i.op).1 = some e) :
    Reason p strict context k i e := by
  unfold binary at h
  split at h
  · split at h
    · cases h
    · next hc =>
      cases h
      obtain ⟨rfl, hop⟩ := compute_eq_error hc
      exact .divisor hop
  · exact mismatch_reason h
  · exact mismatch_reason h
  · cases h; exact .underflow

theorem perform_reason {e : Error} (h : (s.perform strict i).1 = some e) :
    Reason p strict context k i e := by
  unfold perform at h
  split at h
  all_goals first
    | exact binary_reason h
    | cases h

theorem test_reason {e : Error} {s' : Store} (h : s.test strict i.op = (.error e, s')) :
    Reason p strict context k i e := by
  unfold test at h
  split at h
  · cases h; exact .underflow
  · cases h
  · split at h
    · next hm =>
      cases h
      exact mismatch_reason (by rw [hm])
    · cases h

/-! With numbers only. -/

theorem Ints.tail {v : Value} {rest : List Value} (hs : s.Ints) (h : s.stack = v :: rest) :
    ∀ u ∈ rest, u.IsInt :=
  fun u hu => hs u (by rw [h]; exact List.mem_cons_of_mem _ hu)

theorem Ints.not_text (hs : s.Ints) (t : Bytes) : .text t ∉ s.stack := by
  intro h
  obtain ⟨n, hn⟩ := hs _ h
  cases hn

theorem binary_numeric (op : Op) (hs : s.Ints) :
    Numeric s (s.binary strict op).2 (s.binary strict op).1 := by
  unfold binary
  split
  · next r l rest h =>
    have hrest : ∀ u ∈ rest, u.IsInt := fun u hu => hs u (by rw [h]; simp [hu])
    split
    · next n _ =>
      refine ⟨?_, rfl, by simp⟩
      simp only [Ints, List.mem_cons, forall_eq_or_imp]
      exact ⟨⟨n, rfl⟩, hrest⟩
    · next hc =>
      obtain ⟨rfl, -⟩ := compute_eq_error hc
      exact ⟨hrest, rfl, by simp⟩
  · next t _ _ h => exact absurd (by rw [h]; simp) (hs.not_text t)
  · next t _ h => exact absurd (by rw [h]; simp) (hs.not_text t)
  · exact ⟨by simp [Ints], rfl, by simp⟩

theorem perform_numeric (i : Instruction) (hs : s.Ints) :
    Numeric s (s.perform strict i).2 (s.perform strict i).1 := by
  unfold perform
  split
  · refine ⟨?_, rfl, by simp⟩
    simp only [Ints, List.mem_cons, forall_eq_or_imp]
    exact ⟨⟨i.int, rfl⟩, hs⟩
  · exact ⟨hs, rfl, by simp⟩
  · next v rest _ h =>
    have hv : v.IsInt := hs v (by rw [h]; exact List.mem_cons_self)
    refine ⟨?_, rfl, by simp⟩
    simp only [Ints, List.mem_cons, forall_eq_or_imp]
    exact ⟨hv, hv, hs.tail h⟩
  · next h => exact ⟨hs.tail h, rfl, by simp⟩
  · exact binary_numeric _ hs

theorem test_numeric {op : Op} {result : Except Error Bool} {s' : Store} (hs : s.Ints)
    (h : s.test strict op = (result, s')) :
    s'.Ints ∧ s'.mismatches = s.mismatches ∧ ∀ op v, result ≠ .error (.typeMismatch op v) := by
  unfold test at h
  split at h
  · cases h; exact ⟨hs, rfl, by simp⟩
  · next hstack => cases h; exact ⟨hs.tail hstack, rfl, by simp⟩
  · next t _ hstack => exact absurd (by rw [hstack]; simp) (hs.not_text t)

end Store

/-! ## One instruction -/

namespace Execution

/-- What the instruction `i` at `k` may lead to from the store `s`. -/
structure Follows (p : Program) (strict : Bool) (context : Context) (k : Nat) (i : Instruction)
    (s : Store) (y : Execution) : Prop where
  current : y.machine.current = k
  low : 0 ≤ y.machine.next
  high : y.machine.next ≤ p.size
  reason : ∀ stop, y.stop = some stop → ∃ e, stop = .halt e ∧ Reason p strict context k i e
  numeric : s.Ints → y.store.Ints ∧ y.machine.mismatches = s.mismatches ∧
    ∀ op v, y.stop ≠ some (.halt (.typeMismatch op v))

variable {code : List Instruction} {p : Program} {strict : Bool} {context : Context} {k : Nat}
  {i : Instruction} {s t : Store} {x y : Execution} {next : Int} {e : Option Error}

theorem Stands.follows (h : y.Stands t k next e) (hlow : 0 ≤ next) (hhigh : next ≤ p.size)
    (hreason : ∀ err, e = some err → Reason p strict context k i err)
    (hnumeric : s.Ints → s.Numeric t e) : y.Follows p strict context k i s := by
  refine ⟨h.current, by rw [h.next]; exact hlow, by rw [h.next]; exact hhigh, ?_, ?_⟩
  · intro stop hstop
    rw [h.stop] at hstop
    obtain ⟨err, he, rfl⟩ := Option.map_eq_some_iff.mp hstop
    exact ⟨err, rfl, hreason err he⟩
  · intro hs
    obtain ⟨hints, hmism, herror⟩ := hnumeric hs
    refine ⟨by rw [h.store]; exact hints, ?_, ?_⟩
    · rw [← hmism, ← h.store]; rfl
    · intro op v hv
      rw [h.stop] at hv
      obtain ⟨err, he, hhalt⟩ := Option.map_eq_some_iff.mp hv
      cases hhalt
      exact herror op v he

/-- A condition and, unless it holds, a jump to where `land` moves the target. -/
theorem follows_branch (land : Int → Int) (hop : i.op = .ifTest ∨ i.op = .doTest)
    (hk : k < p.size) (hsize : p.targets.size = p.size)
    (hland : ∀ t, p.target? k = some t → 0 ≤ land t ∧ land t ≤ p.size)
    (h : match s.test strict i.op, p.target? k with
      | (.error e, t), _ => y.Stands t k (k + 1) (some e)
      | (.ok true, t), _ => y.Stands t k (k + 1) none
      | (.ok false, t), some j => y.Stands t k (land j) none
      | (.ok false, t), none => y.Stands t k (k + 1) (some (.unresolved k))) :
    y.Follows p strict context k i s := by
  match htest : s.test strict i.op, htarget : p.target? k with
  | (.error e, t), _ =>
    rw [htest] at h
    refine h.follows (by omega) (by omega) ?_ ?_
    · intro err he
      cases he; exact Store.test_reason htest
    · intro hs
      obtain ⟨hints, hmism, herror⟩ := Store.test_numeric hs htest
      exact ⟨hints, hmism, fun op v he => herror op v (by cases he; rfl)⟩
  | (.ok true, t), _ =>
    rw [htest] at h
    refine h.follows (by omega) (by omega) (fun err he => nomatch he) ?_
    intro hs
    obtain ⟨hints, hmism, -⟩ := Store.test_numeric hs htest
    exact ⟨hints, hmism, by simp⟩
  | (.ok false, t), some j =>
    rw [htest, htarget] at h
    obtain ⟨hlow, hhigh⟩ := hland j htarget
    refine h.follows hlow hhigh (fun err he => nomatch he) ?_
    intro hs
    obtain ⟨hints, hmism, -⟩ := Store.test_numeric hs htest
    exact ⟨hints, hmism, by simp⟩
  | (.ok false, t), none =>
    rw [htest, htarget] at h
    refine h.follows (by omega) (by omega) ?_ ?_
    · intro err he
      cases he
      refine .unresolved hop ?_
      rw [Program.target?_natCast] at htarget
      have hlt : k < p.targets.size := by omega
      rw [Array.getElem?_eq_getElem hlt] at htarget ⊢
      simpa using htarget
    · intro hs
      obtain ⟨hints, hmism, -⟩ := Store.test_numeric hs htest
      exact ⟨hints, hmism, by simp⟩

/-- What one instruction of a resolved program may do. -/
theorem carry_follows (hp : Program.resolve code = .ok p) (hnext : x.machine.next = k)
    (hi : code[k]? = some i) (hknown : i.op ∈ Op.known) :
    (x.carry p strict i).Follows p strict context k i x.store := by
  have hsize := Program.size_of_resolve hp
  have hk : k < p.size := by rw [hsize]; exact (List.getElem?_eq_some_iff.mp hi).1
  have htargets : p.targets.size = p.size := by
    rw [(Program.entries_of_resolve hp).2.size, hsize]
  have hfetch : p.fetch? x.machine.next = some i := by rw [hnext, Program.fetch?_of_resolve hp, hi]
  -- where an opener may lead
  have hopener : i.op.isOpener = true → ∀ t, p.target? k = some t → 0 ≤ t ∧ t < p.size := by
    intro ho t ht
    obtain ⟨j, rfl, hc⟩ := Program.exists_closes_of_target hp ⟨i, hi, ho⟩ ht
    have := hc.inside
    omega
  cases hop : i.op with
  | ifTest =>
    have h := carry_if p strict x hop
    rw [hnext, ← hop] at h
    refine follows_branch id (.inl hop) hk htargets ?_ h
    intro t ht
    obtain ⟨hlow, hhigh⟩ := hopener (by rw [hop]; rfl) t ht
    exact ⟨hlow, Int.le_of_lt hhigh⟩
  | doTest =>
    have h := carry_do p strict x hop
    rw [hnext, ← hop] at h
    refine follows_branch p.past (.inr hop) hk htargets ?_ h
    intro t ht
    obtain ⟨hlow, hhigh⟩ := hopener (by rw [hop]; rfl) t ht
    rw [Program.past, if_pos hhigh]
    omega
  | wend =>
    obtain ⟨j, ht, hc, -⟩ := Program.exists_closes_of_wend hp ⟨i, hi, hop⟩
    have h := carry_wend p strict x hop
    rw [hnext, ht] at h
    have := hc.lt
    exact h.follows (by omega) (by omega) (fun err he => nomatch he) fun hs => ⟨hs, rfl, by simp⟩
  | whileMark | endMark =>
    have hmark : i.op = .whileMark ∨ i.op = .endMark := by simp [hop]
    have h := carry_mark p strict x hmark
    rw [hnext] at h
    exact h.follows (by omega) (by omega) (fun err he => nomatch he) fun hs => ⟨hs, rfl, by simp⟩
  | unknown past => rw [hop] at hknown; simp [Op.known] at hknown
  | _ =>
    have h := carry_plain p strict x hfetch (by rw [hop]; rfl)
    rw [hnext] at h
    exact h.follows (by omega) (by omega) (fun err he => Store.perform_reason he)
      fun hs => Store.perform_numeric i hs

/-! ## Runs of instructions -/

/-- The next position is in the code or just behind it, and nothing but a halt with a reason has
stopped the execution. -/
structure Safe (p : Program) (strict : Bool) (context : Context) (x : Execution) : Prop where
  low : 0 ≤ x.machine.next
  high : x.machine.next ≤ p.size
  reason : ∀ stop, x.stop = some stop → ∃ (e : Error) (k : Nat) (i : Instruction), stop = .halt e ∧
    x.machine.current = k ∧ p.code[k]? = some i ∧ Reason p strict context k i e

/-- There are only numbers on the stack, `m` mismatches were met, and if an error is about one it
came from the context. -/
structure Whole (context : Context) (m : Nat) (x : Execution) : Prop where
  ints : x.store.Ints
  mismatches : x.machine.mismatches = m
  error : ∀ op v, x.stop = some (.halt (.typeMismatch op v)) →
    ∃ asked, context asked = some (.typeMismatch op v)

/-- The next instruction of an execution that is not over. -/
theorem Safe.exists_instruction (hp : Program.resolve code = .ok p)
    (hsafe : x.Safe p strict context) (hover : x.isOver p = false) :
    ∃ (k : Nat) (i : Instruction), x.machine.next = k ∧ code[k]? = some i := by
  obtain ⟨-, hlt⟩ := isOver_eq_false.mp hover
  obtain ⟨k, hk⟩ := Int.eq_ofNat_of_zero_le hsafe.low
  exact ⟨k, _, hk, List.getElem?_eq_getElem (by rw [← Program.size_of_resolve hp]; omega)⟩

section
variable (hp : Program.resolve code = .ok p) (hknown : ∀ i ∈ code, i.op ∈ Op.known)

include hp hknown

/-- The next instruction of a safe execution, and what the context says to it. -/
theorem exists_follows (hx : x.Safe p strict context) (hover : x.isOver p = false)
    (answer : Option Error) : ∃ (k : Nat) (i : Instruction) (y : Execution), p.code[k]? = some i ∧
      y.Follows p strict context k i x.store ∧
      x.advance p strict answer = { y with stop := y.stop <|> answer.map .halt } := by
  obtain ⟨k, i, hk, hcode⟩ := hx.exists_instruction hp hover
  have hfetch : p.fetch? x.machine.next = some i := by
    rw [hk, Program.fetch?_of_resolve hp, hcode]
  refine ⟨k, i, _, ?_, carry_follows hp hk hcode (hknown _ (List.mem_of_getElem? hcode)),
    advance_eq_carry hover hfetch answer⟩
  rw [← Program.fetch?_natCast, ← hk, hfetch]

theorem advance_safe (hx : x.Safe p strict context) (asked : Nat) :
    (x.advance p strict (context asked)).Safe p strict context := by
  cases hover : x.isOver p with
  | true => rw [advance_of_isOver hover]; exact hx
  | false =>
    obtain ⟨k, i, y, hi, hy, hadvance⟩ := exists_follows hp hknown hx hover (context asked)
    rw [hadvance]
    refine ⟨hy.low, hy.high, ?_⟩
    intro stop hstop
    match hys : y.stop, hanswer : context asked with
    | some stop', _ =>
      obtain rfl : stop' = stop := by simpa [hys] using hstop
      obtain ⟨e, rfl, hreason⟩ := hy.reason stop' hys
      exact ⟨e, k, i, rfl, hy.current, hi, hreason⟩
    | none, some e =>
      obtain rfl : Stop.halt e = stop := by simpa [hys, hanswer] using hstop
      exact ⟨e, k, i, rfl, hy.current, hi, .context asked hanswer⟩
    | none, none => simp [hys, hanswer] at hstop

theorem after_safe (hx : x.Safe p strict context) (asked n : Nat) :
    (x.after p strict context asked n).Safe p strict context :=
  after_invariant hx (fun _ k hy => advance_safe hp hknown hy k) n

theorem advance_whole {m : Nat} (hsafe : x.Safe p strict context) (hx : x.Whole context m)
    (asked : Nat) : (x.advance p strict (context asked)).Whole context m := by
  cases hover : x.isOver p with
  | true => rw [advance_of_isOver hover]; exact hx
  | false =>
    obtain ⟨k, i, y, -, hy, hadvance⟩ := exists_follows hp hknown hsafe hover (context asked)
    obtain ⟨hints, hmism, herror⟩ := hy.numeric hx.ints
    rw [hadvance]
    refine ⟨hints, hmism.trans hx.mismatches, ?_⟩
    intro op v hv
    match hys : y.stop, hanswer : context asked with
    | some stop, _ =>
      obtain rfl : stop = .halt (.typeMismatch op v) := by simpa [hys] using hv
      exact absurd hys (herror op v)
    | none, some e =>
      obtain rfl : e = .typeMismatch op v := by simpa [hys, hanswer] using hv
      exact ⟨asked, hanswer⟩
    | none, none => simp [hys, hanswer] at hv

theorem after_whole {m : Nat} (hsafe : x.Safe p strict context) (hx : x.Whole context m)
    (asked n : Nat) : (x.after p strict context asked n).Whole context m := by
  have hstep : ∀ (y : Execution) (k : Nat), y.Safe p strict context ∧ y.Whole context m →
      (y.advance p strict (context k)).Safe p strict context ∧
        (y.advance p strict (context k)).Whole context m :=
    fun y k hy => ⟨advance_safe hp hknown hy.1 k, advance_whole hp hknown hy.1 hy.2 k⟩
  exact (after_invariant ⟨hsafe, hx⟩ hstep n).2

end

end Execution

/-- The operations of every word are known. -/
theorem lex_known (source : Source) : ∀ i ∈ source.lex.1, i.op ∈ Op.known := by
  intro i hi
  simp only [Source.lex, List.mem_map] at hi
  obtain ⟨word, -, rfl⟩ := hi
  unfold Instruction.classify
  split
  · exact List.mem_cons_self
  · split
    · next h => exact List.mem_of_find?_eq_some h
    · simp [Instruction.ofWord, Op.known]

/-- **Resolved programs run safely.** Whatever the stack, the context and the number of
instructions: the next position is in the code or just behind it; a run that returns without an
error has reached the end; an error that it returns has a reason in the instruction that was the
last, or comes from the context. With only numbers on the stack at the start there are only numbers
on it ever after, and no mismatches. -/
theorem run_safe {code : List Instruction} {s s' : Session}
    (hp : Program.resolve code = .ok s.program) (hknown : ∀ i ∈ code, i.op ∈ Op.known)
    (hs : s.Steady) (hlow : 0 ≤ s.machine.next) (hhigh : s.machine.next ≤ s.program.size)
    {context : Context} {fuel : Nat} {outcome : Outcome}
    (hrun : s.run context fuel = (outcome, s')) :
    (0 ≤ s'.machine.next ∧ s'.machine.next ≤ s.program.size) ∧
    (outcome = .ended none → s'.machine.next = s.program.size) ∧
    (∀ e, outcome = .ended (some e) →
      (∃ (k : Nat) (i : Instruction), s'.machine.current = k ∧ code[k]? = some i ∧
        Reason s.program s.strict context k i e) ∧
      (e.isCrash = true ∨ e.isExit = true → ∃ asked, context asked = some e)) ∧
    ((∀ v ∈ s.machine.stack, v.IsInt) →
      (∀ v ∈ s'.machine.stack, v.IsInt) ∧ s'.machine.mismatches = s.machine.mismatches ∧
      ∀ op v, outcome = .ended (some (.typeMismatch op v)) →
        ∃ asked, context asked = some (.typeMismatch op v)) := by
  obtain ⟨s'', hrun', hsettles⟩ := Session.run_of_steady hs context fuel
  rw [hrun] at hrun'
  obtain ⟨hout, rfl⟩ := Prod.mk.inj hrun'
  have hstart : Execution.Safe s.program s.strict context { machine := s.machine } :=
    ⟨hlow, hhigh, fun stop hstop => nomatch hstop⟩
  have hsafe : (s.execution context 0 fuel).Safe s.program s.strict context :=
    Execution.after_safe hp hknown hstart 0 fuel
  have hfault : ∀ f, (s.execution context 0 fuel).stop ≠ some (.fault f) := by
    intro f hf
    obtain ⟨e, k, i, hstop, -⟩ := hsafe.reason _ hf
    cases hstop
  rw [hout, hsettles.machine]
  refine ⟨⟨hsafe.low, hsafe.high⟩, ?_, ?_, ?_⟩
  · intro hend
    obtain ⟨-, hnext⟩ := Session.stop_of_outcomeOf hend hfault
    have := hnext rfl
    have := hsafe.high
    omega
  · intro e he
    obtain ⟨hstop, -⟩ := Session.stop_of_outcomeOf he hfault
    obtain ⟨e', k, i, hhalt, hcurrent, hi, hreason⟩ := hsafe.reason _ hstop
    cases hhalt
    refine ⟨⟨k, i, hcurrent, ?_, hreason⟩, hreason.context_of_crash⟩
    rw [← Program.code_of_resolve hp, Array.getElem?_toList]; exact hi
  · intro hints
    have hwhole : (s.execution context 0 fuel).Whole context s.machine.mismatches :=
      Execution.after_whole hp hknown hstart ⟨hints, rfl, fun op v hv => nomatch hv⟩ 0 fuel
    refine ⟨hwhole.ints, hwhole.mismatches, fun op v he => hwhole.error op v ?_⟩
    exact (Session.stop_of_outcomeOf he hfault).1

/-- The program of `7 0 /`. -/
def Program.sevenByZero : Program := ⟨#[.push 7, .push 0, { op := .div }], #[none, none, none]⟩

theorem run_safe_division : ∃ s s' : Session,
    Program.resolve (Source.lex ⟨bytes "7 0 /", none⟩).1 = .ok s.program ∧ s.Steady ∧
    s.run .never 3 = (.ended (some .divisionByZero), s') ∧ s'.machine.next ≤ s.program.size ∧
    ∀ v ∈ s'.machine.stack, v.IsInt := by
  have hlex : (Source.lex ⟨bytes "7 0 /", none⟩).1 = Program.sevenByZero.code.toList := by
    decide +kernel
  have hp : Program.resolve (Source.lex ⟨bytes "7 0 /", none⟩).1 = .ok Program.sevenByZero := by
    rw [hlex]; rfl
  have hs := Session.steady_inMemory Program.sevenByZero []
  have hrun : (Session.inMemory Program.sevenByZero []).run .never 3 =
      (.ended (some .divisionByZero), ((Session.inMemory Program.sevenByZero []).run .never 3).2) :=
    Prod.ext (by decide +kernel) rfl
  obtain ⟨⟨-, hhigh⟩, -, -, hints⟩ :=
    run_safe hp (lex_known _) hs (by decide) (by decide) hrun
  exact ⟨_, _, hp, hs, hrun, hhigh, (hints (by simp [Session.inMemory])).1⟩

end WordStack

import WordStack.Proofs.Program.Erasure
import WordStack.Proofs.Session.Relocation

/-!
# Words with no meaning change nothing

A program does what it does without its words: while it carries out a word, the program without
words stands still, and all other instructions are carried out in both.

* `Program.moves_withoutWords`: an instruction that stays is found again, and so is where it leads.
* `Relocated.word`: a word is a step of the one program alone.
* `exists_ahead_withoutWords`, `exists_ahead_withWords`: each execution can be followed in the
  other. Behind a word there are only finitely many more before an instruction that stays, or the
  end (`exists_past_words`).
* `run_withoutWords`: resolving and running, with and without the words.
-/
namespace WordStack

section
variable {code : List Instruction} {p q : Program} (hp : Program.resolve code = .ok p)
  (hq : Program.resolve (withoutWords code) = .ok q)

include hp hq

theorem Program.moves_withoutWords {k : Nat} {i : Instruction} (hi : code[k]? = some i)
    (hop : i.op ≠ .word) : p.Moves q (keptPosition code) k i := by
  have htable := tableErased_of_resolve hp hq
  have hk : KeepsAt code k := ⟨i, hi, hop⟩
  have hsucc : ∀ n : Nat, KeepsAt code n → keptPosition code (n + 1) = kept code n + 1 := by
    rintro n ⟨j, hj, hjop⟩
    have hcast : ((n : Int) + 1) = ((n + 1 : Nat) : Int) := by omega
    rw [hcast, keptPosition_natCast, kept_succ_of_keeps hj hjop]; omega
  refine ⟨?_, ?_, ?_, ?_, ?_⟩
  · rw [fetch?_of_resolve hp, hi]
  · rw [keptPosition_natCast, fetch?_of_resolve hq, getElem?_withoutWords hi hop]
  · rw [hsucc k hk, keptPosition_natCast]
  · rw [keptPosition_natCast, target?_withoutWords htable hk]
  · intro t ht
    obtain ⟨n, rfl, hn⟩ := exists_keepsAt_of_target htable ht
    have hlt : (n : Int) < p.size := by rw [size_of_resolve hp]; exact_mod_cast hn.lt
    have hlt' : (kept code n : Int) < q.size := by
      rw [size_of_resolve hq, ← kept_length]; exact_mod_cast hn.kept_lt hn.lt
    rw [keptPosition_natCast, past_of_lt hlt, past_of_lt hlt', hsucc n hn]

end

namespace Execution

variable {code : List Instruction} {p q : Program} {strict : Bool} {x y : Execution}
  {i : Instruction} {f : Int → Int}

/-- A word takes the next position on and does nothing else. -/
theorem Relocated.word (h : x.Relocated f y) (hover : x.isOver p = false)
    (hi : p.fetch? x.machine.next = some i) (hop : i.op = .word)
    (hf : f (x.machine.next + 1) = f x.machine.next) :
    (x.advance p strict none).machine.next = x.machine.next + 1 ∧
      (x.advance p strict none).Relocated f y := by
  obtain ⟨hstop, -⟩ := isOver_eq_false.mp hover
  have hstands := carry_plain p strict x hi (by rw [hop]; rfl)
  have hnothing : x.store.perform strict i = (none, x.store) := by simp [Store.perform, hop]
  rw [hnothing] at hstands
  rw [advance_eq_carry hover hi]
  refine ⟨hstands.next, ?_, ?_, ?_⟩
  · exact h.store.trans hstands.store.symm
  · rw [h.next, ← hf]; exact congrArg f hstands.next.symm
  · rw [h.stop, hstop, hstands.stop]; rfl

section
variable (hp : Program.resolve code = .ok p) (hq : Program.resolve (withoutWords code) = .ok q)

include hp hq

/-- If the execution with words is over, so is the one without them. -/
theorem Relocated.isOver_withoutWords (h : x.Relocated (keptPosition code) y)
    (hsafe : x.Safe p strict .never) (hover : x.isOver p = true) : y.isOver q = true := by
  cases hstop : x.stop with
  | some stop => simp [isOver, h.stop, hstop]
  | none =>
    have hend : ¬ x.machine.next < p.size := by simpa [isOver, hstop] using hover
    have hhigh := hsafe.high
    have hlength : x.machine.next = code.length := by rw [← Program.size_of_resolve hp]; omega
    have hnext : y.machine.next = q.size := by
      rw [h.next, hlength, keptPosition_natCast, kept_length, Program.size_of_resolve hq]
    simp [isOver, hnext]

variable (hknown : ∀ i ∈ code, i.op ∈ Op.known)

include hknown

/-- The next instruction of an execution that is not over: a word, at which the other execution
stands still, or one that stays, which both carry out. -/
theorem Relocated.next_instruction (h : x.Relocated (keptPosition code) y)
    (hsafe : x.Safe p strict .never) (hover : x.isOver p = false) :
    ((x.advance p strict none).machine.next = x.machine.next + 1 ∧
      (x.advance p strict none).Relocated (keptPosition code) y) ∨
    (y.isOver q = false ∧
      (x.advance p strict none).Relocated (keptPosition code) (y.advance q strict none)) := by
  obtain ⟨hstop, -⟩ := isOver_eq_false.mp hover
  obtain ⟨k, i, hk, hi⟩ := hsafe.exists_instruction hp hover
  have hfetch : p.fetch? x.machine.next = some i := by rw [hk, Program.fetch?_of_resolve hp, hi]
  by_cases hop : i.op = .word
  · refine .inl (h.word hover hfetch hop ?_)
    have hcast : x.machine.next + 1 = ((k + 1 : Nat) : Int) := by omega
    rw [hcast, hk, keptPosition_natCast, keptPosition_natCast, kept_succ_of_word hi hop]
  · have hmoves := Program.moves_withoutWords hp hq hi hop
    rw [← hk] at hmoves
    refine .inr ⟨isOver_eq_false.mpr ⟨by rw [h.stop, hstop]; rfl, ?_⟩,
      h.advance hover hmoves (hknown i (List.mem_of_getElem? hi))⟩
    rw [h.next]
    exact Program.lt_size_of_fetch? hmoves.image

/-- Where the execution with words is, the one without them comes to be. -/
theorem exists_ahead_withoutWords (h : x.Relocated (keptPosition code) y)
    (hsafe : x.Safe p strict .never) (n : Nat) :
    ∃ m, (x.ahead p strict n).Relocated (keptPosition code) (y.ahead q strict m) := by
  induction n with
  | zero => exact ⟨0, h⟩
  | succ n ih =>
    obtain ⟨m, hm⟩ := ih
    rw [ahead_succ]
    cases hover : (x.ahead p strict n).isOver p with
    | true =>
      rw [advance_of_isOver hover]
      exact ⟨m, hm⟩
    | false =>
      have hsafe' : (x.ahead p strict n).Safe p strict .never := after_safe hp hknown hsafe 0 n
      rcases hm.next_instruction hp hq hknown hsafe' hover with ⟨-, hword⟩ | ⟨-, hboth⟩
      · exact ⟨m, hword⟩
      · exact ⟨m + 1, by rw [ahead_succ]; exact hboth⟩

/-- Behind some words an execution is over, or at an instruction that stays. -/
theorem exists_past_words (h : x.Relocated (keptPosition code) y)
    (hsafe : x.Safe p strict .never) :
    ∃ d, (x.ahead p strict d).Relocated (keptPosition code) y ∧
      ((x.ahead p strict d).isOver p = true ∨ y.isOver q = false ∧
        (x.ahead p strict (d + 1)).Relocated (keptPosition code) (y.advance q strict none)) := by
  -- each word takes the execution closer to the end of the code
  induction hleft : p.size - x.machine.next.toNat generalizing x with
  | zero =>
    have hover : x.isOver p = true := by
      have := hsafe.low
      have hend : ¬ x.machine.next < p.size := by omega
      simp [isOver, hend]
    exact ⟨0, h, .inl hover⟩
  | succ left ih =>
    cases hover : x.isOver p with
    | true => exact ⟨0, h, .inl hover⟩
    | false =>
      rcases h.next_instruction hp hq hknown hsafe hover with ⟨hnext, hword⟩ | hboth
      · have hsafe' : (x.advance p strict none).Safe p strict .never :=
          advance_safe hp hknown hsafe 0
        have hlow := hsafe.low
        obtain ⟨d, hd⟩ := ih hword hsafe' (by omega)
        rw [← ahead_succ_left, ← ahead_succ_left] at hd
        exact ⟨d + 1, hd⟩
      · exact ⟨0, h, .inr hboth⟩

/-- Where the execution without words is, the one with words comes to be. -/
theorem exists_ahead_withWords (h : x.Relocated (keptPosition code) y)
    (hsafe : x.Safe p strict .never) (m : Nat) :
    ∃ n, (x.ahead p strict n).Relocated (keptPosition code) (y.ahead q strict m) := by
  induction m with
  | zero => exact ⟨0, h⟩
  | succ m ih =>
    obtain ⟨n, hn⟩ := ih
    have hsafe' : (x.ahead p strict n).Safe p strict .never := after_safe hp hknown hsafe 0 n
    obtain ⟨d, hd, hover | ⟨-, hboth⟩⟩ := exists_past_words hp hq hknown hn hsafe'
    · -- both are over, so the other one stands still as well
      have hsafe'' : ((x.ahead p strict n).ahead p strict d).Safe p strict .never :=
        after_safe hp hknown hsafe' 0 d
      refine ⟨n + d, ?_⟩
      rw [ahead_succ, ahead_add, advance_of_isOver (hd.isOver_withoutWords hp hq hsafe'' hover)]
      exact hd
    · refine ⟨n + (d + 1), ?_⟩
      rw [ahead_succ, ahead_add]
      exact hboth

end

end Execution

/-! ## Runs -/

namespace Session

section
variable {code : List Instruction} {s s' t t' : Session}
  (hp : Program.resolve code = .ok s.program)
  (hq : Program.resolve (withoutWords code) = .ok t.program)
  (hknown : ∀ i ∈ code, i.op ∈ Op.known) (hlow : 0 ≤ s.machine.next)
  (hhigh : s.machine.next ≤ s.program.size) (hs : s.Steady) (ht : t.Steady)
  (hst : s.StartsAs (keptPosition code) t)

include hp hq hknown hlow hhigh hs ht hst

theorem run_of_withWords {n : Nat} {error : Option Error}
    (hrun : s.run .never n = (.ended error, s')) :
    ∃ m t', t.run .never m =
        (.ended (error.map (Error.relocate (keptPosition code))), t') ∧
      Alike (keptPosition code) s s' t t' := by
  have hfault := execution_not_fault hp hknown hlow hhigh .never n
  have hsafe := execution_safe hp hknown hlow hhigh .never
  obtain ⟨hout, hleaves, hmachine⟩ := outcome_of_run hs hfault hrun
  obtain ⟨m, hm⟩ := Execution.exists_ahead_withoutWords hp hq hknown hst.relocated (hsafe 0) n
  have hboth : (s.execution .never 0 n).Relocated (keptPosition code) (t.execution .never 0 m) := by
    rw [execution, execution, hst.strict]; exact hm
  have hover := hboth.isOver_withoutWords hp hq (hsafe n) (isOver_of_outcomeOf hout)
  obtain ⟨t', hrun', hleaves', hmachine'⟩ := run_of_outcome ht
    (not_fault_of_relocated hboth hfault) (outcomeOf_relocated hboth hover hout hfault)
  rw [hboth.store] at hleaves'
  exact ⟨m, t', hrun', ⟨_, hleaves, hleaves'⟩, by rw [hmachine, hmachine', hboth.next]⟩

theorem run_of_withoutWords {m : Nat} {error : Option Error}
    (hrun : t.run .never m = (.ended error, t')) :
    ∃ n error' s', s.run .never n = (.ended error', s') ∧
      error = error'.map (Error.relocate (keptPosition code)) ∧
      Alike (keptPosition code) s s' t t' := by
  have hsafe := execution_safe hp hknown hlow hhigh .never
  obtain ⟨n, hn⟩ := Execution.exists_ahead_withWords hp hq hknown hst.relocated (hsafe 0) m
  obtain ⟨d, hd, hend⟩ := Execution.exists_past_words hp hq hknown hn (hsafe n)
  rw [← Execution.ahead_add] at hd hend
  have hfault := execution_not_fault hp hknown hlow hhigh .never (n + d)
  have hboth : (s.execution .never 0 (n + d)).Relocated (keptPosition code)
      (t.execution .never 0 m) := by
    rw [execution, execution, hst.strict]; exact hd
  obtain ⟨hout, hleaves, hmachine⟩ :=
    outcome_of_run ht (not_fault_of_relocated hboth hfault) hrun
  have hover' : (t.execution .never 0 m).isOver t.program = true := isOver_of_outcomeOf hout
  have hover : (s.execution .never 0 (n + d)).isOver s.program = true := by
    rcases hend with hover | ⟨hgoing, -⟩
    · exact hover
    · rw [execution, hst.strict] at hover'
      exact absurd (hover'.symm.trans hgoing) (by decide)
  obtain ⟨error', hout'⟩ := exists_outcomeOf hover
  obtain ⟨s', hrun', hleaves', hmachine'⟩ := run_of_outcome hs hfault hout'
  have hsame := outcomeOf_relocated hboth hover' hout' hfault
  rw [hout] at hsame
  rw [hboth.store] at hleaves
  exact ⟨n + d, error', s', hrun', Outcome.ended.inj hsame, ⟨_, hleaves', hleaves⟩,
    by rw [hmachine, hmachine', hboth.next]⟩

end

end Session

/-- **Words with no meaning change nothing.** Code resolves if and only if it does without its
words, and fails at the same instruction. The targets are the same instructions, at the positions
to which they have moved. A run ends if and only if the run without the words does, with the same
stack, mismatches and printed text, at the position that corresponds, and with the same error but
for the position of an unresolved jump. -/
theorem run_withoutWords (code : List Instruction) :
    ((∃ p, Program.resolve code = .ok p) ↔ ∃ q, Program.resolve (withoutWords code) = .ok q) ∧
    (∀ e, Program.resolve code = .error e → ∃ op k, e = .unmatched op k ∧
      Program.resolve (withoutWords code) = .error (.unmatched op (kept code k))) ∧
    ∀ p q, Program.resolve code = .ok p → Program.resolve (withoutWords code) = .ok q →
      (∀ k, KeepsAt code k →
        q.target? (kept code k) = (p.target? k).map (keptPosition code) ∧
        (∀ t, p.target? k = some t → ∃ n : Nat, t = n ∧ KeepsAt code n) ∧
        ∀ t : Nat, KeepsAt code t →
          (p.target? k = some (t : Int) ↔ q.target? (kept code k) = some (kept code t : Int))) ∧
      ((∀ i ∈ code, i.op ∈ Op.known) → ∀ s t : Session, s.program = p → t.program = q →
        0 ≤ s.machine.next → s.machine.next ≤ s.program.size → s.Steady → t.Steady →
        s.StartsAs (keptPosition code) t →
        (∀ n error s', s.run .never n = (.ended error, s') →
          ∃ m t', t.run .never m =
              (.ended (error.map (Error.relocate (keptPosition code))), t') ∧
            Session.Alike (keptPosition code) s s' t t') ∧
        ∀ m error t', t.run .never m = (.ended error, t') →
          ∃ n error' s', s.run .never n = (.ended error', s') ∧
            error = error'.map (Error.relocate (keptPosition code)) ∧
            Session.Alike (keptPosition code) s s' t t') := by
  refine ⟨?_, ?_, fun p q hp hq => ⟨fun k hk => ?_, ?_⟩⟩
  · rcases Program.resolve_withoutWords code with ⟨p, q, hp, hq, -⟩ | ⟨op, k, hp, hq⟩
    · exact ⟨fun _ => ⟨q, hq⟩, fun _ => ⟨p, hp⟩⟩
    · simp [hp, hq]
  · intro e he
    rcases Program.resolve_withoutWords code with ⟨p, q, hp, -⟩ | ⟨op, k, hp, hq⟩
    · rw [hp] at he; cases he
    · rw [hp] at he; cases he
      exact ⟨op, k, rfl, hq⟩
  · have htable := Program.tableErased_of_resolve hp hq
    exact ⟨Program.target?_withoutWords htable hk,
      fun t ht => Program.exists_keepsAt_of_target htable ht,
      fun t ht => Program.target?_eq_iff_withoutWords htable hk ht⟩
  · rintro hknown s t rfl rfl hlow hhigh hs ht hst
    refine ⟨fun n error s' hrun => ?_, fun m error t' hrun => ?_⟩
    · exact Session.run_of_withWords hp hq hknown hlow hhigh hs ht hst hrun
    · exact Session.run_of_withoutWords hp hq hknown hlow hhigh hs ht hst hrun

/-- The code `a while b dup do dup print 1 - c wend do d`. -/
def Program.wordy : Program where
  code := #[.ofWord (bytes "a"), { op := .whileMark }, .ofWord (bytes "b"), { op := .dup },
    { op := .doTest }, { op := .dup }, { op := .print }, .push 1, { op := .sub },
    .ofWord (bytes "c"), { op := .wend }, { op := .doTest }, .ofWord (bytes "d")]
  targets := #[none, none, none, none, some 10, none, none, none, none, none, some 1, none, none]

/-- The same without the words. -/
def Program.wordless : Program where
  code := #[{ op := .whileMark }, { op := .dup }, { op := .doTest }, { op := .dup },
    { op := .print }, .push 1, { op := .sub }, { op := .wend }, { op := .doTest }]
  targets := #[none, none, some 7, none, none, none, none, some 0, none]

/-- Behind the loop the last `do` finds zero, and no `wend` closes it. -/
theorem run_withoutWords_unclosed : ∃ (s' t' : Session) (m : Nat),
    (Session.inMemory .wordy [.int 2]).run .never 40 = (.ended (some (.unresolved 11)), s') ∧
    (Session.inMemory .wordless [.int 2]).run .never m = (.ended (some (.unresolved 8)), t') ∧
    t'.machine.next = 9 ∧ t'.machine.stack = [] ∧ t'.host.received 0 = bytes "2\n1\n" := by
  have hp : Program.resolve Program.wordy.code.toList = .ok .wordy := rfl
  have hq : Program.resolve (withoutWords Program.wordy.code.toList) = .ok .wordless := rfl
  obtain ⟨-, hruns⟩ := (run_withoutWords _).2.2 _ _ hp hq
  have hrun : (Session.inMemory .wordy [.int 2]).run .never 40 = (.ended (some (.unresolved 11)),
      ((Session.inMemory .wordy [.int 2]).run .never 40).2) :=
    Session.run_eq_of_fst (by decide +kernel)
  obtain ⟨m, t', hrun', ⟨store, hleaves, hleaves'⟩, hnext⟩ :=
    (hruns (by decide) (.inMemory .wordy [.int 2]) (.inMemory .wordless [.int 2]) rfl rfl
      (by decide) (by decide) (Session.steady_inMemory _ _) (Session.steady_inMemory _ _)
      ⟨rfl, rfl, rfl, rfl⟩).1 40 _ _ hrun
  refine ⟨_, t', m, hrun, hrun', ?_, ?_, ?_⟩
  · rw [hnext]; decide +kernel
  · rw [hleaves'.stack, ← hleaves.stack]; decide +kernel
  · have hprinted := hleaves.printed (.direct 0) 0 (Session.feeds_inMemory _ _)
    have hprinted' := hleaves'.printed (.direct 0) 0 (Session.feeds_inMemory _ _)
    rw [hprinted']
    refine Eq.trans hprinted.symm ?_
    decide +kernel

end WordStack

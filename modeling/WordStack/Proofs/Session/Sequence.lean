import WordStack.Proofs.Program.Sequence
import WordStack.Proofs.Session.Relocation

/-!
# Running code behind other code

If code closes all that it opens, then other code can be put behind it: the whole runs as the first
part does up to the end of that, and then as the second part does, with its positions moved on.

* `Program.moves_front`, `Program.moves_behind`: where the instructions of both parts come to stand.
* `ahead_front`: the whole follows the first part as long as that has not come to its end.
* `ahead_behind`: from there on it follows the second part.
* `run_append`: resolving and running of two parts as a whole.
-/
namespace WordStack

/-! ## The parts of a program -/

namespace Program

variable {front code : List Instruction} {p q r : Program} {k : Nat} {i : Instruction}
  (hp : resolve front = .ok p) (hclosed : depth front front.length = 0)
  (hq : resolve code = .ok q) (hr : resolve (front ++ code) = .ok r)

include hp hclosed hq hr

theorem targets_append :
    r.targets = p.targets ++ q.targets.map (Option.map (shifted front.length)) := by
  rcases resolve_append hp hclosed code with ⟨q', hq', hr'⟩ | ⟨op, k, hfail, -⟩
  · rw [hq] at hq'; cases hq'
    rw [hr] at hr'; cases hr'
    rfl
  · rw [hq] at hfail; cases hfail

theorem moves_front (hi : front[k]? = some i) : p.Moves r id k i := by
  have hk : k < front.length := (List.getElem?_eq_some_iff.mp hi).1
  have hsize : p.targets.size = front.length := (foldlM_of_closed hp hclosed).2
  refine ⟨?_, ?_, rfl, ?_, ?_⟩
  · rw [fetch?_of_resolve hp, hi]
  · rw [id, fetch?_of_resolve hr, List.getElem?_append_left hk, hi]
  · rw [id, target?_natCast, target?_natCast, targets_append hp hclosed hq hr,
      Array.getElem?_append_left (by omega), Option.map_id, id]
  · intro t ht
    obtain ⟨n, rfl, hn⟩ := exists_position_of_target hp ht
    have hlt : (n : Int) < p.size := by rw [size_of_resolve hp]; omega
    have hlt' : (n : Int) < r.size := by rw [size_of_resolve hr, List.length_append]; omega
    rw [id, id, past_of_lt hlt, past_of_lt hlt']

theorem moves_behind (hi : code[k]? = some i) : q.Moves r (shifted front.length) k i := by
  have hsize : p.targets.size = front.length := (foldlM_of_closed hp hclosed).2
  refine ⟨?_, ?_, ?_, ?_, ?_⟩
  · rw [fetch?_of_resolve hq, hi]
  · rw [shifted_natCast, fetch?_of_resolve hr, List.getElem?_append_right (by omega),
      Nat.add_sub_cancel_left, hi]
  · simp only [shifted]; omega
  · rw [shifted_natCast, target?_natCast, target?_natCast, targets_append hp hclosed hq hr,
      Array.getElem?_append_right (by omega), hsize, Nat.add_sub_cancel_left, Array.getElem?_map]
    cases q.targets[k]? <;> rfl
  · intro t ht
    obtain ⟨n, rfl, hn⟩ := exists_position_of_target hq ht
    have hlt : (n : Int) < q.size := by rw [size_of_resolve hq]; omega
    have hlt' : shifted front.length n < r.size := by
      rw [shifted_natCast, size_of_resolve hr, List.length_append]; omega
    rw [past_of_lt hlt, past_of_lt hlt']
    simp only [shifted]; omega

end Program

/-! ## Executions -/

namespace Execution

variable {front code : List Instruction} {p q r : Program} {strict : Bool} {x y : Execution}

/-- The second part is over if and only if the whole is. -/
theorem Relocated.isOver_behind (hq : Program.resolve code = .ok q)
    (hr : Program.resolve (front ++ code) = .ok r) (h : x.Relocated (shifted front.length) y) :
    y.isOver r = x.isOver q := by
  have hsize : r.size = front.length + q.size := by
    rw [Program.size_of_resolve hr, Program.size_of_resolve hq, List.length_append]
  have hlt : y.machine.next < r.size ↔ x.machine.next < q.size := by
    rw [h.next, hsize, shifted]; omega
  simp [isOver, h.stop, hlt]

section
variable (hp : Program.resolve front = .ok p) (hclosed : depth front front.length = 0)
  (hq : Program.resolve code = .ok q) (hr : Program.resolve (front ++ code) = .ok r)
  (hknown : ∀ i ∈ front ++ code, i.op ∈ Op.known)

include hp hclosed hq hr hknown

/-- The whole follows its first part, up to where that comes to its end. -/
theorem ahead_front (h : x.Relocated id y) (hsafe : x.Safe p strict .never) (n : Nat)
    (hgoing : ∀ m < n, (x.ahead p strict m).isOver p = false) :
    (x.ahead p strict n).Relocated id (y.ahead r strict n) := by
  have hfront : ∀ i ∈ front, i.op ∈ Op.known := fun i hi =>
    hknown i (List.mem_append_left _ hi)
  refine ahead_relocated h n fun m hm => ⟨hgoing m hm, ?_⟩
  have hsafe' : (x.ahead p strict m).Safe p strict .never := after_safe hp hfront hsafe 0 m
  obtain ⟨k, i, hk, hi⟩ := hsafe'.exists_instruction hp (hgoing m hm)
  rw [hk]
  exact ⟨i, hfront i (List.mem_of_getElem? hi), Program.moves_front hp hclosed hq hr hi⟩

/-- The whole follows its second part. -/
theorem ahead_behind (h : x.Relocated (shifted front.length) y) (hsafe : x.Safe q strict .never)
    (n : Nat) : (x.ahead q strict n).Relocated (shifted front.length) (y.ahead r strict n) := by
  have hcode : ∀ i ∈ code, i.op ∈ Op.known := fun i hi => hknown i (List.mem_append_right _ hi)
  induction n with
  | zero => exact h
  | succ n ih =>
    rw [ahead_succ, ahead_succ]
    cases hover : (x.ahead q strict n).isOver q with
    | true =>
      have hover' := ih.isOver_behind hq hr
      rw [advance_of_isOver hover, advance_of_isOver (hover'.trans hover)]
      exact ih
    | false =>
      have hsafe' : (x.ahead q strict n).Safe q strict .never := after_safe hq hcode hsafe 0 n
      obtain ⟨k, i, hk, hi⟩ := hsafe'.exists_instruction hq hover
      refine ih.advance hover ?_ (hcode i (List.mem_of_getElem? hi))
      rw [hk]
      exact Program.moves_behind hp hclosed hq hr hi

end

end Execution

/-! ## Runs -/

namespace Session

/-- The run of `s` that came to `s'` has printed the text `before` and then done what the run of `b`
that came to `b'` has done, `d` positions further on. -/
structure GoesOn (d : Nat) (before : Bytes) (b b' s s' : Session) : Prop where
  leaves : ∃ store : Store, b.Leaves store b' ∧
    s.Leaves { store with written := before ++ store.written } s'
  next : s'.machine.next = shifted d b'.machine.next

variable {front code : List Instruction} {a a' b b' s : Session} {n : Nat}

/-- The first instruction with which an execution is over. -/
theorem exists_first_over (h : (s.execution .never 0 n).isOver s.program = true) :
    ∃ m ≤ n, (∀ k < m, (s.execution .never 0 k).isOver s.program = false) ∧
      s.execution .never 0 n = s.execution .never 0 m := by
  have hex : ∃ m, (s.execution .never 0 m).isOver s.program = true := ⟨n, h⟩
  refine ⟨Nat.find hex, Nat.find_min' hex h, fun k hk => ?_, ?_⟩
  · exact Bool.eq_false_iff.mpr (Nat.find_min hex hk)
  · exact Execution.ahead_eq_of_isOver h (Nat.find_spec hex)

theorem isOver_eq_false_of_endless (hs : s.Steady) (h : s.Endless) (n : Nat) :
    (s.execution .never 0 n).isOver s.program = false := by
  rw [← outcomeOf_eq_unfinished, ← run_fst_of_steady hs]
  exact h n

theorem endless_of_isOver_eq_false (hs : s.Steady)
    (h : ∀ n, (s.execution .never 0 n).isOver s.program = false) : s.Endless := by
  intro n
  rw [run_fst_of_steady hs, outcomeOf_eq_unfinished]
  exact h n

section
variable {q : Program} (hp : Program.resolve front = .ok a.program)
  (hclosed : depth front front.length = 0) (hq : Program.resolve code = .ok q)
  (hr : Program.resolve (front ++ code) = .ok s.program)
  (hknown : ∀ i ∈ front ++ code, i.op ∈ Op.known) (hlow : 0 ≤ a.machine.next)
  (hhigh : a.machine.next ≤ a.program.size) (has : a.StartsAs id s)

include hp hclosed hq hr hknown hlow hhigh has

/-- The run of the whole is where the run of its first part is. -/
theorem relocated_front (hgoing : ∀ m < n, (a.execution .never 0 m).isOver a.program = false) :
    (a.execution .never 0 n).Relocated id (s.execution .never 0 n) := by
  have hfront : ∀ i ∈ front, i.op ∈ Op.known := fun i hi => hknown i (List.mem_append_left _ hi)
  have hsafe := execution_safe hp hfront hlow hhigh .never 0
  rw [execution, execution, has.strict]
  exact Execution.ahead_front hp hclosed hq hr hknown has.relocated hsafe n hgoing

variable (ha : a.Steady) (hs : s.Steady)

include ha hs

theorem run_of_front_halts {e : Error} (hrun : a.run .never n = (.ended (some e), a')) :
    ∃ s', s.run .never n = (.ended (some e), s') ∧ Alike id a a' s s' := by
  have hfront : ∀ i ∈ front, i.op ∈ Op.known := fun i hi => hknown i (List.mem_append_left _ hi)
  have hfault := execution_not_fault hp hfront hlow hhigh .never n
  obtain ⟨hout, hleaves, hmachine⟩ := outcome_of_run ha hfault hrun
  obtain ⟨hstop, -⟩ := stop_of_outcomeOf hout hfault
  obtain ⟨m, hmn, hgoing, hsame⟩ := exists_first_over (isOver_of_outcomeOf hout)
  have hboth := relocated_front hp hclosed hq hr hknown hlow hhigh has hgoing
  rw [← hsame] at hboth
  have hover : (s.execution .never 0 m).isOver s.program = true := by
    simp [Execution.isOver, hboth.stop, hstop]
  have hout' := outcomeOf_relocated hboth hover hout hfault
  -- the whole is over with the same instruction, so more of them change nothing
  have hsame' : s.execution .never 0 n = s.execution .never 0 m :=
    Execution.after_eq_of_isOver hover hmn
  rw [← hsame'] at hboth hout'
  rw [Option.map_some, Error.relocate_id] at hout'
  obtain ⟨s', hrun', hleaves', hmachine'⟩ :=
    run_of_outcome hs (not_fault_of_relocated hboth hfault) hout'
  rw [hboth.store] at hleaves'
  exact ⟨s', hrun', ⟨_, hleaves, hleaves'⟩, by rw [hmachine, hmachine', hboth.next]⟩

theorem endless_of_front (hendless : a.Endless) : s.Endless := by
  have hgoing := isOver_eq_false_of_endless ha hendless
  refine endless_of_isOver_eq_false hs fun n => ?_
  have hboth := relocated_front hp hclosed hq hr hknown hlow hhigh has fun m (_ : m < n) => hgoing m
  obtain ⟨hstop, hlt⟩ := Execution.isOver_eq_false.mp (hgoing n)
  refine Execution.isOver_eq_false.mpr ⟨by rw [hboth.stop, hstop]; rfl, ?_⟩
  rw [Program.size_of_resolve hp] at hlt
  rw [hboth.next, id, Program.size_of_resolve hr, List.length_append]
  omega

end

section
variable (hp : Program.resolve front = .ok a.program) (hclosed : depth front front.length = 0)
  (hq : Program.resolve code = .ok b.program)
  (hr : Program.resolve (front ++ code) = .ok s.program)
  (hknown : ∀ i ∈ front ++ code, i.op ∈ Op.known) (hlow : 0 ≤ a.machine.next)
  (hhigh : a.machine.next ≤ a.program.size) (has : a.StartsAs id s) (ha : a.Steady)
  (hrun : a.run .never n = (.ended none, a')) (hab : a'.StartsAs (fun _ => 0) b)

include hp hclosed hq hr hknown hlow hhigh has ha hrun hab

/-- The first part has come to its end, and the second one starts with what it has left. -/
theorem relocated_behind : ∃ m, ∀ k,
    ((b.execution .never 0 k).behind (a.execution .never 0 n).written).Relocated
      (shifted front.length) (s.execution .never 0 (m + k)) := by
  have hfront : ∀ i ∈ front, i.op ∈ Op.known := fun i hi => hknown i (List.mem_append_left _ hi)
  have hfault := execution_not_fault hp hfront hlow hhigh .never n
  have hsafe := execution_safe hp hfront hlow hhigh .never n
  obtain ⟨hout, hsettles⟩ := settles_of_run ha hrun
  obtain ⟨hstop, hend⟩ := stop_of_outcomeOf hout.symm hfault
  obtain ⟨m, -, hgoing, hsame⟩ := exists_first_over (isOver_of_outcomeOf hout.symm)
  have hfirst := relocated_front hp hclosed hq hr hknown hlow hhigh has hgoing
  rw [← hsame] at hfirst
  have hlength : (a.execution .never 0 n).machine.next = front.length := by
    have hsize := Program.size_of_resolve hp
    have hhigh' := hsafe.high
    have hend' := hend rfl
    omega
  -- both have what the first part has left, and the second part starts at the position behind it
  have hstart : Execution.Relocated (shifted front.length)
      (Execution.behind (a.execution .never 0 n).written { machine := b.machine })
      (s.execution .never 0 m) := by
    refine ⟨?_, ?_, ?_⟩
    · rw [hfirst.store]
      simp [Execution.store, Execution.behind, hab.stack, hab.mismatches, hsettles.machine]
    · rw [hfirst.next, hlength]
      simp [Execution.behind, hab.next, shifted]
    · rw [hfirst.stop, hstop]; rfl
  have hsafe' : Execution.Safe b.program s.strict .never
      (Execution.behind (a.execution .never 0 n).written { machine := b.machine }) := by
    refine ⟨?_, ?_, fun stop h => ?_⟩
    · simp [Execution.behind, hab.next]
    · simp [Execution.behind, hab.next]
    · cases h
  have hstrict : b.strict = s.strict := by rw [hab.strict, hsettles.tells.strict, has.strict]
  refine ⟨m, fun k => ?_⟩
  have hrest : s.execution .never 0 (m + k) =
      (s.execution .never 0 m).ahead s.program s.strict k := Execution.ahead_add m k
  have hsecond : (b.execution .never 0 k).behind (a.execution .never 0 n).written =
      (Execution.behind (a.execution .never 0 n).written { machine := b.machine }).ahead
        b.program s.strict k := by
    rw [← hstrict]; exact (Execution.after_behind _ k _).symm
  rw [hrest, hsecond]
  exact Execution.ahead_behind hp hclosed hq hr hknown hstart hsafe' k

variable (hb : b.Steady) (hs : s.Steady)

include hb hs

theorem run_of_behind {k : Nat} {error : Option Error}
    (hrun' : b.run .never k = (.ended error, b')) :
    ∃ m s', s.run .never m = (.ended (error.map (Error.relocate (shifted front.length))), s') ∧
      GoesOn front.length (a.execution .never 0 n).written b b' s s' := by
  have hcode : ∀ i ∈ code, i.op ∈ Op.known := fun i hi => hknown i (List.mem_append_right _ hi)
  have hfault := execution_not_fault hq hcode (Int.le_of_eq hab.next.symm)
    (by rw [hab.next]; omega) .never k
  obtain ⟨hout, hleaves, hmachine⟩ := outcome_of_run hb hfault hrun'
  obtain ⟨m, hm⟩ := relocated_behind hp hclosed hq hr hknown hlow hhigh has ha hrun hab
  have hboth := hm k
  have hover : (s.execution .never 0 (m + k)).isOver s.program = true :=
    (hboth.isOver_behind hq hr).trans (isOver_of_outcomeOf hout)
  have hout' := outcomeOf_relocated hboth hover hout hfault
  obtain ⟨s', hwhole, hleaves', hmachine'⟩ :=
    run_of_outcome hs (not_fault_of_relocated hboth hfault) hout'
  rw [hboth.store] at hleaves'
  exact ⟨m + k, s', hwhole, ⟨_, hleaves, hleaves'⟩, by rw [hmachine, hmachine', hboth.next]; rfl⟩

theorem endless_of_behind (hendless : b.Endless) : s.Endless := by
  obtain ⟨m, hm⟩ := relocated_behind hp hclosed hq hr hknown hlow hhigh has ha hrun hab
  refine endless_of_isOver_eq_false hs fun k => ?_
  have hover := (hm k).isOver_behind hq hr
  have hgoing := isOver_eq_false_of_endless hb hendless k
  -- if the whole were over after `k` instructions, it would be after `m` more
  rw [Bool.eq_false_iff]
  intro hk
  have hmore : s.execution .never 0 (m + k) = s.execution .never 0 k :=
    Execution.after_eq_of_isOver hk (by omega)
  rw [hmore, hk] at hover
  exact absurd (hover.trans hgoing) (by decide)

end

end Session

/-- **One piece of code behind another.** If code resolves and closes all that it opens, then other
code can be put behind it. The whole resolves if and only if the second part does, with the targets
of both, and fails where that does. Its run halts if the run of the first part halts, and goes on
for ever if that does. If the first part returns, the whole goes on as the second part does that
starts with the stack and the mismatches that the first one has left. -/
theorem run_append {front : List Instruction} {p : Program} (hp : Program.resolve front = .ok p)
    (hclosed : depth front front.length = 0) (code : List Instruction) :
    ((∃ r, Program.resolve (front ++ code) = .ok r) ↔ ∃ q, Program.resolve code = .ok q) ∧
    (∀ e, Program.resolve (front ++ code) = .error e →
      ∃ op k, e = .unmatched op (front.length + k)) ∧
    (∀ op k, Program.resolve (front ++ code) = .error (.unmatched op (front.length + k)) ↔
      Program.resolve code = .error (.unmatched op k)) ∧
    ∀ q r, Program.resolve code = .ok q → Program.resolve (front ++ code) = .ok r →
      r.targets = p.targets ++ q.targets.map (Option.map (shifted front.length)) ∧
      ((∀ i ∈ front ++ code, i.op ∈ Op.known) → ∀ a s : Session, a.program = p → s.program = r →
        0 ≤ a.machine.next → a.machine.next ≤ a.program.size → a.Steady → s.Steady →
        a.StartsAs id s →
        (∀ n e a', a.run .never n = (.ended (some e), a') →
          ∃ s', s.run .never n = (.ended (some e), s') ∧ Session.Alike id a a' s s') ∧
        (a.Endless → s.Endless) ∧
        ∀ n a', a.run .never n = (.ended none, a') →
          ∃ t : Store, a.Leaves t a' ∧ ∀ b : Session, b.program = q → b.Steady →
            a'.StartsAs (fun _ => 0) b →
            (∀ k error b', b.run .never k = (.ended error, b') →
              ∃ m s', s.run .never m =
                  (.ended (error.map (Error.relocate (shifted front.length))), s') ∧
                Session.GoesOn front.length t.written b b' s s') ∧
            (b.Endless → s.Endless)) := by
  refine ⟨?_, ?_, ?_, fun q r hq hr => ⟨Program.targets_append hp hclosed hq hr, ?_⟩⟩
  · rcases Program.resolve_append hp hclosed code with ⟨q, hq, hr⟩ | ⟨op, k, hq, hr⟩
    · exact ⟨fun _ => ⟨q, hq⟩, fun _ => ⟨_, hr⟩⟩
    · simp [hq, hr]
  · intro e he
    rcases Program.resolve_append hp hclosed code with ⟨q, hq, hr⟩ | ⟨op, k, hq, hr⟩
    · rw [hr] at he; cases he
    · rw [hr] at he; cases he
      exact ⟨op, k, rfl⟩
  · intro op k
    rcases Program.resolve_append hp hclosed code with ⟨q, hq, hr⟩ | ⟨op', k', hq, hr⟩
    · simp [hq, hr]
    · simp [hq, hr]
  · rintro hknown a s rfl rfl hlow hhigh ha hs has
    refine ⟨?_, ?_, ?_⟩
    · intro n e a' hrun
      exact Session.run_of_front_halts hp hclosed hq hr hknown hlow hhigh has ha hs hrun
    · exact Session.endless_of_front hp hclosed hq hr hknown hlow hhigh has ha hs
    · intro n a' hrun
      have hfault := Session.execution_not_fault hp
        (fun i hi => hknown i (List.mem_append_left _ hi)) hlow hhigh .never n
      obtain ⟨-, hleaves, -⟩ := Session.outcome_of_run ha hfault hrun
      refine ⟨_, hleaves, ?_⟩
      rintro b rfl hb hab
      refine ⟨fun k error b' hrun' => ?_, ?_⟩
      · exact Session.run_of_behind hp hclosed hq hr hknown hlow hhigh has ha hrun hab hb hs hrun'
      · exact Session.endless_of_behind hp hclosed hq hr hknown hlow hhigh has ha hrun hab hb hs

/-- The code `while dup do dup print 1 - wend`. -/
def Program.counting : Program where
  code := #[{ op := .whileMark }, { op := .dup }, { op := .doTest }, { op := .dup },
    { op := .print }, .push 1, { op := .sub }, { op := .wend }]
  targets := #[none, none, some 7, none, none, none, none, some 0]

/-- The code `print 0 do`. -/
def Program.openEnded : Program where
  code := #[{ op := .print }, .push 0, { op := .doTest }]
  targets := #[none, none, none]

/-- The second one behind the first. -/
def Program.countingOn : Program where
  code := Program.counting.code ++ Program.openEnded.code
  targets := #[none, none, some 7, none, none, none, none, some 0, none, none, none]

/-- The loop counts down to zero, which the code behind it prints before it halts at a `do` that no
`wend` closes. -/
theorem run_append_unclosed : ∃ (a' b' s' : Session) (m : Nat),
    (Session.inMemory .counting [.int 2]).run .never 40 = (.ended none, a') ∧
    (Session.inMemory .openEnded a'.machine.stack).run .never 40 =
      (.ended (some (.unresolved 2)), b') ∧
    (Session.inMemory .countingOn [.int 2]).run .never m = (.ended (some (.unresolved 10)), s') ∧
    s'.machine.next = 11 ∧ s'.machine.stack = [] ∧ s'.host.received 0 = bytes "2\n1\n0\n" := by
  have hp : Program.resolve Program.counting.code.toList = .ok .counting := rfl
  have hq : Program.resolve Program.openEnded.code.toList = .ok .openEnded := rfl
  have hr : Program.resolve (Program.counting.code.toList ++ Program.openEnded.code.toList) =
      .ok .countingOn := rfl
  obtain ⟨-, hruns⟩ := (run_append hp (by decide) _).2.2.2 _ _ hq hr
  have hrun : (Session.inMemory .counting [.int 2]).run .never 40 = (.ended none,
      ((Session.inMemory .counting [.int 2]).run .never 40).2) :=
    Session.run_eq_of_fst (by decide +kernel)
  obtain ⟨t, hleaves, hbehind⟩ :=
    (hruns (by decide) (.inMemory .counting [.int 2]) (.inMemory .countingOn [.int 2]) rfl rfl
      (by decide) (by decide) (Session.steady_inMemory _ _) (Session.steady_inMemory _ _)
      ⟨rfl, rfl, rfl, rfl⟩).2.2 40 _ hrun
  have hrun' : (Session.inMemory .openEnded [.int 0]).run .never 40 =
      (.ended (some (.unresolved 2)), ((Session.inMemory .openEnded [.int 0]).run .never 40).2) :=
    Session.run_eq_of_fst (by decide +kernel)
  have hstack : ((Session.inMemory .counting [.int 2]).run .never 40).2.machine.stack =
      [.int 0] := by decide +kernel
  obtain ⟨m, s', hwhole, ⟨store, hleaves', hleaves''⟩, hnext⟩ :=
    (hbehind (.inMemory .openEnded [.int 0]) rfl (Session.steady_inMemory _ _)
      ⟨by decide +kernel, hstack.symm, by decide +kernel, rfl⟩).1 40 _ _ hrun'
  refine ⟨_, _, s', m, hrun, by rw [hstack]; exact hrun', hwhole, ?_, ?_, ?_⟩
  · rw [hnext]; decide +kernel
  · rw [hleaves''.stack, ← hleaves'.stack]; decide +kernel
  · have hprinted := hleaves.printed (.direct 0) 0 (Session.feeds_inMemory _ _)
    have hprinted' := hleaves'.printed (.direct 0) 0 (Session.feeds_inMemory _ _)
    rw [hleaves''.printed (.direct 0) 0 (Session.feeds_inMemory _ _)]
    have htext : t.written ++ store.written =
        ((Session.inMemory .counting [.int 2]).run .never 40).2.host.received 0 ++
          ((Session.inMemory .openEnded [.int 0]).run .never 40).2.host.received 0 := by
      rw [hprinted, hprinted']; rfl
    exact htext.trans (by decide +kernel)

end WordStack

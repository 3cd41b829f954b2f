import Mathlib.Logic.Relation
import WordStack.Proofs.Session.Progress
import WordStack.Proofs.Session.Safety

/-!
# Runs that are called off

The context is asked behind every instruction, so a run that it calls off has carried out a whole
number of instructions: one more than the number of times that the context let it go on. It stands
where the run that nobody calls off stands after so many of them, and can be taken up again there.

* `Execution.after_of_callsOff`, `Execution.after_succ_of_callsOff`: an execution under a context
  that calls it off, by the one that nobody calls off.
* `Execution.after_behind`: what was written before changes nothing.
* `Session.Continues`: a session stands where another one is after some of its instructions.
  `Session.Continues.whole_of_rest` and `Session.Continues.rest_of_whole` compare the runs of both.
* `run_interrupted`: a run that is called off is the beginning of the run that is not, and a run
  behind any number of such ones ends as the one run does.
-/
namespace WordStack

/-- The context lets a run go on `k` times and then calls it off. -/
structure Context.CallsOff (c : Context) (k : Nat) (e : Error) : Prop where
  before : ∀ j < k, c j = none
  answer : c k = some e

/-! ## Executions -/

namespace Execution

variable {p : Program} {strict : Bool} {c c' : Context} {asked k n : Nat} {e : Error}
  {x : Execution}

/-- Only what the context says in the course of the execution matters. -/
theorem after_congr (h : ∀ j < n, c (asked + j) = c' (asked + j)) :
    x.after p strict c asked n = x.after p strict c' asked n := by
  induction n with
  | zero => rfl
  | succ n ih =>
    rw [after_succ', after_succ', ih fun j hj => h j (by omega), h n (by omega)]

theorem after_of_callsOff (h : c.CallsOff k e) (hn : n ≤ k) :
    x.after p strict c 0 n = x.ahead p strict n := by
  apply after_congr
  intro j hj
  rw [Nat.zero_add, h.before j (by omega)]; rfl

/-- The instruction to which the context answers with an error. -/
theorem after_succ_of_callsOff (h : c.CallsOff k e)
    (hover : (x.ahead p strict k).isOver p = false) :
    x.after p strict c 0 (k + 1) = { x.ahead p strict (k + 1) with
      stop := (x.ahead p strict (k + 1)).stop <|> some (.halt e) } := by
  have hahead : x.ahead p strict (k + 1) = (x.ahead p strict k).advance p strict none :=
    after_succ' k
  rw [after_succ', after_of_callsOff h (Nat.le_refl k), Nat.zero_add, h.answer, hahead]
  simp [advance, hover]

/-- An execution that is not over was not called off. -/
theorem answer_eq_none (h : (x.after p strict c asked (n + 1)).isOver p = false) :
    c (asked + n) = none := by
  rw [after_succ'] at h
  obtain ⟨hstop, -⟩ := isOver_eq_false.mp h
  cases hover : (x.after p strict c asked n).isOver p with
  | true =>
    rw [advance_of_isOver hover, hover] at h
    cases h
  | false => simp_all [advance]

/-! What was written before. -/

/-- The execution with a text in front of what it has written. -/
def behind (text : Bytes) (x : Execution) : Execution := { x with written := text ++ x.written }

theorem play_behind (text : Bytes) (script : Script) (out : Bytes) :
    script.play (text ++ out) = (script.play out).behind text := by
  induction script generalizing out with
  | note n m rest ih => exact ih out
  | write t m rest ih => simp only [Script.play, List.append_assoc, ih]
  | _ => rfl

theorem advance_behind (text : Bytes) (answer : Option Error) (x : Execution) :
    (x.behind text).advance p strict answer = (x.advance p strict answer).behind text := by
  cases hover : x.isOver p with
  | true =>
    have hover' : (x.behind text).isOver p = true := hover
    rw [advance_of_isOver hover, advance_of_isOver hover']
  | false =>
    have hover' : (x.behind text).isOver p = false := hover
    simp only [advance, hover, hover', Bool.false_eq_true, if_false]
    simp only [behind, play_behind]

theorem after_behind (text : Bytes) (n : Nat) (x : Execution) :
    (x.behind text).after p strict c asked n = (x.after p strict c asked n).behind text := by
  induction n with
  | zero => rfl
  | succ n ih => rw [after_succ', after_succ', ih, advance_behind]

end Execution

namespace Session

/-- The session `t` has the machine of `u`, and its sinks, which `s` feeds, have received all that
`u` has printed to them. -/
structure Delivers (s u t : Session) : Prop where
  machine : t.machine = u.machine
  received : ∀ w i, s.Feeds w i → t.host.received i = u.printed w i

/-- A run of `s` that came to `t` was called off: it returned what its context said to its last
instruction, and that instruction did not halt by itself. -/
def CalledOff (s t : Session) : Prop :=
  ∃ c k e, s.EndsAt c (k + 1) (some e) t ∧ c k = some e ∧
    ∀ reason, (s.run .never (k + 1)).1 ≠ .ended (some reason)

/-- The session `t` stands where the run of `s` that nobody calls off is after `n` instructions. -/
structure Continues (s : Session) (n : Nat) (t : Session) : Prop where
  stop : (s.execution .never 0 n).stop = none
  machine : t.machine = (s.execution .never 0 n).machine
  tells : Tells (s.execution .never 0 n).written s t

variable {s t u : Session} {c : Context} {k m n : Nat} {e : Error} {error : Option Error}

theorem heading_of_listing (h : s.listing = none) : s.heading = [] := by simp [heading, h]

/-! ## Taking a run up again -/

theorem continues_refl (s : Session) : s.Continues 0 s :=
  ⟨rfl, rfl, tells_setMachine s s.machine⟩

/-- The rest of an execution, by what was carried out before. -/
theorem Continues.execution (h : s.Continues n t) (m : Nat) : s.execution .never 0 (n + m) =
    (t.execution .never 0 m).behind (s.execution .never 0 n).written := by
  have hstart : s.execution .never 0 n =
      Execution.behind (s.execution .never 0 n).written { machine := t.machine } := by
    rw [h.machine, Execution.behind, List.append_nil, ← h.stop]
  have hrest : t.execution .never 0 m =
      Execution.ahead s.program s.strict m { machine := t.machine } := by
    rw [Session.execution, h.tells.program, h.tells.strict]; rfl
  calc s.execution .never 0 (n + m)
      = (s.execution .never 0 n).ahead s.program s.strict m := Execution.ahead_add n m
    _ = (Execution.behind (s.execution .never 0 n).written { machine := t.machine }).ahead
          s.program s.strict m := by rw [← hstart]
    _ = (t.execution .never 0 m).behind (s.execution .never 0 n).written := by
          rw [hrest]; exact Execution.after_behind _ m _

theorem Continues.trans (h : s.Continues n t) (h' : t.Continues m u) : s.Continues (n + m) u := by
  refine ⟨?_, ?_, ?_⟩
  · rw [h.execution]; exact h'.stop
  · rw [h.execution]; exact h'.machine
  · rw [h.execution]; exact h.tells.trans h'.tells

theorem Continues.listing (h : s.Continues n t) : t.listing = s.listing := by rw [h.tells.same]

/-- Without a listing a run prints what its execution writes. -/
theorem settles_run (hs : s.Steady) (hlisting : s.listing = none) (c : Context) (n : Nat) :
    s.Settles (s.execution c 0 n) (s.execution c 0 n).written (s.run c n).2 := by
  have h := run_snd_of_steady hs c n
  rwa [heading_of_listing hlisting, List.nil_append] at h

/-- A run that has ended, and not in a fault, delivers what an execution comes to that has the same
machine and the same text. -/
theorem delivers_of_settles {x y : Execution} (h : s.Settles x x.written u)
    (h' : s.Settles y y.written t) (hmachine : y.machine = x.machine)
    (hwritten : y.written = x.written) (hend : outcomeOf s.program y = .ended error)
    (hfault : ∀ f, y.stop ≠ some (.fault f)) : s.Delivers u t := by
  refine ⟨by rw [h'.machine, h.machine, hmachine], ?_⟩
  intro w i hw
  have hmem : w ∈ t.outlet := by rw [h'.tells.outlet]; exact hw.outlet.mem
  rw [← printed_of_flushed (h'.flushed error hend hfault) hmem, h'.printed hw, h.printed hw,
    hwritten]

/-- What is left of a run that is taken up again comes to what the one run comes to. -/
theorem Continues.settles (h : s.Continues n t) (hs : s.Steady) (hlisting : s.listing = none)
    (m : Nat) : s.Settles (s.execution .never 0 (n + m))
      (s.execution .never 0 (n + m)).written (t.run .never m).2 := by
  have ht := settles_run (h.tells.steady hs) (h.listing.trans hlisting) .never m
  rw [h.execution]
  refine ⟨ht.machine, h.tells.trans ht.tells, ?_⟩
  rw [← h.tells.program]
  exact ht.flushed

theorem Continues.run_fst (h : s.Continues n t) (hs : s.Steady) (m : Nat) :
    (t.run .never m).1 = outcomeOf s.program (s.execution .never 0 (n + m)) := by
  rw [run_fst_of_steady (h.tells.steady hs), h.execution, h.tells.program]
  rfl

section
variable (h : s.Continues k u) (hs : s.Steady) (hlisting : s.listing = none)
  (hfault : ∀ c n f, (s.execution c 0 n).stop ≠ some (.fault f))

include h hs hlisting hfault

/-- The rest of a run ends as the one run does. -/
theorem Continues.whole_of_rest (hrun : u.run .never n = (.ended error, t)) :
    ∃ m s', s.run .never m = (.ended error, s') ∧ s.Delivers s' t := by
  have hend : outcomeOf s.program (s.execution .never 0 (k + n)) = .ended error := by
    rw [← h.run_fst hs, hrun]
  have hsettles := h.settles hs hlisting n
  rw [hrun] at hsettles
  refine ⟨k + n, _, run_eq_of_fst (by rw [run_fst_of_steady hs, hend]), ?_⟩
  exact delivers_of_settles (settles_run hs hlisting .never (k + n)) hsettles rfl rfl hend
    (hfault _ _)

/-- If the one run ends, the rest of it does. -/
theorem Continues.rest_of_whole (hrun : s.run .never n = (.ended error, t)) :
    ∃ m u', u.run .never m = (.ended error, u') ∧ s.Delivers t u' := by
  have hout := run_fst_of_steady hs .never n
  have hsettles := settles_run hs hlisting .never n
  rw [hrun] at hout hsettles
  -- the one run is over, so more instructions change nothing
  have hsame : s.execution .never 0 (k + n) = s.execution .never 0 n :=
    Execution.after_eq_of_isOver (isOver_of_outcomeOf hout.symm) (by omega)
  have hend : outcomeOf s.program (s.execution .never 0 (k + n)) = .ended error := by
    rw [hsame]; exact hout.symm
  refine ⟨n, _, run_eq_of_fst (by rw [h.run_fst hs, hend]), ?_⟩
  exact delivers_of_settles hsettles (h.settles hs hlisting n) (by rw [hsame]) (by rw [hsame]) hend
    (hfault _ _)

end

/-! ## Calling a run off -/

/-- The execution of a run behind the instruction with which it is called off. -/
theorem execution_of_callsOff (hoff : c.CallsOff k e)
    (hover : (s.execution .never 0 k).isOver s.program = false) :
    s.execution c 0 (k + 1) = { s.execution .never 0 (k + 1) with
      stop := (s.execution .never 0 (k + 1)).stop <|> some (.halt e) } :=
  Execution.after_succ_of_callsOff hoff hover

/-- A context lets a run go on up to the instruction with which it ends. -/
theorem EndsAt.answer_eq_none (h : s.EndsAt c (k + 1) error t) (hs : s.Steady) {j : Nat}
    (hj : j < k) : c j = none := by
  have hover : (s.execution c 0 (j + 1)).isOver s.program = false :=
    h.isOver_eq_false hs (by omega)
  simpa using Execution.answer_eq_none hover

theorem stop_of_not_halted {x : Execution} {p : Program}
    (h : ∀ reason, outcomeOf p x ≠ .ended (some reason)) : x.stop = none := by
  rcases hstop : x.stop with _ | reason | f
  · rfl
  · exact absurd (by simp [outcomeOf, hstop]) (h reason)
  · exact absurd (by simp [outcomeOf, hstop]) (h (.crashedBy name (.fault f)))

/-- A run whose context answers its last instruction with an error, by that context. -/
theorem EndsAt.callsOff (h : s.EndsAt c (k + 1) error t) (hs : s.Steady) (hanswer : c k = some e) :
    c.CallsOff k e ∧ (s.execution .never 0 k).isOver s.program = false := by
  have hoff : c.CallsOff k e := ⟨fun j hj => h.answer_eq_none hs hj, hanswer⟩
  have hover := h.isOver_eq_false hs (Nat.lt_succ_self k)
  rw [execution, Execution.after_of_callsOff hoff (Nat.le_refl k)] at hover
  exact ⟨hoff, hover⟩

/-- A run whose context says nothing to its last instruction is one that nobody calls off. -/
theorem EndsAt.execution_eq (h : s.EndsAt c (k + 1) error t) (hs : s.Steady)
    (hanswer : c k = none) : s.execution c 0 (k + 1) = s.execution .never 0 (k + 1) := by
  apply Execution.after_congr
  intro j hj
  rw [Nat.zero_add]
  rcases Nat.lt_succ_iff_lt_or_eq.mp hj with hj | rfl
  · exact h.answer_eq_none hs hj
  · exact hanswer

/-- A run that was called off stands where the one run is behind its last instruction. -/
theorem CalledOff.continues (h : s.CalledOff t) (hs : s.Steady) (hlisting : s.listing = none) :
    ∃ n, s.Continues n t := by
  obtain ⟨c, k, e, hends, hanswer, hhalt⟩ := h
  obtain ⟨hoff, hover⟩ := hends.callsOff hs hanswer
  have hsettles := settles_run hs hlisting c (k + 1)
  rw [execution_of_callsOff hoff hover, hends.run] at hsettles
  refine ⟨k + 1, ?_, hsettles.machine, hsettles.tells⟩
  exact stop_of_not_halted fun reason => run_fst_of_steady hs .never (k + 1) ▸ hhalt reason

/-- Any number of runs that were called off, one after the other. -/
theorem exists_continues (hs : s.Steady) (hlisting : s.listing = none)
    (h : Relation.ReflTransGen CalledOff s u) : ∃ n, s.Continues n u := by
  induction h with
  | refl => exact ⟨0, continues_refl s⟩
  | tail _ hoff ih =>
    obtain ⟨n, hn⟩ := ih
    obtain ⟨m, hm⟩ := hoff.continues (hn.tells.steady hs) (hn.listing.trans hlisting)
    exact ⟨n + m, hn.trans hm⟩

section
variable (hs : s.Steady) (hlisting : s.listing = none) (hoff : c.CallsOff k e)
  (hfault : ∀ c n f, (s.execution c 0 n).stop ≠ some (.fault f))

include hs hlisting hoff hfault

/-- A run that ends before it is called off. -/
theorem delivers_of_endsAt (h : s.EndsAt .never n error u) (hn : n ≤ k ∨ n = k + 1 ∧ error ≠ none) :
    ∃ u', s.EndsAt c n error u' ∧ s.Delivers u u' := by
  obtain ⟨hout, hsettles⟩ := settles_of_run hs h.run
  have hbefore : ∀ m < n, s.execution c 0 m = s.execution .never 0 m := fun m hm =>
    Execution.after_of_callsOff hoff (by omega)
  have hsame : s.execution c 0 n = s.execution .never 0 n := by
    rcases hn with hn | ⟨rfl, herror⟩
    · exact Execution.after_of_callsOff hoff hn
    · rw [execution_of_callsOff hoff (h.isOver_eq_false hs (Nat.lt_succ_self k))]
      -- the last instruction halts before the context is asked
      obtain ⟨hstop, -⟩ := stop_of_outcomeOf hout.symm (hfault _ _)
      obtain ⟨reason, rfl⟩ := Option.ne_none_iff_exists'.mp herror
      rw [hstop, Option.map_some, Option.orElse_eq_orElse, Option.orElse_some, ← Option.map_some,
        ← hstop]
  have hends : s.EndsAt c n error (s.run c n).2 := by
    refine endsAt_of_execution hs (by rw [hsame, hout]) ?_
    intro m hm
    rw [hbefore m hm]; exact h.isOver_eq_false hs hm
  refine ⟨_, hends, ?_⟩
  rw [heading_of_listing hlisting, List.nil_append] at hsettles
  exact delivers_of_settles hsettles (settles_run hs hlisting c n) (by rw [hsame]) (by rw [hsame])
    (by rw [hsame, ← hout]) (hfault _ _)

/-- A run that is called off before it ends. -/
theorem delivers_of_callsOff
    (h : ∀ n error u, s.EndsAt .never n error u → ¬ (n ≤ k ∨ n = k + 1 ∧ error ≠ none)) :
    ∃ u', s.EndsAt c (k + 1) (some e) u' ∧ s.Delivers (s.run .never (k + 1)).2 u' ∧
      s.CalledOff u' := by
  have hover : ∀ m ≤ k, (s.execution .never 0 m).isOver s.program = false := by
    intro m hm
    rw [Bool.eq_false_iff]
    intro hover
    obtain ⟨n, error, u, hn, hends⟩ := exists_endsAt hs hover
    exact h n error u hends (.inl (by omega))
  have hhalt : ∀ reason, outcomeOf s.program (s.execution .never 0 (k + 1)) ≠
      .ended (some reason) := by
    intro reason hend
    have hends := endsAt_of_execution hs hend fun m hm => hover m (by omega)
    exact h _ _ _ hends (.inr ⟨rfl, by simp⟩)
  have hlast := execution_of_callsOff hoff (hover k (Nat.le_refl k))
  rw [stop_of_not_halted hhalt] at hlast
  have hend : outcomeOf s.program (s.execution c 0 (k + 1)) = .ended (some e) := by
    rw [hlast]; rfl
  have hends : s.EndsAt c (k + 1) (some e) (s.run c (k + 1)).2 := by
    refine endsAt_of_execution hs hend ?_
    intro m hm
    rw [execution, Execution.after_of_callsOff hoff (by omega)]
    exact hover m (by omega)
  refine ⟨_, hends, ?_, c, k, e, hends, hoff.answer, ?_⟩
  · exact delivers_of_settles (settles_run hs hlisting .never (k + 1))
      (settles_run hs hlisting c (k + 1)) (by rw [hlast]) (by rw [hlast]) hend (hfault _ _)
  · intro reason
    rw [run_fst_of_steady hs]; exact hhalt reason

end

section
variable {code : List Instruction} (hp : Program.resolve code = .ok s.program)
  (hknown : ∀ i ∈ code, i.op ∈ Op.known) (hlow : 0 ≤ s.machine.next)
  (hhigh : s.machine.next ≤ s.program.size)

include hp hknown hlow hhigh

theorem execution_safe (c : Context) (n : Nat) :
    (s.execution c 0 n).Safe s.program s.strict c := by
  have hstart : Execution.Safe s.program s.strict c { machine := s.machine } :=
    ⟨hlow, hhigh, fun stop hstop => nomatch hstop⟩
  exact Execution.after_safe hp hknown hstart 0 n

theorem execution_not_fault (c : Context) (n : Nat) (f : Fault) :
    (s.execution c 0 n).stop ≠ some (.fault f) := by
  intro hf
  obtain ⟨e, k, i, hhalt, -⟩ := (execution_safe hp hknown hlow hhigh c n).reason _ hf
  cases hhalt

theorem exists_reason {reason : Error}
    (h : (s.execution c 0 n).stop = some (.halt reason)) :
    ∃ k i, Reason s.program s.strict c k i reason := by
  obtain ⟨e, k, i, hhalt, -, -, hreason⟩ := (execution_safe hp hknown hlow hhigh c n).reason _ h
  cases hhalt
  exact ⟨k, i, hreason⟩

/-- An error that no instruction gives comes from the context. -/
theorem calledOff_of_foreign (hs : s.Steady) (h : s.EndsAt c n (some e) t)
    (hforeign : ∀ k i, ¬ Reason s.program s.strict .never k i e) : s.CalledOff t := by
  obtain ⟨hout, -⟩ := settles_of_run hs h.run
  obtain ⟨hstop, -⟩ := stop_of_outcomeOf hout.symm (execution_not_fault hp hknown hlow hhigh c n)
  have hown : ∀ m, (s.execution .never 0 m).stop ≠ some (.halt e) := by
    intro m hm
    obtain ⟨k, i, hreason⟩ := exists_reason hp hknown hlow hhigh hm
    exact hforeign k i hreason
  match n with
  | 0 => exact absurd hstop (hown 0)
  | k + 1 =>
    match hanswer : c k with
    | none =>
      -- nobody called it off, so the error is the machine's own
      rw [h.execution_eq hs hanswer] at hstop
      exact absurd hstop (hown (k + 1))
    | some e' =>
      obtain ⟨hoff, hover⟩ := h.callsOff hs hanswer
      rw [execution_of_callsOff hoff hover] at hstop
      cases hnever : (s.execution .never 0 (k + 1)).stop with
      | some stop =>
        rw [hnever] at hstop
        exact absurd (hnever.trans hstop) (hown (k + 1))
      | none =>
        obtain rfl : e' = e := by simpa [hnever] using hstop
        refine ⟨c, k, e', h, hanswer, fun reason hend => ?_⟩
        rw [run_fst_of_steady hs] at hend
        obtain ⟨hsome, -⟩ :=
          stop_of_outcomeOf hend (execution_not_fault hp hknown hlow hhigh .never (k + 1))
        rw [hnever] at hsome
        cases hsome

end

end Session

/-- **A run that is called off is a beginning of the run that is not.** A run that has ended by
itself before the context says something comes to the same under the context. Any other one is
called off behind `k + 1` instructions, where the context lets it go on `k` times, and stands where
the run that nobody calls off is then. However often runs are called off and taken up again, the
last one, which nobody calls off, ends if and only if the one run does, with the same error, machine
and printed text. -/
theorem run_interrupted {code : List Instruction} {s : Session}
    (hp : Program.resolve code = .ok s.program) (hknown : ∀ i ∈ code, i.op ∈ Op.known)
    (hnext : s.machine.next = 0) (hs : s.Steady) (hlisting : s.listing = none) :
    (∀ c k e, c.CallsOff k e →
      (∀ n error u, s.EndsAt .never n error u → n ≤ k ∨ n = k + 1 ∧ error ≠ none →
        ∃ u', s.EndsAt c n error u' ∧ s.Delivers u u') ∧
      ((∀ n error u, s.EndsAt .never n error u → ¬ (n ≤ k ∨ n = k + 1 ∧ error ≠ none)) →
        ∃ u', s.EndsAt c (k + 1) (some e) u' ∧ s.Delivers (s.run .never (k + 1)).2 u' ∧
          s.CalledOff u')) ∧
    (∀ n error u, s.run .never n = (.ended error, u) → u.Flushed) ∧
    ∀ u, Relation.ReflTransGen Session.CalledOff s u →
      (∀ n error u', u.run .never n = (.ended error, u') →
        ∃ m s', s.run .never m = (.ended error, s') ∧ s.Delivers s' u') ∧
      (∀ m error s', s.run .never m = (.ended error, s') →
        ∃ n u', u.run .never n = (.ended error, u') ∧ s.Delivers s' u') ∧
      (∀ c n e t, u.EndsAt c n (some e) t →
        (∀ k i, ¬ Reason s.program s.strict .never k i e) → u.CalledOff t) := by
  have hlow : 0 ≤ s.machine.next := by omega
  have hhigh : s.machine.next ≤ s.program.size := by omega
  have hfault := Session.execution_not_fault hp hknown hlow hhigh
  refine ⟨fun c k e hoff => ⟨?_, ?_⟩, ?_, fun u hu => ?_⟩
  · intro n error u hends hn
    exact Session.delivers_of_endsAt hs hlisting hoff hfault hends hn
  · exact Session.delivers_of_callsOff hs hlisting hoff hfault
  · intro n error u hrun
    obtain ⟨hout, hsettles⟩ := Session.settles_of_run hs hrun
    exact hsettles.flushed error hout.symm (hfault _ _)
  obtain ⟨d, hd⟩ := Session.exists_continues hs hlisting hu
  refine ⟨?_, ?_, ?_⟩
  · intro n error u' hrun
    exact hd.whole_of_rest hs hlisting hfault hrun
  · intro m error s' hrun
    exact hd.rest_of_whole hs hlisting hfault hrun
  · intro c n e t hends hforeign
    have hsafe := Session.execution_safe hp hknown hlow hhigh .never d
    rw [← hd.tells.program, ← hd.tells.strict] at hforeign
    refine Session.calledOff_of_foreign (by rw [hd.tells.program]; exact hp) hknown ?_ ?_
      (hd.tells.steady hs) hends hforeign
    · rw [hd.machine]; exact hsafe.low
    · rw [hd.machine, hd.tells.program]; exact hsafe.high

/-- The program `1 print 2 print`. -/
def Session.printTwice : Session :=
  .inMemory ⟨#[.push 1, { op := .print }, .push 2, { op := .print }], #[none, none, none, none]⟩ []

/-- Called off behind the first `print` and taken up again. -/
theorem run_interrupted_printTwice : ∃ (u u' : Session) (n : Nat),
    Session.printTwice.CalledOff u ∧ u.machine.next = 2 ∧ u.run .never n = (.ended none, u') ∧
    u'.machine.next = 4 ∧ u'.host.received 0 = bytes "1\n2\n" := by
  have hp : Program.resolve Session.printTwice.program.code.toList =
      .ok Session.printTwice.program := rfl
  obtain ⟨-, -, hresume⟩ := run_interrupted hp (by decide) rfl (Session.steady_inMemory _ _) rfl
  have hends : Session.printTwice.EndsAt (.after 1 .canceled) 2 (some .canceled)
      (Session.printTwice.run (.after 1 .canceled) 2).2 := by
    refine ⟨Session.run_eq_of_fst (by decide +kernel), ?_⟩
    decide +kernel
  have hoff : Session.printTwice.CalledOff (Session.printTwice.run (.after 1 .canceled) 2).2 := by
    have hgoing : (Session.printTwice.run .never 2).1 = .unfinished := by decide +kernel
    refine ⟨_, 1, _, hends, rfl, fun reason hend => ?_⟩
    rw [hgoing] at hend
    cases hend
  have hrun : Session.printTwice.run .never 4 = (.ended none, (Session.printTwice.run .never 4).2) :=
    Session.run_eq_of_fst (by decide +kernel)
  obtain ⟨n, u', hu', hdelivers⟩ := (hresume _ (.single hoff)).2.1 4 none _ hrun
  refine ⟨_, u', n, hoff, by decide +kernel, hu', ?_, ?_⟩
  · rw [hdelivers.machine]; decide +kernel
  · rw [hdelivers.received (.direct 0) 0 (Session.feeds_inMemory _ _)]; decide +kernel

end WordStack

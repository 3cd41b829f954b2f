import WordStack.Proofs.Block.Evaluation

/-!
# Flat code does what the block does

The machine at the flat code of a block, wherever that stands in a resolved program, goes through
the store that the evaluation goes through.

* `arrives_of_eval`: an evaluation that ends is matched by so many instructions, which end behind
  the block or halt with the same error.
* `exists_ended`: an execution that is over was matched by an evaluation that ends. Each round of a
  loop takes at least one instruction, so the induction is on their number.
-/
namespace WordStack

/-- The execution goes on at `pos` with the store `s`. -/
structure Execution.At (x : Execution) (s : Store) (pos : Nat) : Prop where
  store : x.store = s
  stop : x.stop = none
  next : x.machine.next = pos

/-- After some instructions the execution has the store `s`, and halts with an error or goes on at
`pos`. -/
def Execution.Arrives (p : Program) (strict : Bool) (x : Execution) (e : Option Error) (s : Store)
    (pos : Nat) : Prop :=
  ∃ n, (x.ahead p strict n).store = s ∧ (x.ahead p strict n).stop = e.map .halt ∧
    (e = none → (x.ahead p strict n).machine.next = pos)

/-- A condition was popped with the result `r`: after some instructions the execution halts, goes on
at `a` if the condition holds, and at `b` if not. -/
def Execution.Forks (p : Program) (strict : Bool) (x : Execution) (r : Except Error Bool × Store)
    (a b : Nat) : Prop :=
  match r with
  | (.error e, u) => x.Arrives p strict (some e) u a
  | (.ok true, u) => x.Arrives p strict none u a
  | (.ok false, u) => x.Arrives p strict none u b

namespace Execution

variable {code : List Instruction} {p : Program} {strict : Bool} {x : Execution} {s t : Store}
  {pos mid : Nat} {e : Option Error}

theorem At.arrives (hx : x.At s pos) : x.Arrives p strict none s pos :=
  ⟨0, hx.store, hx.stop, fun _ => hx.next⟩

theorem Arrives.trans (h : x.Arrives p strict none t mid)
    (hk : ∀ y : Execution, y.At t mid → y.Arrives p strict e s pos) :
    x.Arrives p strict e s pos := by
  obtain ⟨m, hstore, hstop, hnext⟩ := h
  obtain ⟨n, hn⟩ := hk _ ⟨hstore, hstop, hnext rfl⟩
  exact ⟨m + n, by rw [ahead_add]; exact hn⟩

/-- An error is the same wherever the execution would have gone on. -/
theorem Arrives.of_error {e : Error} (h : x.Arrives p strict (some e) s mid) :
    x.Arrives p strict (some e) s pos := by
  obtain ⟨n, hstore, hstop, -⟩ := h
  exact ⟨n, hstore, hstop, fun he => by cases he⟩

theorem arrives_andThen {r : Evaluation} {k : Store → Evaluation} (h : r.andThen k = .ended e t)
    (hr : ∀ e' u, r = .ended e' u → x.Arrives p strict e' u mid)
    (hk : ∀ (u : Store) (y : Execution), y.At u mid → k u = .ended e t →
      y.Arrives p strict e t pos) : x.Arrives p strict e t pos := by
  rcases r with ⟨_ | e', u⟩ | _
  · exact (hr none u rfl).trans fun y hy => hk u y hy h
  · cases h; exact (hr _ _ rfl).of_error
  · cases h

theorem arrives_choose {op : Op} {yes no : Store → Evaluation} {a b : Nat}
    (h : s.choose strict op yes no = .ended e t)
    (hx : x.Forks p strict (s.test strict op) a b)
    (hyes : ∀ (u : Store) (y : Execution), y.At u a → yes u = .ended e t →
      y.Arrives p strict e t pos)
    (hno : ∀ (u : Store) (y : Execution), y.At u b → no u = .ended e t →
      y.Arrives p strict e t pos) : x.Arrives p strict e t pos := by
  unfold Store.choose at h
  rcases htest : s.test strict op with ⟨e' | _ | _, u⟩ <;> rw [htest] at h hx
  · cases h; exact hx.of_error
  · exact hx.trans fun y hy => hno u y hy h
  · exact hx.trans fun y hy => hyes u y hy h

/-! ## One instruction of the code -/

section
variable {i : Instruction} (hp : Program.resolve code = .ok p) (hx : x.At s pos)
  (hi : code[pos]? = some i)

include hp hx hi

theorem At.isOver_eq_false : x.isOver p = false := by
  obtain ⟨hlt, -⟩ := List.getElem?_eq_some_iff.mp hi
  rw [Execution.isOver_eq_false, hx.next, Program.size_of_resolve hp]
  exact ⟨hx.stop, by omega⟩

theorem At.fetch? : p.fetch? x.machine.next = some i := by
  rw [hx.next, Program.fetch?_of_resolve hp, hi]

/-- What one instruction does to the execution. -/
theorem At.arrives_of_stands {current next : Int}
    (h : (x.carry p strict i).Stands t current next e) (hpos : e = none → next = mid) :
    x.Arrives p strict e t mid := by
  refine ⟨1, ?_⟩
  rw [ahead_one (hx.isOver_eq_false hp hi) (hx.fetch? hp hi)]
  exact ⟨h.store, h.stop, fun he => by rw [h.next]; exact hpos he⟩

theorem arrives_plain (hplain : i.op.isPlain = true) :
    x.Arrives p strict (s.perform strict i).1 (s.perform strict i).2 (pos + 1) := by
  have h := carry_plain p strict x (hx.fetch? hp hi) hplain
  rw [hx.store, hx.next] at h
  exact hx.arrives_of_stands hp hi h fun _ => rfl

theorem arrives_mark (hop : i.op = .whileMark ∨ i.op = .endMark) :
    x.Arrives p strict none s (pos + 1) := by
  have h := carry_mark p strict x hop
  rw [hx.store, hx.next] at h
  exact hx.arrives_of_stands hp hi h fun _ => rfl

theorem arrives_wend (hop : i.op = .wend) (ht : p.target? pos = some (mid : Int)) :
    x.Arrives p strict none s mid := by
  have h := carry_wend p strict x hop
  rw [hx.store, hx.next, ht] at h
  exact hx.arrives_of_stands hp hi h fun _ => rfl

/-- An `if` with a target: halted, at the body, or at the target. -/
theorem arrives_if (hop : i.op = .ifTest) (ht : p.target? pos = some (mid : Int)) :
    x.Forks p strict (s.test strict .ifTest) (pos + 1) mid := by
  have h := carry_if p strict x hop
  rw [hx.store, hx.next, ht] at h
  rcases htest : s.test strict .ifTest with ⟨e | _ | _, u⟩ <;> rw [htest] at h <;>
    exact hx.arrives_of_stands hp hi h fun _ => rfl

/-- A `do` with a target: halted, at the body, or past the target. -/
theorem arrives_do (hop : i.op = .doTest) (ht : p.target? pos = some (mid : Int))
    (hmid : mid < code.length) :
    x.Forks p strict (s.test strict .doTest) (pos + 1) (mid + 1) := by
  have hpast : p.past mid = (mid + 1 : Nat) := by
    rw [Program.past, if_pos (by rw [Program.size_of_resolve hp]; omega)]; rfl
  have h := carry_do p strict x hop
  rw [hx.store, hx.next, ht] at h
  rcases htest : s.test strict .doTest with ⟨e | _ | _, u⟩ <;> rw [htest] at h
  · exact hx.arrives_of_stands hp hi h fun _ => rfl
  · exact hx.arrives_of_stands hp hi h fun _ => hpast
  · exact hx.arrives_of_stands hp hi h fun _ => rfl

end

end Execution

open Execution Evaluation

section
variable {code : List Instruction} {p : Program} {strict : Bool}
  (hp : Program.resolve code = .ok p)

include hp

/-- Rounds of a loop in place, if the condition and the body do what their evaluations do. -/
theorem arrives_of_repeatLoop {start : Mark .whileMark} {cond : Block} {test : Mark .doTest}
    {body : Block} {back : Mark .wend} {rest : Block} {fuel pos n : Nat} {x : Execution}
    {s t : Store} {e : Option Error} (hb : Placed code pos (.loop start cond test body back rest))
    (hcond : ∀ {y : Execution} {u v : Store} {e' : Option Error}, y.At u (pos + 1) →
      cond.eval strict fuel u = .ended e' v → y.Arrives p strict e' v (pos + 1 + cond.size))
    (hbody : ∀ {y : Execution} {u v : Store} {e' : Option Error}, y.At u (pos + cond.size + 2) →
      body.eval strict fuel u = .ended e' v →
      y.Arrives p strict e' v (pos + cond.size + 2 + body.size))
    (hx : x.At s pos)
    (h : repeatLoop strict (cond.eval strict fuel) (body.eval strict fuel) n s = .ended e t) :
    x.Arrives p strict e t (pos + cond.size + body.size + 3) := by
  obtain ⟨hstart, htest, hback, -, hdo, hwend, -, -, -⟩ := hb.loop hp
  have hin : pos + cond.size + body.size + 2 < code.length := (List.getElem?_eq_some_iff.mp hback).1
  induction n generalizing x s with
  | zero => cases h
  | succ n ih =>
    refine (arrives_mark hp hx hstart (Or.inl start.property)).trans ?_
    intro y hy
    refine arrives_andThen h (fun _ _ => hcond hy) ?_
    intro u z hz hu
    rw [show pos + 1 + cond.size = pos + cond.size + 1 by omega] at hz
    refine arrives_choose hu (arrives_do hp hz htest test.property hdo hin) ?_ ?_
    · intro v w hw hv
      -- the body, and back to the `while`
      refine arrives_andThen hv (fun _ _ => hbody hw) ?_
      intro v' w' hw' hv'
      rw [show pos + cond.size + 2 + body.size = pos + cond.size + body.size + 2 by omega] at hw'
      exact (arrives_wend hp hw' hback back.property hwend).trans fun z' hz' => ih hz' hv'
    · intro v w hw hv
      cases hv; exact hw.arrives

/-- The code of a block does what its evaluation does. -/
theorem arrives_of_eval (b : Block) {fuel pos : Nat} {x : Execution} {s t : Store}
    {e : Option Error} (hb : Placed code pos b) (hx : x.At s pos)
    (h : b.eval strict fuel s = .ended e t) : x.Arrives p strict e t (pos + b.size) := by
  induction b generalizing pos x s t e with
  | empty => cases h; exact hx.arrives
  | plain i rest ih =>
    obtain ⟨hi, hrest⟩ := hb.plain
    have hstep : x.Arrives p strict _ _ _ := arrives_plain hp hx hi i.property
    simp only [Block.eval] at h
    rcases hperf : s.perform strict i.val with ⟨_ | e', u⟩ <;> rw [hperf] at h hstep
    · refine hstep.trans ?_
      intro y hy
      rw [Block.size_plain, show pos + (rest.size + 1) = pos + 1 + rest.size by omega]
      exact ih hrest hy h
    · cases h; exact hstep.of_error
  | branch test body close rest ihb ihr =>
    obtain ⟨htest, hclose, htarget, hbody, hrest⟩ := hb.branch hp
    rw [Block.size_branch,
      show pos + (body.size + rest.size + 2) = pos + body.size + 2 + rest.size by omega]
    -- both ways meet at the `end`
    have hend : ∀ (u : Store) (y : Execution), y.At u (pos + body.size + 1) →
        rest.eval strict fuel u = .ended e t →
        y.Arrives p strict e t (pos + body.size + 2 + rest.size) := by
      intro u y hy hu
      exact (arrives_mark hp hy hclose (Or.inr close.property)).trans fun z hz => ihr hrest hz hu
    refine arrives_choose h (arrives_if hp hx htest test.property htarget) ?_ hend
    intro u y hy hu
    refine arrives_andThen hu (fun _ _ => ihb hbody hy) ?_
    intro v z hz hv
    exact hend v z (by rwa [show pos + 1 + body.size = pos + body.size + 1 by omega] at hz) hv
  | loop start cond test body back rest ihc ihb ihr =>
    obtain ⟨-, -, -, -, -, -, hcond, hbody, hrest⟩ := hb.loop hp
    rw [Block.size_loop, show pos + (cond.size + body.size + rest.size + 3) =
      pos + cond.size + body.size + 3 + rest.size by omega]
    refine arrives_andThen h ?_ fun u y hy hu => ihr hrest hy hu
    intro e' u hu
    exact arrives_of_repeatLoop hp hb (fun hy hu => ihc hcond hy hu) (fun hy hu => ihb hbody hy hu)
      hx hu

/-! ## From an end of the code to an end of the evaluation -/

omit hp in
/-- What is left of an execution that comes to an end. -/
theorem Execution.Arrives.over {x : Execution} {t : Store} {mid n : Nat}
    (h : x.Arrives p strict none t mid) (hover : (x.ahead p strict n).isOver p = true) :
    ∃ y : Execution, y.At t mid ∧ ∃ m, m ≤ n ∧ (y.ahead p strict m).isOver p = true := by
  obtain ⟨k, hstore, hstop, hnext⟩ := h
  exact ⟨_, ⟨hstore, hstop, hnext rfl⟩, n - k, by omega, isOver_ahead_sub hover k⟩

/-- A `while` takes at least one instruction. -/
theorem over_while {i : Instruction} {x : Execution} {s : Store} {pos n : Nat} (hx : x.At s pos)
    (hi : code[pos]? = some i) (hop : i.op = .whileMark)
    (hover : (x.ahead p strict n).isOver p = true) :
    ∃ y : Execution, y.At s (pos + 1) ∧ ∃ m, m < n ∧ (y.ahead p strict m).isOver p = true := by
  have hrun := hx.isOver_eq_false hp hi
  have hstep : x.Arrives p strict none s (pos + 1) := arrives_mark hp hx hi (Or.inl hop)
  obtain ⟨k, hstore, hstop, hnext⟩ := hstep
  have hnext := hnext rfl
  have hk : k ≠ 0 := by rintro rfl; rw [ahead_zero, hx.next] at hnext; omega
  have hn : n ≠ 0 := by rintro rfl; rw [ahead_zero, hrun] at hover; cases hover
  exact ⟨_, ⟨hstore, hstop, hnext⟩, n - k, by omega, isOver_ahead_sub hover k⟩

/-- A loop in place that comes to an end has an evaluation that does, if this holds of its condition
and its body. -/
theorem exists_ended_loop {start : Mark .whileMark} {cond : Block} {test : Mark .doTest}
    {body : Block} {back : Mark .wend} {rest : Block} {pos : Nat}
    (hb : Placed code pos (.loop start cond test body back rest))
    (hcond : ∀ {y : Execution} {u : Store} {m : Nat}, y.At u (pos + 1) →
      (y.ahead p strict m).isOver p = true → ∃ fuel e t, cond.eval strict fuel u = .ended e t)
    (hbody : ∀ {y : Execution} {u : Store} {m : Nat}, y.At u (pos + cond.size + 2) →
      (y.ahead p strict m).isOver p = true → ∃ fuel e t, body.eval strict fuel u = .ended e t)
    (n : Nat) : ∀ {x : Execution} {s : Store}, x.At s pos → (x.ahead p strict n).isOver p = true →
      ∃ fuel rounds e t, repeatLoop strict (cond.eval strict fuel) (body.eval strict fuel) rounds s =
        .ended e t := by
  obtain ⟨hstart, htest, hback, -, hdo, hwend, hpc, hpb, -⟩ := hb.loop hp
  have hin : pos + cond.size + body.size + 2 < code.length := (List.getElem?_eq_some_iff.mp hback).1
  induction n using Nat.strongRecOn with
  | ind n ih =>
    intro x s hx hover
    obtain ⟨y, hy, m, hmn, hover⟩ := over_while hp hx hstart start.property hover
    obtain ⟨f, e, u, hu⟩ := hcond hy hover
    cases e with
    | some e => exact ⟨f, 1, some e, u, by rw [repeatLoop, hu]; rfl⟩
    | none =>
      obtain ⟨z, hz, m', hm', hover⟩ := (arrives_of_eval hp cond hpc hy hu).over hover
      rw [show pos + 1 + cond.size = pos + cond.size + 1 by omega] at hz
      have hstep : z.Forks p strict _ _ _ := arrives_do hp hz htest test.property hdo hin
      rcases hch : u.test strict .doTest with ⟨e | _ | _, v⟩
      · exact ⟨f, 1, some e, v, by simp [repeatLoop, hu, andThen, Store.choose, hch]⟩
      · exact ⟨f, 1, none, v, by simp [repeatLoop, hu, andThen, Store.choose, hch]⟩
      rw [hch] at hstep
      obtain ⟨w, hw, m₂, hm₂, hover⟩ := hstep.over hover
      obtain ⟨g, e, r, hr⟩ := hbody hw hover
      rcases e with _ | e
      · -- a round is through: the rest of the loop takes fewer instructions
        obtain ⟨z', hz', m₃, hm₃, hover⟩ := (arrives_of_eval hp body hpb hw hr).over hover
        rw [show pos + cond.size + 2 + body.size = pos + cond.size + body.size + 2 by omega] at hz'
        obtain ⟨x', hx', m₄, hm₄, hover⟩ :=
          (arrives_wend hp hz' hback back.property hwend).over hover
        obtain ⟨h, rounds, e, t, ht⟩ := ih m₄ (by omega) hx' hover
        refine ⟨max (max f g) h, rounds + 1, e, t, ?_⟩
        rw [repeatLoop_succ_of_holds (eval_mono (by omega) cond s none u hu) hch
          (eval_mono (by omega) body v none r hr)]
        exact repeatLoop_below (fun q => eval_mono (by omega) cond q)
          (fun q => eval_mono (by omega) body q) (Nat.le_refl _) r e t ht
      · have hu := eval_mono (Nat.le_max_left f g) cond s none u hu
        have hr := eval_mono (Nat.le_max_right f g) body v (some e) r hr
        exact ⟨max f g, 1, some e, r, by simp [repeatLoop, hu, andThen, Store.choose, hch, hr]⟩

/-- If the code of a block comes to an end, so does its evaluation. -/
theorem exists_ended (b : Block) {pos n : Nat} {x : Execution} {s : Store}
    (hb : Placed code pos b) (hx : x.At s pos) (hover : (x.ahead p strict n).isOver p = true) :
    ∃ fuel e t, b.eval strict fuel s = .ended e t := by
  induction b generalizing pos x s n with
  | empty => exact ⟨0, none, s, rfl⟩
  | plain i rest ih =>
    obtain ⟨hi, hrest⟩ := hb.plain
    have hstep : x.Arrives p strict _ _ _ := arrives_plain hp hx hi i.property
    rcases hperf : s.perform strict i.val with ⟨_ | e, u⟩
    · rw [hperf] at hstep
      obtain ⟨y, hy, m, -, hover⟩ := hstep.over hover
      obtain ⟨f, e, t, ht⟩ := ih hrest hy hover
      exact ⟨f, e, t, by simpa [Block.eval, hperf] using ht⟩
    · exact ⟨0, some e, u, by simp [Block.eval, hperf]⟩
  | branch test body close rest ihb ihr =>
    obtain ⟨htest, hclose, htarget, hbody, hrest⟩ := hb.branch hp
    -- both ways meet at the `end`
    have hend : ∀ {u : Store}, x.Arrives p strict none u (pos + body.size + 1) →
        ∃ fuel e t, rest.eval strict fuel u = .ended e t := by
      intro u hu
      obtain ⟨y, hy, m, -, hover⟩ := hu.over hover
      obtain ⟨z, hz, m', -, hover⟩ := (arrives_mark hp hy hclose (Or.inr close.property)).over hover
      exact ihr hrest hz hover
    have hstep : x.Forks p strict _ _ _ := arrives_if hp hx htest test.property htarget
    rcases hch : s.test strict .ifTest with ⟨e | _ | _, v⟩
    · exact ⟨0, some e, v, by simp [Block.eval, Store.choose, hch]⟩
    · rw [hch] at hstep
      simpa [Block.eval, Store.choose, hch] using hend hstep
    · rw [hch] at hstep
      obtain ⟨y, hy, m, -, hover⟩ := hstep.over hover
      obtain ⟨f, e, u, hu⟩ := ihb hbody hy hover
      simp only [Block.eval, Store.choose, hch]
      refine exists_ended_andThen (fun h => eval_mono h body v) (fun u h => eval_mono h rest u) hu ?_
      rintro rfl
      rw [show pos + body.size + 1 = pos + 1 + body.size by omega] at hend
      exact hend (hstep.trans fun _ hy => arrives_of_eval hp body hbody hy hu)
  | loop start cond test body back rest ihc ihb ihr =>
    obtain ⟨-, -, -, -, -, -, hcond, hbody, hrest⟩ := hb.loop hp
    obtain ⟨f, rounds, e, u, hu⟩ := exists_ended_loop hp hb (fun hy => ihc hcond hy)
      (fun hy => ihb hbody hy) n hx hover
    have hu : repeatLoop strict (cond.eval strict (max f rounds)) (body.eval strict (max f rounds))
        (max f rounds) s = .ended e u :=
      repeatLoop_below (fun q => eval_mono (by omega) cond q)
        (fun q => eval_mono (by omega) body q) (by omega) s e u hu
    refine exists_ended_andThen (fun h => repeatLoop_below (fun q => eval_mono h cond q)
      (fun q => eval_mono h body q) h s) (fun q h => eval_mono h rest q) hu ?_
    rintro rfl
    obtain ⟨y, hy, m, -, hover⟩ := (arrives_of_repeatLoop hp hb
      (fun hy hu => arrives_of_eval hp cond hcond hy hu)
      (fun hy hu => arrives_of_eval hp body hbody hy hu) hx hu).over hover
    exact ihr hrest hy hover

end

end WordStack

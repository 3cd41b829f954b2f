import WordStack.Proofs.Machine.Store

/-!
# The same instructions at other positions

Two programs may hold an instruction at different positions: `k` in the one, `f k` in the other. If
the places that it leads to correspond in the same way, then it does the same in both, up to the
positions.

* `Program.Moves p q f k i`: the instruction `i` at `k` of `p` stands at `f k` in `q`.
* `Execution.Relocated f x y`: the execution `y` has come to the same as `x`, with the next position
  moved by `f`.
* `Relocated.advance`: one instruction keeps this.
* `ahead_relocated`: so does a run of instructions, while all of them correspond.
-/
namespace WordStack

/-- An error told of other positions. -/
def Error.relocate (f : Int → Int) : Error → Error
  | .unresolved position => .unresolved (f position)
  | e => e

/-- What ends an execution, told of other positions. -/
def Stop.relocate (f : Int → Int) : Stop → Stop
  | .halt reason => .halt (reason.relocate f)
  | .fault g => .fault g

theorem Error.relocate_id (e : Error) : e.relocate id = e := by cases e <;> rfl

/-- The instruction `i` at `k` of `p` stands at `f k` in `q`, and so do the places that it leads
to. -/
structure Program.Moves (p q : Program) (f : Int → Int) (k : Int) (i : Instruction) : Prop where
  source : p.fetch? k = some i
  image : q.fetch? (f k) = some i
  next : f (k + 1) = f k + 1
  target : q.target? (f k) = (p.target? k).map f
  past : ∀ t, p.target? k = some t → q.past (f t) = f (p.past t)

namespace Program

variable {p : Program} {k : Int} {i : Instruction}

theorem lt_size_of_fetch? (h : p.fetch? k = some i) : k < p.size := by
  unfold fetch? entryAt? at h
  split at h
  · cases h
  · have := (Array.getElem?_eq_some_iff.mp h).1
    rw [size]; omega

theorem past_of_lt {t : Int} (h : t < p.size) : p.past t = t + 1 := if_pos h

/-- The targets of a resolved program are positions of its code. -/
theorem exists_position_of_target {code : List Instruction} (hp : resolve code = .ok p) {j : Nat}
    {t : Int} (ht : p.target? j = some t) : ∃ n : Nat, t = n ∧ n < code.length := by
  by_cases hw : HasOp code j .wend
  · obtain ⟨n, hn, hc, -⟩ := exists_closes_of_wend hp hw
    rw [hn] at ht
    exact ⟨n, (Option.some.inj ht).symm, Nat.lt_trans hc.lt hc.inside⟩
  · by_cases ho : OpensAt code j
    · obtain ⟨n, rfl, hc⟩ := exists_closes_of_target hp ho ht
      exact ⟨n, rfl, hc.inside⟩
    · -- no other instruction has a target
      obtain ⟨-, he⟩ := entries_of_resolve hp
      rw [target?_natCast] at ht
      rcases Nat.lt_or_ge j code.length with hj | hj
      · rw [he.blank j hj hw fun h => absurd h ho] at ht
        cases ht
      · rw [Array.getElem?_eq_none (by rw [he.size]; exact hj)] at ht
        cases ht

end Program

/-! ## Stores -/

namespace Store

variable {strict : Bool} {op : Op} {i : Instruction} {s s' : Store} {e : Error}

/-- What a plain instruction complains about is no jump. -/
theorem perform_relocate (f : Int → Int) (strict : Bool) (i : Instruction) (s : Store) :
    (s.perform strict i).1.map (Error.relocate f) = (s.perform strict i).1 := by
  have hmismatch : ∀ (op : Op) (v : Value) (s : Store),
      (s.mismatch strict op v).1.map (Error.relocate f) = (s.mismatch strict op v).1 := by
    intro op v s
    cases strict <;> rfl
  unfold perform
  split <;> try rfl
  unfold binary
  split
  · split
    · rfl
    · next hc =>
      obtain ⟨rfl, -⟩ := compute_eq_error hc
      rfl
  · exact hmismatch _ _ _
  · exact hmismatch _ _ _
  · rfl

theorem test_relocate (f : Int → Int) (h : s.test strict op = (.error e, s')) :
    e.relocate f = e := by
  unfold test at h
  split at h
  · cases h; rfl
  · cases h
  · cases strict <;> cases h
    rfl

end Store

namespace Execution

/-- The execution `y` has come to the same as `x` at other positions. -/
structure Relocated (f : Int → Int) (x y : Execution) : Prop where
  store : y.store = x.store
  next : y.machine.next = f x.machine.next
  stop : y.stop = x.stop.map (Stop.relocate f)

variable {p q : Program} {f : Int → Int} {strict : Bool} {x y : Execution} {i : Instruction}
  {s : Store} {k k' next : Int} {e : Option Error}

theorem Stands.relocated (hx : x.Stands s k next e)
    (hy : y.Stands s k' (f next) (e.map (Error.relocate f))) : x.Relocated f y := by
  refine ⟨hy.store.trans hx.store.symm, by rw [hy.next, hx.next], ?_⟩
  rw [hy.stop, hx.stop]
  cases e <;> rfl

/-- A condition and, unless it holds, a jump to where `land` and `land'` move the targets. -/
theorem relocated_branch {op : Op} (land land' : Int → Int) (hm : p.Moves q f k i)
    (hland : ∀ t, p.target? k = some t → land' (f t) = f (land t))
    (hx : match s.test strict op, p.target? k with
      | (.error e, t), _ => x.Stands t k (k + 1) (some e)
      | (.ok true, t), _ => x.Stands t k (k + 1) none
      | (.ok false, t), some j => x.Stands t k (land j) none
      | (.ok false, t), none => x.Stands t k (k + 1) (some (.unresolved k)))
    (hy : match s.test strict op, q.target? (f k) with
      | (.error e, t), _ => y.Stands t (f k) (f k + 1) (some e)
      | (.ok true, t), _ => y.Stands t (f k) (f k + 1) none
      | (.ok false, t), some j => y.Stands t (f k) (land' j) none
      | (.ok false, t), none => y.Stands t (f k) (f k + 1) (some (.unresolved (f k)))) :
    x.Relocated f y := by
  rw [hm.target, ← hm.next] at hy
  match htest : s.test strict op, htarget : p.target? k with
  | (.error e, t), _ =>
    rw [htest] at hx hy
    rw [← Store.test_relocate f htest] at hy
    exact Stands.relocated hx hy
  | (.ok true, t), _ =>
    rw [htest] at hx hy
    exact Stands.relocated hx hy
  | (.ok false, t), some j =>
    rw [htest, htarget] at hx hy
    have hjump : y.Stands t (f k) (land' (f j)) none := hy
    rw [hland j htarget] at hjump
    exact Stands.relocated hx hjump
  | (.ok false, t), none =>
    rw [htest, htarget] at hx hy
    exact Stands.relocated hx hy

/-- The same instruction, before the context is asked. -/
theorem Relocated.carry (h : x.Relocated f y) (hm : p.Moves q f x.machine.next i)
    (hknown : i.op ∈ Op.known) (strict : Bool) :
    (x.carry p strict i).Relocated f (y.carry q strict i) := by
  have himage : q.fetch? y.machine.next = some i := by rw [h.next]; exact hm.image
  cases hop : i.op with
  | ifTest =>
    have hx := carry_if p strict x hop
    have hy := carry_if q strict y hop
    rw [h.next, h.store] at hy
    exact relocated_branch id id hm (fun _ _ => rfl) hx hy
  | doTest =>
    have hx := carry_do p strict x hop
    have hy := carry_do q strict y hop
    rw [h.next, h.store] at hy
    exact relocated_branch p.past q.past hm hm.past hx hy
  | wend =>
    have hx := carry_wend p strict x hop
    have hy := carry_wend q strict y hop
    rw [h.next, h.store, hm.target, ← hm.next] at hy
    cases htarget : p.target? x.machine.next with
    | none =>
      rw [htarget] at hx hy
      exact Stands.relocated hx hy
    | some t =>
      rw [htarget] at hx hy
      exact Stands.relocated hx hy
  | whileMark | endMark =>
    have hmark : i.op = .whileMark ∨ i.op = .endMark := by simp [hop]
    have hx := carry_mark p strict x hmark
    have hy := carry_mark q strict y hmark
    rw [h.next, h.store, ← hm.next] at hy
    exact Stands.relocated hx hy
  | unknown past => rw [hop] at hknown; simp [Op.known] at hknown
  | _ =>
    have hx := carry_plain p strict x hm.source (by rw [hop]; rfl)
    have hy := carry_plain q strict y himage (by rw [hop]; rfl)
    rw [h.next, h.store, ← hm.next, ← Store.perform_relocate f] at hy
    exact Stands.relocated hx hy

/-- One instruction. -/
theorem Relocated.advance (h : x.Relocated f y) (hover : x.isOver p = false)
    (hm : p.Moves q f x.machine.next i) (hknown : i.op ∈ Op.known) :
    (x.advance p strict none).Relocated f (y.advance q strict none) := by
  obtain ⟨hstop, -⟩ := isOver_eq_false.mp hover
  have himage : q.fetch? y.machine.next = some i := by rw [h.next]; exact hm.image
  have hover' : y.isOver q = false := by
    refine isOver_eq_false.mpr ⟨by rw [h.stop, hstop]; rfl, ?_⟩
    exact Program.lt_size_of_fetch? himage
  have hc := h.carry hm hknown strict
  rw [advance_eq_carry hover hm.source, advance_eq_carry hover' himage]
  simpa using hc

theorem ahead_succ (n : Nat) :
    x.ahead p strict (n + 1) = (x.ahead p strict n).advance p strict none := after_succ' n

theorem ahead_succ_left (n : Nat) :
    x.ahead p strict (n + 1) = (x.advance p strict none).ahead p strict n := by
  rw [ahead, after_succ]
  exact after_never 1 n

/-- A run of instructions that all stand in both programs. -/
theorem ahead_relocated (h : x.Relocated f y) (n : Nat)
    (hm : ∀ m < n, (x.ahead p strict m).isOver p = false ∧ ∃ i, i.op ∈ Op.known ∧
      p.Moves q f (x.ahead p strict m).machine.next i) :
    (x.ahead p strict n).Relocated f (y.ahead q strict n) := by
  induction n with
  | zero => exact h
  | succ n ih =>
    obtain ⟨hover, i, hknown, hmoves⟩ := hm n (Nat.lt_succ_self n)
    rw [ahead_succ, ahead_succ]
    exact (ih fun m hn => hm m (by omega)).advance hover hmoves hknown

end Execution

end WordStack

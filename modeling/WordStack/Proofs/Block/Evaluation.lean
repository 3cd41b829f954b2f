import WordStack.Proofs.Block.Syntax
import WordStack.Proofs.Machine.Store

/-!
# Blocks evaluated as trees

`Block.eval` gives a block its meaning without code positions: a branch pops a condition and runs
its body only if that holds, a loop evaluates its condition, pops, and repeats its body as long as
what it popped holds. Every loop may go round at most `fuel` times, and an evaluation that would
need more is `unfinished`; so a block ends if some fuel is enough, and goes on for ever if none is.

* `eval_mono`: more fuel changes no evaluation that has ended.
* `exists_ended_andThen`: parts that end with some fuel each end one after the other with the fuel
  of both.
-/
namespace WordStack

/-- How an evaluation with bounded loops comes out. -/
inductive Evaluation where
  /-- It ended in a store, with or without an error. -/
  | ended (error : Option Error) (s : Store)
  /-- A loop used up its fuel. -/
  | unfinished
  deriving DecidableEq, Repr

namespace Evaluation

/-- Go on with the store, unless there was an error. -/
def andThen : Evaluation → (Store → Evaluation) → Evaluation
  | ended none s, k => k s
  | r, _ => r

end Evaluation

/-- Pop a condition and go on with the store by whether it holds. -/
def Store.choose (strict : Bool) (op : Op) (s : Store) (yes no : Store → Evaluation) : Evaluation :=
  match s.test strict op with
  | (.error e, s) => .ended (some e) s
  | (.ok true, s) => yes s
  | (.ok false, s) => no s

/-- Rounds of a loop. -/
def repeatLoop (strict : Bool) (cond body : Store → Evaluation) :
    (rounds : Nat) → Store → Evaluation
  | 0, _ => .unfinished
  | n + 1, s => (cond s).andThen fun s =>
    s.choose strict .doTest (fun s => (body s).andThen (repeatLoop strict cond body n))
      (.ended none)

/-- A round that goes through. -/
theorem repeatLoop_succ_of_holds {strict : Bool} {cond body : Store → Evaluation} {s u v w : Store}
    (hcond : cond s = .ended none u) (htest : u.test strict .doTest = (.ok true, v))
    (hbody : body v = .ended none w) (n : Nat) :
    repeatLoop strict cond body (n + 1) s = repeatLoop strict cond body n w := by
  simp [repeatLoop, hcond, Evaluation.andThen, Store.choose, htest, hbody]

namespace Block

/-- The meaning of a block. -/
def eval (strict : Bool) (fuel : Nat) : Block → Store → Evaluation
  | empty, s => .ended none s
  | plain i rest, s =>
    match s.perform strict i.val with
    | (some e, s) => .ended (some e) s
    | (none, s) => rest.eval strict fuel s
  | branch _ body _ rest, s =>
    s.choose strict .ifTest (fun s => (body.eval strict fuel s).andThen (rest.eval strict fuel))
      (rest.eval strict fuel)
  | loop _ cond _ body _ rest, s =>
    (repeatLoop strict (cond.eval strict fuel) (body.eval strict fuel) fuel s).andThen
      (rest.eval strict fuel)

end Block

/-! ## More fuel -/

namespace Evaluation

/-- `r'` has ended as `r` has, if that has ended. -/
def Below (r r' : Evaluation) : Prop := ∀ e s, r = ended e s → r' = ended e s

theorem below_refl (r : Evaluation) : r.Below r := fun _ _ h => h

theorem Below.andThen {r r' : Evaluation} {k k' : Store → Evaluation} (h : r.Below r')
    (hk : ∀ s, (k s).Below (k' s)) : (r.andThen k).Below (r'.andThen k') := by
  cases r with
  | unfinished => intro e s he; cases he
  | ended error t =>
    rw [h error t rfl]
    cases error with
    | none => exact hk t
    | some e => exact below_refl _

end Evaluation

open Evaluation

theorem choose_below {strict : Bool} {op : Op} (s : Store) {yes yes' no no' : Store → Evaluation}
    (hyes : ∀ s, (yes s).Below (yes' s)) (hno : ∀ s, (no s).Below (no' s)) :
    (s.choose strict op yes no).Below (s.choose strict op yes' no') := by
  unfold Store.choose
  match s.test strict op with
  | (.error e, t) => exact below_refl _
  | (.ok true, t) => exact hyes t
  | (.ok false, t) => exact hno t

theorem repeatLoop_below {strict : Bool} {cond cond' body body' : Store → Evaluation} {m n : Nat}
    (hcond : ∀ s, (cond s).Below (cond' s)) (hbody : ∀ s, (body s).Below (body' s)) (hmn : m ≤ n)
    (s : Store) : (repeatLoop strict cond body m s).Below (repeatLoop strict cond' body' n s) := by
  induction m generalizing n s with
  | zero => intro e t he; cases he
  | succ m ih =>
    obtain ⟨n, rfl⟩ : ∃ n', n = n' + 1 := ⟨n - 1, by omega⟩
    refine (hcond s).andThen fun t => choose_below t ?_ fun u => below_refl _
    intro u
    exact (hbody u).andThen fun v => ih (by omega) v

/-- More fuel changes no evaluation that has ended. -/
theorem eval_mono {strict : Bool} {m n : Nat} (hmn : m ≤ n) (b : Block) (s : Store) :
    (b.eval strict m s).Below (b.eval strict n s) := by
  induction b generalizing s with
  | empty => exact below_refl _
  | plain i rest ih =>
    simp only [Block.eval]
    match s.perform strict i.val with
    | (some e, t) => exact below_refl _
    | (none, t) => exact ih t
  | branch test body close rest ihb ihr =>
    exact choose_below s (fun t => (ihb t).andThen ihr) ihr
  | loop start cond test body back rest ihc ihb ihr =>
    exact (repeatLoop_below ihc ihb hmn s).andThen ihr

/-- Two parts one after the other, if each of them ends with some fuel. -/
theorem exists_ended_andThen {r : Nat → Evaluation} {k : Nat → Store → Evaluation}
    (hr : ∀ {m n}, m ≤ n → (r m).Below (r n)) (hk : ∀ {m n} u, m ≤ n → (k m u).Below (k n u))
    {f : Nat} {e : Option Error} {u : Store} (hf : r f = .ended e u)
    (hrest : e = none → ∃ g e' t, k g u = .ended e' t) :
    ∃ g e' t, (r g).andThen (k g) = .ended e' t := by
  match e with
  | some e => exact ⟨f, some e, u, by rw [hf]; rfl⟩
  | none =>
    obtain ⟨g, e', t, ht⟩ := hrest rfl
    refine ⟨max f g, e', t, ?_⟩
    rw [hr (Nat.le_max_left f g) none u hf]
    exact hk u (Nat.le_max_right f g) e' t ht

end WordStack

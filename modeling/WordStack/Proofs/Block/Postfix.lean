import WordStack.Proofs.Block.Semantics
import WordStack.Proofs.Text.Numeral

/-!
# Arithmetic in postfix

An expression is a tree of 32-bit literals and binary operators. Its value is worked out in exact
integers, one operator at a time, and each result is cut to 32 bits. Written in postfix it is a
source text: the words of the left operand, then those of the right one, then the operator, with any
white space between them.

* `Operator.compute_op`: the machine computes each operator as the exact integers say.
* `Expression.eval_block`: code of an expression, in front of any other code, pushes its value, or
  ends at the first division by zero with the left operands that were waiting then.
* `Expression.compile_spaced`: a source with the words of an expression compiles to that code.
* `run_postfix`: so a run leaves the value above what was on the stack.
-/
namespace WordStack

/-! ## Integers of 32 bits -/

theorem ofInt_eq {n : Int32} {v : Int} (h : n.toInt = v.bmod Int32.size) : Int32.ofInt v = n := by
  rw [← Int32.toInt_inj, Int32.toInt_ofInt, h]

/-- The truth value of a comparison. -/
theorem ofInt_ite (p : Prop) [Decidable p] :
    Int32.ofInt (if p then 1 else 0) = if p then 1 else 0 := by
  split <;> rfl

theorem toInt_ne_zero {r : Int32} (hr : r ≠ 0) : r.toInt ≠ 0 := by
  rwa [← Int32.toInt_zero, Ne, Int32.toInt_inj]

/-- Quotient and remainder make up the left operand, in arithmetic that wraps. -/
theorem div_mul_add_mod (l r : Int32) : l / r * r + l % r = l := by
  rw [← Int32.toInt_inj, Int32.toInt_add, Int32.toInt_mul, Int32.toInt_div, Int32.toInt_mod,
    Int.bmod_mul_bmod, Int.bmod_add_bmod, Int.tdiv_mul_add_tmod, Int32.toInt_bmod]

/-- The remainder has the sign of the left operand. -/
theorem mod_sign (l r : Int32) : (0 ≤ l → 0 ≤ l % r) ∧ (l ≤ 0 → l % r ≤ 0) := by
  simp only [Int32.le_iff_toInt_le, Int32.toInt_mod, Int32.toInt_zero]
  refine ⟨Int.tmod_nonneg r.toInt, ?_⟩
  intro hl
  have hneg := Int.tmod_nonneg r.toInt (Int.neg_nonneg_of_nonpos hl)
  rw [Int.neg_tmod] at hneg
  omega

/-! ## Operators -/

/-- The binary operators. -/
inductive Operator where
  | add
  | sub
  | mul
  | div
  | mod
  | equal
  | greater
  | less
  deriving DecidableEq, Repr

namespace Operator

/-- How an operator is written. -/
def symbol : Operator → Char
  | add => '+'
  | sub => '-'
  | mul => '*'
  | div => '/'
  | mod => '%'
  | equal => '='
  | greater => '>'
  | less => '<'

/-- The operation of the machine that an operator stands for. -/
def op : Operator → Op
  | add => .add
  | sub => .sub
  | mul => .mul
  | div => .div
  | mod => .mod
  | equal => .eq
  | greater => .lt
  | less => .mt

/-- The result in exact integers. Division rounds toward zero, the remainder has the sign of the left
operand, and nothing is divided by zero. -/
def exact : Operator → Int → Int → Option Int
  | add, l, r => some (l + r)
  | sub, l, r => some (l - r)
  | mul, l, r => some (l * r)
  | div, l, r => if r = 0 then none else some (l.tdiv r)
  | mod, l, r => if r = 0 then none else some (l.tmod r)
  | equal, l, r => some (if l = r then 1 else 0)
  | greater, l, r => some (if l > r then 1 else 0)
  | less, l, r => some (if l < r then 1 else 0)

/-- The exact result, cut to signed 32 bits. -/
def apply (o : Operator) (l r : Int32) : Option Int32 :=
  (o.exact l.toInt r.toInt).map Int32.ofInt

/-- An operator as a word of a source. -/
def word (o : Operator) : Word where
  chars := [o.symbol]
  ne_nil := by simp
  no_space := by
    intro c hc
    obtain rfl := List.mem_singleton.mp hc
    cases o <;> rfl

/-- An operator as an instruction. -/
def plain (o : Operator) : Plain := ⟨{ op := o.op }, by cases o <;> rfl⟩

theorem instruction_word (o : Operator) : o.word.instruction = o.plain.val := by
  cases o <;> decide +kernel

section
variable {l r : Int32}

theorem apply_div (hr : r ≠ 0) : div.apply l r = some (l / r) := by
  simp [apply, exact, toInt_ne_zero hr, ofInt_eq (Int32.toInt_div l r)]

/-- A remainder always fits. -/
theorem apply_mod (hr : r ≠ 0) : mod.apply l r = some (l % r) := by
  simp [apply, exact, toInt_ne_zero hr, ← Int32.toInt_mod]

end

/-- The machine computes as the exact integers say. -/
theorem compute_op (o : Operator) (l r : Int32) :
    o.op.compute l r = (o.apply l r).elim (.error .divisionByZero) .ok := by
  cases o with
  | add => simp [op, Op.compute, apply, exact, ofInt_eq (Int32.toInt_add l r)]
  | sub => simp [op, Op.compute, apply, exact, ofInt_eq (Int32.toInt_sub l r)]
  | mul => simp [op, Op.compute, apply, exact, ofInt_eq (Int32.toInt_mul l r)]
  | div =>
    by_cases hr : r = 0
    · simp [op, Op.compute, apply, exact, hr]
    · simp [op, Op.compute, apply_div hr, hr]
  | mod =>
    by_cases hr : r = 0
    · simp [op, Op.compute, apply, exact, hr]
    · simp [op, Op.compute, apply_mod hr, hr]
  | equal => simp [op, Op.compute, apply, exact, ofInt_ite, Int32.toInt_inj]
  | greater => simp [op, Op.compute, apply, exact, ofInt_ite, Int32.lt_iff_toInt_lt]
  | less => simp [op, Op.compute, apply, exact, ofInt_ite, Int32.lt_iff_toInt_lt]

end Operator

/-! ## Expressions -/

/-- A tree of literals and operators. -/
inductive Expression where
  | literal (n : Int32)
  | binary (o : Operator) (left right : Expression)
  deriving DecidableEq, Repr

namespace Expression

/-- The value, worked out from left to right. If something is divided by zero, there is none, and
what is left of the work is the left operands that wait for their right operands, the last one
first. -/
def value : Expression → Except (List Int32) Int32
  | literal n => .ok n
  | binary o left right =>
    match left.value with
    | .error waiting => .error waiting
    | .ok l =>
      match right.value with
      | .error waiting => .error (waiting ++ [l])
      | .ok r => (o.apply l r).elim (.error []) .ok

/-- The words in postfix. -/
def words : Expression → List Word
  | literal n => [.numeral n]
  | binary o left right => left.words ++ right.words ++ [o.word]

/-- The code, in front of other code. -/
def block : Expression → Block → Block
  | literal n, rest => .plain ⟨.push n, rfl⟩ rest
  | binary o left right, rest => left.block (right.block (.plain o.plain rest))

/-- The code is what the words stand for. -/
theorem flatten_block (e : Expression) (rest : Block) :
    (e.block rest).flatten = e.words.map Word.instruction ++ rest.flatten := by
  induction e generalizing rest with
  | literal n => simp [block, words, Block.flatten, Word.instruction_numeral]
  | binary o left right ihl ihr =>
    simp [block, words, Block.flatten, ihl, ihr, Operator.instruction_word]

/-- An operator with both operands on the stack. -/
theorem eval_operator (o : Operator) (rest : Block) (strict : Bool) (fuel : Nat) (l r : Int32)
    (s : Store) (below : List Value) :
    (Block.plain o.plain rest).eval strict fuel { s with stack := .int r :: .int l :: below } =
      (o.apply l r).elim (.ended (some .divisionByZero) { s with stack := below })
        fun n => rest.eval strict fuel { s with stack := .int n :: below } := by
  have hperform : Store.perform strict o.plain.val { s with stack := .int r :: .int l :: below } =
      Store.binary strict o.op { s with stack := .int r :: .int l :: below } := by
    cases o <;> rfl
  simp only [Block.eval, hperform, Store.binary, Operator.compute_op]
  cases o.apply l r <;> rfl

/-- How an expression comes out on a store, in front of other code. -/
theorem eval_block (e : Expression) (rest : Block) (strict : Bool) (fuel : Nat) (s : Store) :
    (e.block rest).eval strict fuel s =
      match e.value with
      | .ok n => rest.eval strict fuel { s with stack := .int n :: s.stack }
      | .error waiting =>
        .ended (some .divisionByZero) { s with stack := waiting.map .int ++ s.stack } := by
  induction e generalizing rest s with
  | literal n => rfl
  | binary o left right ihl ihr =>
    rw [block, ihl, value]
    cases left.value with
    | error waiting => rfl
    | ok l =>
      simp only [ihr]
      cases right.value with
      | error waiting => simp
      | ok r =>
        simp only [eval_operator]
        cases o.apply l r <;> rfl

/-- A source with the words of an expression compiles to its code. -/
theorem compile_spaced {e : Expression} {k : Spacing} (h : k.words = e.words) :
    Program.compile ⟨Utf8.encodeAll k.text, none⟩ = Program.resolve (e.block .empty).flatten := by
  simp [Program.compile, Source.lex_whole, h, flatten_block, Block.flatten]

end Expression

/-- **Postfix arithmetic.** A source that has the words of an expression, with any white space around
them, compiles. Run from any stack, with nobody to call it off, it prints nothing behind the listing
that may have been asked for, and returns with the value of the expression above that stack; or it
returns at the first division by zero, with the operands of that division gone and the left operands
that wait for its result left. Quotient and remainder make up what was divided, also for the one
quotient that does not fit. -/
theorem run_postfix :
    (∀ (e : Expression) (k : Spacing), k.words = e.words →
      ∃ p, Program.compile ⟨Utf8.encodeAll k.text, none⟩ = .ok p ∧
        ∀ s : Session, s.program = p → s.machine.next = 0 → s.Steady →
          match e.value with
          | .ok n => s.Returns none
              { stack := .int n :: s.machine.stack, written := [],
                mismatches := s.machine.mismatches }
          | .error waiting => s.Returns (some .divisionByZero)
              { stack := waiting.map .int ++ s.machine.stack, written := [],
                mismatches := s.machine.mismatches }) ∧
    (∀ l r : Int32, r ≠ 0 → ∃ q m, Operator.div.apply l r = some q ∧
      Operator.mod.apply l r = some m ∧ q * r + m = l ∧ m.toInt = l.toInt.tmod r.toInt ∧
      (0 ≤ l → 0 ≤ m) ∧ (l ≤ 0 → m ≤ 0)) ∧
    Operator.div.apply Int32.minValue (-1) = some Int32.minValue ∧
    Operator.mod.apply Int32.minValue (-1) = some 0 := by
  refine ⟨?_, ?_, by decide +kernel, by decide +kernel⟩
  · intro e k hk
    obtain ⟨p, hp, -⟩ := resolve_flatten (e.block .empty)
    refine ⟨p, (Expression.compile_spaced hk).trans hp, ?_⟩
    rintro s rfl hnext hs
    have heval := e.eval_block .empty s.strict 0 (s.machine.store [])
    cases hvalue : e.value with
    | ok n => rw [hvalue] at heval; exact returns_of_ends hp hnext hs ⟨0, heval⟩
    | error waiting => rw [hvalue] at heval; exact returns_of_ends hp hnext hs ⟨0, heval⟩
  · intro l r hr
    obtain ⟨hnonneg, hnonpos⟩ := mod_sign l r
    exact ⟨l / r, l % r, Operator.apply_div hr, Operator.apply_mod hr,
      div_mul_add_mod l r, Int32.toInt_mod l r, hnonneg, hnonpos⟩

/-- The expressions `(2147483647 + 1) / -1` and `5 + 3 / 0`. -/
theorem run_postfix_wrapped : ∃ p p' : Program,
    Program.compile ⟨bytes "2147483647 1 +\t-1\n/", none⟩ = .ok p ∧
    (Session.inMemory p [.text (bytes "x")]).Returns none
      { stack := [.int Int32.minValue, .text (bytes "x")] } ∧
    Program.compile ⟨bytes " 5 3 0 / + ", none⟩ = .ok p' ∧
    (Session.inMemory p' [.text (bytes "x")]).Returns (some .divisionByZero)
      { stack := [.int 5, .text (bytes "x")] } := by
  obtain ⟨p, hp, hrun⟩ := run_postfix.1
    (.binary .div (.binary .add (.literal 2147483647) (.literal 1)) (.literal (-1)))
    (.ofText "2147483647 1 +\t-1\n/".toList) rfl
  obtain ⟨p', hp', hrun'⟩ := run_postfix.1
    (.binary .add (.literal 5) (.binary .div (.literal 3) (.literal 0)))
    (.ofText " 5 3 0 / + ".toList) rfl
  exact ⟨p, p', hp, hrun _ rfl rfl (Session.steady_inMemory p _), hp',
    hrun' _ rfl rfl (Session.steady_inMemory p' _)⟩

end WordStack

import WordStack.Source

/-!
# Programs and their jump targets

A program is its instructions with a table of jump targets beside them. `resolve` fills the table
in one pass that keeps the open block words on a stack: `if`, `while` and `do` open; `end` closes
the innermost one, which gets the position of the `end` as its target; `wend` closes the two
innermost ones, of which the inner gets the position of the `wend`, and the `wend` gets the
position of the outer. The kinds of the words that meet are not compared. A block that is never
closed stays without target, and a closing word that finds too few open words is an error.

A program may also be given with a table of its own, of any length and with any positions in it.

* `code_of_resolve`: resolving leaves the instructions as they are.
-/
namespace WordStack

/-- Instructions and their jump targets. -/
structure Program where
  code : Array Instruction := #[]
  /-- The target of the instruction at the same place, if it has one. -/
  targets : Array (Option Int) := #[]
  deriving DecidableEq, Repr

/-- The entry at a position, if it lies in the array. -/
def entryAt? {α : Type} (a : Array α) (i : Int) : Option α :=
  if i < 0 then none else a[i.toNat]?

namespace Program

/-- How many instructions a program has. -/
def size (p : Program) : Nat := p.code.size

/-- The instruction at a position. -/
def fetch? (p : Program) (i : Int) : Option Instruction := entryAt? p.code i

/-- The jump target of the instruction at a position. -/
def target? (p : Program) (i : Int) : Option Int := (entryAt? p.targets i).join

/-- The number of 64-bit words. -/
def wordCount : Nat := 18446744073709551616

/-- The position just past a jump target. Positions are 64-bit words, so the one past the greatest
word, which lies in no program, is the least word. -/
def past (p : Program) (t : Int) : Int :=
  if t < p.size then t + 1 else Int.bmod (t + 1) wordCount

end Program

/-- The state of the resolving pass. -/
structure Resolver where
  /-- The targets so far, one for each instruction seen. -/
  targets : Array (Option Int) := #[]
  /-- The positions of the block words that are open, innermost first. -/
  opened : List Nat := []

namespace Resolver

/-- The pass over one instruction. -/
def step (r : Resolver) (i : Instruction) : Except Error Resolver :=
  let position := r.targets.size
  match i.op, r.opened with
  | .endMark, opener :: outer =>
    .ok { targets := (r.targets.setIfInBounds opener (some position)).push none, opened := outer }
  | .endMark, [] => .error (.unmatched .endMark position)
  | .wend, inner :: outer :: rest =>
    .ok { targets := (r.targets.setIfInBounds inner (some position)).push (some outer),
          opened := rest }
  | .wend, _ => .error (.unmatched .wend position)
  | op, opened =>
    .ok { targets := r.targets.push none,
          opened := if op.isOpener then position :: opened else opened }

end Resolver

namespace Program

/-- The program of some instructions, with every closed block resolved. -/
def resolve (code : List Instruction) : Except Error Program :=
  (code.foldlM Resolver.step {}).map fun r => { code := code.toArray, targets := r.targets }

theorem code_of_resolve {code : List Instruction} {p : Program} (h : resolve code = .ok p) :
    p.code.toList = code := by
  unfold resolve at h
  cases hr : code.foldlM Resolver.step {} with
  | error e => rw [hr] at h; cases h
  | ok r => rw [hr] at h; cases h; rfl

/-- The program of a source. -/
def compile (s : Source) : Except Error Program :=
  match s.lex with
  | (_, some e) => .error (.within (bytes "lex failed") e)
  | (code, none) => resolve code

end Program

end WordStack

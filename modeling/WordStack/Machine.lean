import WordStack.Program

/-!
# The stack machine

A machine holds the position of the next instruction, the position of the one being executed, the
operand stack and a count of operands that were no integers. Executing an instruction is a pure
function of program and machine. It gives a `Script`: the effects of the instruction in order (a
note for the trace, a text to write), each with the machine as it stands at that moment, and how
the instruction ends: it is done, it halts with an error, or it hits a fault. Whoever performs the
script decides what a note or a failed write leads to.

A binary operation pops its right operand first. Arithmetic wraps at 32 bits, and division rounds
toward zero. An operand that is no integer is a mismatch: it is counted and noted, and the
operation gives no result; a strict machine halts instead. A condition holds if it is a positive
integer.
-/
namespace WordStack

/-- The state of a machine. -/
structure Machine where
  /-- The position of the next instruction. -/
  next : Int := 0
  /-- The position of the instruction being executed. -/
  current : Int := 0
  /-- The operands, top first. -/
  stack : List Value := []
  /-- Whether anything was ever pushed since the program was loaded. -/
  touched : Bool := false
  /-- How many operations met an operand that is no integer. -/
  mismatches : Nat := 0
  deriving DecidableEq, Repr

/-- What the trace tells about an instruction. -/
inductive Note where
  /-- It is about to be executed. -/
  | exec (position : Int) (instruction : Instruction) (stack : List Value)
  /-- It met an operand that is no integer. -/
  | mismatch (op : Op) (operand : Value)
  /-- It jumps. -/
  | jump (source target : Int)
  deriving DecidableEq, Repr

/-- The effects of an instruction, in order, and how it ends. -/
inductive Script where
  | done (m : Machine)
  | halt (reason : Error) (m : Machine)
  | fault (f : Fault) (m : Machine)
  /-- Take a note while the machine is `m`, then go on. -/
  | note (n : Note) (m : Machine) (rest : Script)
  /-- Write a text while the machine is `m`, then go on; a failed write halts. -/
  | write (text : Bytes) (m : Machine) (rest : Script)
  deriving DecidableEq, Repr

namespace Note

/-- The operands as they are shown, bottom first. -/
def showStack (stack : List Value) : Bytes := bracketed (stack.reverse.map Value.render)

/-- The mark in front of a note. -/
def mark : Note → Bytes
  | exec .. => bytes ">"
  | mismatch .. => bytes "!"
  | jump .. => bytes "^"

/-- The text of a note. -/
def render : Note → Bytes
  | exec position instruction stack =>
    bytes "exec @" ++ Decimal.ofInt position ++ bytes " " ++ instruction.render ++
      bytes " -- s:" ++ showStack stack
  | mismatch op operand =>
    bytes "type mismatch in " ++ op.name ++ bytes ": " ++
      match operand with
      | .int n => Decimal.ofInt n.toInt
      | .text t => Quoted.quote t
  | jump source target =>
    bytes "jump @" ++ Decimal.ofInt source ++ bytes " -> @" ++ Decimal.ofInt target

end Note

namespace Machine

/-- Put a value on the stack. -/
def push (m : Machine) (v : Value) : Machine := { m with stack := v :: m.stack, touched := true }

/-- Take the top value off the stack and go on with it; an empty stack halts. -/
def pop (m : Machine) (op : Op) (k : Value → Machine → Script) : Script :=
  match m.stack with
  | [] => .halt (.underflow op) m
  | v :: rest => k v { m with stack := rest }

/-- Count and note an operand that is no integer. A strict machine halts, another goes on. -/
def mismatch (m : Machine) (strict : Bool) (op : Op) (operand : Value) (k : Machine → Script) :
    Script :=
  let m := { m with mismatches := m.mismatches + 1 }
  .note (.mismatch op operand) m (if strict then .halt (.typeMismatch op operand) m else k m)

/-- A binary operation: `f` is given the left operand and the right one, which is popped first, and
may halt. -/
def binary (m : Machine) (strict : Bool) (op : Op) (f : Int32 → Int32 → Except Error Int32) :
    Script :=
  m.pop op fun right m => m.pop op fun left m =>
    match right, left with
    | .int r, .int l =>
      match f l r with
      | .ok n => .done (m.push (.int n))
      | .error e => .halt e m
    | .text _, _ => m.mismatch strict op right .done
    | .int _, .text _ => m.mismatch strict op left .done

/-- Pop a condition and go on with whether it holds. -/
def truth (m : Machine) (strict : Bool) (op : Op) (k : Bool → Machine → Script) : Script :=
  m.pop op fun v m =>
    match v with
    | .int n => k (0 < n) m
    | .text _ => m.mismatch strict op v (k false)

/-- Go on with the jump target of the current instruction; a missing target halts. -/
def target (m : Machine) (p : Program) (k : Int → Script) : Script :=
  match p.target? m.current with
  | some t => k t
  | none => .halt (.unresolved m.current) m

/-- Jump to a position. -/
def jump (m : Machine) (position : Int) : Script :=
  .note (.jump m.current position) m (.done { m with next := position })

/-- Division and remainder halt on a zero divisor. -/
def guarded (f : Int32 → Int32 → Int32) (l r : Int32) : Except Error Int32 :=
  if r = 0 then .error .divisionByZero else .ok (f l r)

/-- The value of a comparison. -/
def truthValue (b : Bool) : Int32 := if b then 1 else 0

/-- An operation carried out at the current position. -/
def perform (m : Machine) (p : Program) (strict : Bool) : Op → Script
  | .push =>
    match p.fetch? m.current with
    | some i => .done (m.push (.int i.int))
    | none => .fault (.index m.current p.size) m
  | .add => m.binary strict .add fun l r => .ok (l + r)
  | .sub => m.binary strict .sub fun l r => .ok (l - r)
  | .mul => m.binary strict .mul fun l r => .ok (l * r)
  | .div => m.binary strict .div (guarded (· / ·))
  | .mod => m.binary strict .mod (guarded (· % ·))
  | .eq => m.binary strict .eq fun l r => .ok (truthValue (l = r))
  | .lt => m.binary strict .lt fun l r => .ok (truthValue (r < l))
  | .mt => m.binary strict .mt fun l r => .ok (truthValue (l < r))
  | .ifTest => m.truth strict .ifTest fun holds m =>
    if holds then .done m else m.target p m.jump
  | .doTest => m.truth strict .doTest fun holds m =>
    if holds then .done m else m.target p fun t => m.jump (p.past t)
  | .wend => m.target p m.jump
  | .dup => m.pop .dup fun v m => .done ((m.push v).push v)
  | .print => m.pop .print fun v m =>
    .write v.render m (.write (bytes "\n") m (.done m))
  | .whileMark | .endMark | .word => .done m
  | .unknown past => .fault (.index (Op.unknown past).code Op.knownCount) m

/-- The next instruction: it becomes the current one, the machine moves on, and it is carried
out. -/
def step (m : Machine) (p : Program) (strict : Bool) : Script :=
  let m := { m with current := m.next }
  match p.fetch? m.current with
  | none => .fault (.index m.current p.size) m
  | some i =>
    let m := { m with next := m.next + 1 }
    .note (.exec m.current i m.stack) m (m.perform p strict i.op)

end Machine

end WordStack

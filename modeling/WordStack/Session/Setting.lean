import WordStack.Session.Run

/-!
# Settings

A setting changes a session: it loads a program, sets or adds an output, sets the logger, turns on
strictness or the listing, or puts values and positions in place. Settings come in trees of groups,
in which some may be missing; a tree is applied from left to right. `combine` makes one tree of
several, leaving out what is missing and taking groups apart; `flatten` lists the settings of a
tree.

Loading a program resets the machine. A new output first flushes the one before, whose errors do not
count, and takes the place of everything that was written to. A tee is added to what is there, and
is closed with the session if it can be closed.
-/
namespace WordStack

/-- One setting of a session. -/
inductive Setting where
  | program (p : Program)
  | output (sink : Nat)
  | tee (sink : Nat)
  | logger (l : Logger)
  | strict
  | listing (coloured : Bool)
  | values (vs : List Value)
  | position (p : Int)

/-- Settings in groups, of which some may be missing. -/
inductive SettingTree where
  | missing
  | single (s : Setting)
  | group (members : List SettingTree)

namespace SettingTree

/-- What a tree adds to a group: nothing if it is missing, its members if it is a group itself. -/
def spliced : SettingTree → List SettingTree
  | missing => []
  | single s => [single s]
  | group members => members

/-- One tree of several. A lone tree needs no group. -/
def combine (trees : List SettingTree) : SettingTree :=
  match trees.flatMap spliced with
  | [t] => t
  | members => group members

mutual

/-- The settings of a tree from left to right. -/
def flatten : SettingTree → List Setting
  | missing => []
  | single s => [s]
  | group members => flattenAll members

/-- The settings of several trees from left to right. -/
def flattenAll : List SettingTree → List Setting
  | [] => []
  | t :: rest => t.flatten ++ flattenAll rest

end

end SettingTree

namespace Session

/-- Load a program: the machine starts anew. -/
def load (p : Program) : M Unit := modify fun s => { s with program := p, machine := {} }

/-- Put values on the stack, the last one on top. -/
def pushAll (vs : List Value) : M Unit :=
  modify fun s => { s with machine := vs.foldl Machine.push s.machine }

/-- Put a sink in place of the outlet. -/
def setOutput (sink : Nat) : M Unit := do
  let s ← get
  match s.outlet with
  | [] => pure ()
  | outlet =>
    let _ ← onHost outlet.flush
  let w ← onHost (Writer.ofSink sink)
  modify fun s => { s with outlet := [w] }

/-- Add a sink to the outlet. -/
def addTee (sink : Nat) : M Unit := do
  let w ← onHost (Writer.ofSink sink)
  modify fun s =>
    { s with
      outlet := Outlet.join [s.outlet, [w]]
      closers := if s.host.isClosable sink then sink :: s.closers else s.closers }

/-- Apply a setting. -/
def apply : Setting → M Unit
  | .program p => load p
  | .output sink => setOutput sink
  | .tee sink => addTee sink
  | .logger l => modify fun s => { s with logger := l }
  | .strict => modify fun s => { s with strict := true }
  | .listing coloured => modify fun s => { s with listing := some coloured }
  | .values vs => pushAll vs
  | .position p => modify fun s => { s with machine := { s.machine with next := p, current := p } }

mutual

/-- Apply the settings of a tree. -/
def applyTree : SettingTree → M Unit
  | .missing => return ()
  | .single x => apply x
  | .group members => applyTrees members

/-- Apply the settings of several trees in order. -/
def applyTrees : List SettingTree → M Unit
  | [] => return ()
  | t :: rest => do applyTree t; applyTrees rest

end

/-- A session with no outlet on a host. -/
def bare (host : Host) : Session := { host }

/-- A session whose output is dropped unless a setting says otherwise. -/
def fresh (host : Host) : Session := { host, outlet := [.discard] }

/-- A new session with settings. -/
def new (settings : List SettingTree) (host : Host) : EStateM.Result Abort Session Unit :=
  applyTree (.combine settings) (fresh host)

/-- Close the sinks that were added, the latest first; the first error counts. -/
def close : M (Option Error) := do
  let error ← onHost (attemptAll Host.closeSink (← get).closers)
  modify fun s => { s with closers := [] }
  return error

end Session

end WordStack

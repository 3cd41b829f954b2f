import WordStack.Host.Basic
import WordStack.Text.Template

/-!
# The journal

The journal writes lines like `ERROR: message` to a sink, each in one write, and remembers an exit
code: 1 once an error was reported, 2 once a line could not be written in full or the output could
not be closed. A reported error always sets 1, a failed line always sets 2, and a failed close sets
2 only if no code was set before.

A line is made in front of whatever an aborted write left behind; a failed or short write drops it.
-/
namespace WordStack.Host

/-- Change the journal. -/
def modifyJournal (f : Journal → Journal) : Act Host Unit :=
  modify fun h => { h with journal := f h.journal }

/-- Close the output if it can be closed. -/
def closeOutput : Act Host Unit := do
  let h ← get
  match h.journal.output with
  | none => return ()
  | some i =>
    if h.isClosable i then
      let error ← closeSink i
      modifyJournal fun j =>
        if error.isSome && j.exitCode == 0 then { j with exitCode := 2 } else j

/-- Send lines to another sink from now on, and close the one before. -/
def setOutput (sink : Option Nat) : Act Host Unit := do
  closeOutput
  modifyJournal fun j => { j with output := sink }

/-- Close the output; further lines are dropped. -/
def closeJournal : Act Host Unit := setOutput none

/-- The text of a line: the level, the message, and a line feed unless the text ends in one. A line
with nothing in it stays empty. -/
def lineText (pending level message : Bytes) : Bytes :=
  let line := pending ++ (if level.isEmpty then [] else level ++ bytes ": ") ++ message
  if line.isEmpty || line.getLast? == some lineFeed then line else line ++ [lineFeed]

/-- Write a line. -/
def report (level text : Bytes) (args : List Template.Arg) : Act Host Unit := do
  let j := (← get).journal
  match j.output with
  | none => return ()
  | some i =>
    let line := lineText j.pending level (Template.message text args)
    modifyJournal fun j => { j with pending := line }
    if line.isEmpty then return ()
    else
      let w ← writeSink i line
      let failed := w.error.isSome || w.count < line.length
      modifyJournal fun j =>
        { j with pending := [], exitCode := if failed then 2 else j.exitCode }

/-- Report an error. -/
def reportError (text : Bytes) (args : List Template.Arg) : Act Host Unit := do
  report (bytes "ERROR") text args
  modifyJournal fun j => { j with exitCode := 1 }

/-- Report an error if there is one. -/
def reportIf : Option Error → Act Host Unit
  | none => return ()
  | some e => reportError (bytes "%v") [.text e.message]

end WordStack.Host

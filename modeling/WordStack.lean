import WordStack.Expectation
import WordStack.Host.Fan
import WordStack.Main
import WordStack.Proofs.Block.Grammar
import WordStack.Proofs.Block.Postfix
import WordStack.Proofs.Program.Nesting
import WordStack.Proofs.Session.Acceptance
import WordStack.Proofs.Session.Delivery
import WordStack.Proofs.Session.Erasure
import WordStack.Proofs.Session.Forward
import WordStack.Proofs.Session.Frame
import WordStack.Proofs.Session.Interruption
import WordStack.Proofs.Session.Loading
import WordStack.Proofs.Session.Printing
import WordStack.Proofs.Session.Safety
import WordStack.Proofs.Session.Rewiring
import WordStack.Proofs.Session.Sequence
import WordStack.Proofs.Session.Strictness
import WordStack.Proofs.Source.Canonical
import WordStack.Proofs.Source.Scanner
import WordStack.Proofs.Text.Numeral
import WordStack.Reader
import WordStack.Proofs.Session.Reach
import WordStack.Proofs.Command.Lines
import WordStack.Proofs.Command.Prepared
import WordStack.Proofs.Command.Status
import WordStack.Proofs.Host.Splitting
import WordStack.Proofs.Command.Journaling
import WordStack.Proofs.Host.Silence
import WordStack.Proofs.Machine.Notes
import WordStack.Proofs.Session.Trace
import WordStack.Proofs.Session.Rehearsal
import WordStack.Proofs.Session.Cause
import WordStack.Proofs.Host.Fan
import WordStack.Proofs.Session.Closing
import WordStack.Proofs.Dump
import WordStack.Proofs.Expectation
import WordStack.Proofs.Session.Marks
import WordStack.Proofs.Session.Wording

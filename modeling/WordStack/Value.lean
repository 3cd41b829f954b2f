import WordStack.Text.Quoted
import WordStack.Text.Template

/-!
# Stack values

A value is a 32-bit integer or a text. Programs only make integers; a text can only be put on the
stack from outside.
-/
namespace WordStack

/-- An entry of the operand stack. -/
inductive Value where
  | int (n : Int32)
  | text (t : Bytes)
  deriving DecidableEq, Repr

namespace Value

/-- A value as `print` writes it. -/
def render : Value → Bytes
  | int n => Decimal.ofInt n.toInt
  | text t => t

/-- The name of a value's type. -/
def kind : Value → Bytes
  | int _ => bytes "main.Int"
  | text _ => bytes "main.Text"

/-- A value in the notation of a literal: a number behind its type, or quoted text. -/
def literal : Value → Bytes
  | int n => bytes "main.Int(" ++ Decimal.ofInt n.toInt ++ bytes ")"
  | text t => Quoted.quote t

/-- A value as an argument of a message. -/
def toArg : Value → Template.Arg
  | int n => .number n.toInt
  | text t => .text t

end Value

/-- Texts between brackets with a space between neighbours. -/
def bracketed (items : List Bytes) : Bytes := bytes "[" ++ joinWith (bytes " ") items ++ bytes "]"

end WordStack

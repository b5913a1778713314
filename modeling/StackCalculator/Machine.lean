import StackCalculator.Message
import StackCalculator.Program.Description
import StackCalculator.Program.Value

/-! # The machine

A machine holds a program, the operators it knows and the variables it binds. It carries out
commands; each command but `clear` adds at most one token, and its answer is the value of the
program after it. What the machine does not know it leaves alone: an unknown operator or a name
without a value changes nothing.
-/

namespace StackCalculator

structure Machine where
  program : Program := .empty
  operators : Operators := .builtin
  -- quoted, since there is a command of this name in larger contexts
  «variables» : Variables := .initial
  style : OperandStyle := .truncated

inductive Command where
  | operand (value : Float)
  | reference (name : String)
  -- binds a name and adds a reference to it
  | set (name : String) (value : Float)
  | operator (symbol : String)
  | clear

namespace Machine

def evaluate (m : Machine) : Option Float :=
  m.program.evaluate m.variables

def describe (m : Machine) : String :=
  m.program.describe m.style

def push (m : Machine) (token : Token) : Machine :=
  { m with program := m.program.push token }

def pushAll (m : Machine) (tokens : List Token) : Machine :=
  { m with program := m.program.pushAll tokens }

def bind (m : Machine) (name : String) (value : Float) : Machine :=
  { m with «variables» := m.variables.set name value }

def perform (m : Machine) : Command → Machine
  | .operand value => m.push (.operand value)
  | .reference name => if m.variables.contains name then m.push (.reference name) else m
  | .set name value => (m.bind name value).push (.reference name)
  | .operator symbol =>
    match m.operators.get? symbol with
    | some op => m.push (.operator op)
    | none => m
  | .clear => { m with program := .empty }

/-- The answer to a command. A name without a value has none, even if the program has a value. -/
def answer (m : Machine) : Command → Option Float
  | .reference name =>
    if m.variables.contains name then (m.perform (.reference name)).evaluate else none
  | .clear => none
  | command => (m.perform command).evaluate

def evaluateTranscript (m : Machine) : List Message :=
  [.evaluated m.program.size m.evaluate]

def pushTranscript (m : Machine) (token : Token) : List Message :=
  .pushed token m.program.size :: (m.push token).evaluateTranscript

def transcript (m : Machine) : Command → List Message
  | .operand value => m.pushTranscript (.operand value)
  | .reference name =>
    if m.variables.contains name then m.pushTranscript (.reference name)
    else [.unknownVariable name]
  | .set name value =>
    .variableSet name value :: (m.bind name value).pushTranscript (.reference name)
  | .operator symbol =>
    match m.operators.get? symbol with
    | some op => m.pushTranscript (.operator op)
    | none => .unknownOperator symbol :: m.evaluateTranscript
  | .clear => [.cleared m.program.size]

end Machine

end StackCalculator

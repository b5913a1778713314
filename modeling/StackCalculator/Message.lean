import StackCalculator.Token

/-! # Messages

What a machine and its keypad report about their work, as a list of messages in the order of events.
-/

namespace StackCalculator

/-- An event that is reported. A number of tokens is that of the program before the event, or, when
it was evaluated, of the evaluated program. -/
inductive Message where
  | pushed (token : Token) (size : Nat)
  | evaluated (size : Nat) (value : Option Float)
  | unknownVariable (name : String)
  | variableSet (name : String) (value : Float)
  | unknownOperator (symbol : String)
  | cleared (size : Nat)
  | malformedEntry (entry : String)
  | nothingToStore (name : String)

inductive Detail where
  | debug
  | trace
deriving DecidableEq

namespace Message

def detail : Message → Detail
  | evaluated .. => .trace
  | _ => .debug

def text : Message → String
  | pushed token size => "push '" ++ token.write ++ "' onto " ++ toString size ++ " token(s)"
  | evaluated size none => "evaluated " ++ toString size ++ " token(s) to None"
  | evaluated size (some value) =>
    "evaluated " ++ toString size ++ " token(s) to Some(" ++ Layout.message.write value ++ ")"
  | unknownVariable name => "ignoring reference to unknown variable '" ++ name ++ "'"
  | variableSet name value => "set variable '" ++ name ++ "' = " ++ Layout.plain.write value
  | unknownOperator symbol => "ignoring unknown operator '" ++ symbol ++ "'"
  | cleared size => "clear program of " ++ toString size ++ " token(s)"
  | malformedEntry entry => "discarding malformed entry '" ++ entry ++ "'"
  | nothingToStore name => "nothing to store into '" ++ name ++ "'"

def line (message : Message) : String :=
  match message.detail with
  | .debug => "DEBUG " ++ message.text
  | .trace => "TRACE " ++ message.text

end Message

end StackCalculator

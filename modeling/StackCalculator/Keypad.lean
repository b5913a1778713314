import StackCalculator.Machine

/-! # The keypad

A keypad is wired to a machine. Typed text collects in an entry that the machine does not see until
another key ends the typing; then the entry is entered as an operand, unless the key stores it under
a name. The display keeps the machine's last answer.
-/

namespace StackCalculator

structure Keypad where
  machine : Machine := {}
  -- the text typed so far, while typing
  entry : Option String := none
  display : Option Float := none

inductive Key where
  | typed (text : String)
  | enter
  | operate (symbol : String)
  | recall (name : String)
  | store (name : String)
  | clear

namespace Keypad

def isTyping (k : Keypad) : Bool :=
  k.entry.isSome

/-- The value at hand: that of the entry while typing, and otherwise the displayed one. -/
def current? (k : Keypad) : Option Float :=
  match k.entry with
  | some text => entryValue? text
  | none => k.display

def dropEntry (k : Keypad) : Keypad :=
  { k with entry := none }

def send (k : Keypad) (command : Command) : Keypad :=
  { k with machine := k.machine.perform command, display := k.machine.answer command }

/-- Enters the value at hand. An entry that is no number is lost, and nothing is displayed then. -/
def enter (k : Keypad) : Keypad :=
  match k.current? with
  | some value => k.dropEntry.send (.operand value)
  | none => { k with entry := none, display := none }

def endTyping (k : Keypad) : Keypad :=
  if k.isTyping then k.enter else k

/-- Binds a name to the value at hand, if there is one. The entry is used up in any case, and what
was typed is not entered as an operand. -/
def store (k : Keypad) (name : String) : Keypad :=
  match k.current? with
  | some value => k.dropEntry.send (.set name value)
  | none => k.dropEntry

@[simp] theorem entry_enter (k : Keypad) : k.enter.entry = none := by
  unfold enter
  split <;> rfl

@[simp] theorem entry_endTyping (k : Keypad) : k.endTyping.entry = none := by
  unfold endTyping
  split
  · exact k.entry_enter
  · simpa [isTyping] using ‹¬ k.isTyping = true›

@[simp] theorem entry_store (k : Keypad) (name : String) : (k.store name).entry = none := by
  unfold store
  split <;> rfl

def press (k : Keypad) : Key → Keypad
  | .typed text => { k with entry := some (k.entry.getD "" ++ text) }
  | .enter => k.enter
  | .operate symbol => k.endTyping.send (.operator symbol)
  | .recall name => k.endTyping.send (.reference name)
  | .store name => k.store name
  | .clear => { machine := k.machine.perform .clear }

/-- What a key gives back: what is displayed after it. Typing and clearing give nothing, and neither
does a store without a value. -/
def reply (k : Keypad) : Key → Option Float
  | .typed _ | .clear => none
  | .store name => if k.current?.isSome then (k.store name).display else none
  | key => (k.press key).display

def pressAll (k : Keypad) (keys : List Key) : Keypad :=
  keys.foldl press k

def displayText (k : Keypad) : String :=
  match k.entry, k.display with
  | some text, _ => text
  | none, some value => Layout.plain.write value
  | none, none => ""

def enterTranscript (k : Keypad) : List Message :=
  match k.current?, k.entry with
  | some value, _ => k.machine.transcript (.operand value)
  | none, some text => [.malformedEntry text]
  | none, none => []

def endTypingTranscript (k : Keypad) : List Message :=
  if k.isTyping then k.enterTranscript else []

def transcript (k : Keypad) : Key → List Message
  | .typed _ => []
  | .enter => k.enterTranscript
  | .operate symbol => k.endTypingTranscript ++ k.endTyping.machine.transcript (.operator symbol)
  | .recall name => k.endTypingTranscript ++ k.endTyping.machine.transcript (.reference name)
  | .store name =>
    match k.current? with
    | some value => k.machine.transcript (.set name value)
    | none => [.nothingToStore name]
  | .clear => k.machine.transcript .clear

def transcriptAll (k : Keypad) : List Key → List Message
  | [] => []
  | key :: keys => k.transcript key ++ (k.press key).transcriptAll keys

end Keypad

end StackCalculator

import StackCalculator.InputError
import StackCalculator.Keypad
import StackCalculator.Script.Source

/-! # Replaying a script

The words of a script are pressed on a keypad, one after another. A number is only typed, and
entered when the next word needs that; what is still being typed at the end is entered too. The
first word that is an error ends the replay and leaves the keypad as the words before it did.
-/

namespace StackCalculator.Script

def PlacedWord.error? (placed : PlacedWord) : Option InputError :=
  match placed.word with
  | .number literal =>
    if (entryValue? literal).isSome then none else some (.invalidNumber literal placed.line)
  | .arrow => some (.missingName placed.line)
  | .unknown c => some (.unexpectedText (String.singleton c) placed.line)
  | _ => none

/-- The keys that a word presses on a keypad. A name is that of an operator if the machine knows one
of this name, and of a variable otherwise. -/
def Word.keys (k : Keypad) : Word → List Key
  | .number literal => if k.isTyping then [.enter, .typed literal] else [.typed literal]
  | .operator symbol => [.operate symbol]
  | .store target => [.store target]
  | .clear => [.clear]
  | .name text => if k.machine.operators.contains text then [.operate text] else [.recall text]
  | .arrow | .lineBreak | .unknown _ => []

/-- Presses words on a keypad. The error is that of the first wrong word. -/
def replayWords (k : Keypad) : List PlacedWord → Keypad × Option InputError
  | [] => (k.endTyping, none)
  | placed :: rest =>
    match placed.error? with
    | some error => (k, some error)
    | none => replayWords (k.pressAll (placed.word.keys k)) rest

def transcriptWords (k : Keypad) : List PlacedWord → List Message
  | [] => k.endTypingTranscript
  | placed :: rest =>
    match placed.error? with
    | some _ => []
    | none =>
      let keys := placed.word.keys k
      k.transcriptAll keys ++ transcriptWords (k.pressAll keys) rest

end StackCalculator.Script

namespace StackCalculator.Keypad

/-- The keypad after a script, and what is displayed then, unless the script is wrong. -/
def replay (k : Keypad) (source : String) : Keypad × Except InputError (Option Float) :=
  match Script.replayWords k (Script.words source) with
  | (k, none) => (k, .ok k.display)
  | (k, some error) => (k, .error error)

def replayTranscript (k : Keypad) (source : String) : List Message :=
  Script.transcriptWords k (Script.words source)

end StackCalculator.Keypad

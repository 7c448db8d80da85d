import LiveDocs.Record

/-!
# Commands

What may be asked of an open document: a JSON object whose field `cmd` names the command.

## Main definitions

* `Command`, `Command.parse`: commands and how they are read.
* `CallStatus`: what a call answers.
-/

namespace LiveDocs

/-- A command for an open document. -/
inductive Command where
  | close
deriving DecidableEq

/-- Why a message is no command. -/
inductive CommandError where
  | unrecognized (name : String)
  | malformed (message : Json)

namespace CommandError

def code : CommandError → String
  | unrecognized _ => "UnrecognizedCommand"
  | malformed _ => "MalformedCommand"

def message : CommandError → String
  | unrecognized name => "unrecognized command '" ++ name ++ "'"
  | malformed json => "malformed command: " ++ json.render

end CommandError

namespace Command

def name : Command → String
  | close => "close"

def parse (message : Json) : Except CommandError Command :=
  match message.record?.bind fun r => r.getStr? "cmd" with
  | none => .error (.malformed message)
  | some "close" => .ok close
  | some other => .error (.unrecognized other)

end Command

/-- What a call on a path answers. -/
inductive CallStatus where
  | notOpen
  | closed
deriving DecidableEq

namespace CallStatus

def text : CallStatus → String
  | notOpen => "not open"
  | closed => "successfully closed"

end CallStatus

end LiveDocs

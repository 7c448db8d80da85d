import LiveDocs.Engine.Control

/-!
# Command server

A server takes commands for the registry over connections. Every text frame is one command and gets
one reply; a frame that is too long is refused without a look at it. Pings are echoed, and all other
frames are passed over.

## Main definitions

* `Frame`, `Server`, `ServerStats`: frames, a server and what it counts.
* `Server.receive`: takes in one frame.
* `Server.connect`, `Server.disconnect`: the start and the end of a connection.
-/

namespace LiveDocs

/-- What arrives over a connection. -/
inductive Frame where
  | text (text : String)
  | binary
  | ping (payload : String)

/-- What is sent back. -/
inductive FrameReply where
  | reply (reply : Record)
  | pong (payload : String)

/-- What a server counts. -/
structure ServerStats where
  totalConnections : Nat
  activeConnections : Nat
  commands : Nat
  failedCommands : Nat
deriving DecidableEq

/-- A server of commands. -/
structure Server where
  /-- The length of the longest frame, in bytes. -/
  maxFrameBytes : Nat
  stats : ServerStats

namespace Server

/-- The length of the longest frame if nothing else is said. -/
def standardFrameBytes : Nat := 65536

def new (maxFrameBytes : Nat) : Server := ⟨maxFrameBytes, ⟨0, 0, 0, 0⟩⟩

def connect (s : Server) : Server :=
  { s with
    stats :=
      { s.stats with
        totalConnections := s.stats.totalConnections + 1
        activeConnections := s.stats.activeConnections + 1 } }

def disconnect (s : Server) : Server :=
  { s with stats := { s.stats with activeConnections := s.stats.activeConnections - 1 } }

/-- Counts a command by its reply. -/
def count (s : Server) (reply : Record) : Server :=
  let failed := if reply.contains "error" then 1 else 0
  { s with
    stats :=
      { s.stats with
        commands := s.stats.commands + 1
        failedCommands := s.stats.failedCommands + failed } }

/-- Runs a command, unless its frame is too long. -/
def command (s : Server) (e : Engine) (text : String) : Record × Engine :=
  if s.maxFrameBytes < text.utf8ByteSize then
    (Registry.errorReply ("frame exceeds " ++ toString s.maxFrameBytes ++ " bytes"), e)
  else e.dispatch text

def receive (s : Server) (e : Engine) : Frame → Server × Engine × Option FrameReply
  | .text text =>
    let (reply, e) := s.command e text
    (s.count reply, e, some (.reply reply))
  | .binary => (s, e, none)
  | .ping payload => (s, e, some (.pong payload))

end Server

end LiveDocs

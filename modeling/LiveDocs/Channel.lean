import LiveDocs.Database.Basic

/-!
# Channels

Every query has a channel of its own: the database sends into it, and the one who asked receives
from it. Either end may go away. What is sent after the receiver has gone is lost, and the receiver
still takes what was sent before the sender went.

## Main definitions

* `Channel`: what was sent and not received yet, and which ends are there.
* `Channels`: channels by number, with `Channels.deliver` for the posts of a database.
-/

namespace LiveDocs

/-- One channel of replies. -/
structure Channel where
  queue : List Reply
  /-- Whether something may still be sent. -/
  hasSender : Bool
  /-- Whether somebody still listens. -/
  hasReceiver : Bool

structure Channels where
  channels : SortedMap SinkId Channel
  next : SinkId

namespace Channel

/-- A channel with both ends. -/
def fresh : Channel := ⟨[], true, true⟩

def send (c : Channel) (reply : Reply) : Channel :=
  if c.hasReceiver ∧ c.hasSender then { c with queue := c.queue ++ [reply] } else c

/-- Whether everything was received and nothing more will come. -/
def isEnded (c : Channel) : Bool := c.queue.isEmpty && !c.hasSender

end Channel

namespace Channels

def empty : Channels := ⟨.empty, 0⟩

/-- Opens a channel. -/
def fresh (cs : Channels) : SinkId × Channels :=
  (cs.next, ⟨cs.channels.insert cs.next .fresh, cs.next + 1⟩)

/-- The channel with a number; one that is not there counts as without ends. -/
def get (cs : Channels) (sink : SinkId) : Channel := (cs.channels.get? sink).getD ⟨[], false, false⟩

def modify (cs : Channels) (sink : SinkId) (change : Channel → Channel) : Channels :=
  match cs.channels.get? sink with
  | some c => { cs with channels := cs.channels.insert sink (change c) }
  | none => cs

def alive (cs : Channels) (sink : SinkId) : Bool := (cs.get sink).hasReceiver

/-- Lets the receiver go; what it did not take is lost. -/
def dropReceiver (cs : Channels) (sink : SinkId) : Channels :=
  cs.modify sink fun c => { c with queue := [], hasReceiver := false }

def dropSender (cs : Channels) (sink : SinkId) : Channels :=
  cs.modify sink fun c => { c with hasSender := false }

/-- Delivers one post. -/
def post (cs : Channels) : Post → Channels
  | .send sink reply => cs.modify sink fun c => c.send reply
  | .finish sink => cs.dropSender sink

def deliver (cs : Channels) (posts : List Post) : Channels := posts.foldl post cs

def drain (cs : Channels) (sink : SinkId) : List Reply × Channels :=
  ((cs.get sink).queue, cs.modify sink fun c => { c with queue := [] })

end Channels

end LiveDocs

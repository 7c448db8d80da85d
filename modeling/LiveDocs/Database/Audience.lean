import LiveDocs.Channel

/-!
# Audiences

Those who listen for the answers of a database, by name. Each hears what was sent to its sink since
it listened last, and once that nothing more will come.

## Main definitions

* `Audience`, `Heard`: listeners by name, and what they hear.
* `Audience.join`, `Audience.leave`: listeners come and go.
* `Audience.listen`: what everybody has heard.
-/

namespace LiveDocs

/-- What a listener hears. -/
inductive Heard where
  | reply (reply : Reply)
  | ended

/-- Somebody who listens at a sink. -/
structure Listener where
  sink : SinkId
  /-- Whether it has heard the end. -/
  ended : Bool

/-- Listeners by name. -/
structure Audience where
  channels : Channels
  listeners : SortedMap String Listener
  /-- The last feed id that a listener has heard. -/
  feedIds : SortedMap String String

namespace Audience

def empty : Audience := ⟨.empty, .empty, .empty⟩

def deliver (a : Audience) (posts : List Post) : Audience :=
  { a with channels := a.channels.deliver posts }

/-- A listener goes; tells whether there was one. -/
def leave (a : Audience) (name : String) : Audience × Bool :=
  match a.listeners.get? name with
  | none => (a, false)
  | some l =>
    ({ a with channels := a.channels.dropReceiver l.sink, listeners := a.listeners.erase name },
      true)

/-- Somebody listens at a sink from now on. -/
def join (a : Audience) (name : String) (sink : SinkId) : Audience :=
  let a := (a.leave name).1
  { a with listeners := a.listeners.insert name ⟨sink, false⟩ }

/-- The last feed id in some replies. -/
def feedIdIn (replies : List Reply) : Option String :=
  replies.foldl (fun found reply => match reply with
    | .ok response => response.id.orElse fun _ => found
    | .error _ => found) none

/-- What one listener has heard. -/
def listenOne (a : Audience) (name : String) (l : Listener) : Audience × List Heard :=
  let (replies, channels) := a.channels.drain l.sink
  let ends := !(channels.get l.sink).hasSender && !l.ended
  let feedIds :=
    match feedIdIn replies with
    | some id => a.feedIds.insert name id
    | none => a.feedIds
  ({ channels, feedIds, listeners := a.listeners.insert name { l with ended := l.ended || ends } },
    replies.map .reply ++ if ends then [.ended] else [])

/-- What everybody has heard, those apart who have heard nothing. -/
def listen (a : Audience) : Audience × List (String × List Heard) :=
  a.listeners.entries.foldl (fun (a, all) (name, l) =>
    let (a, heard) := a.listenOne name l
    (a, if heard.isEmpty then all else all ++ [(name, heard)])) (a, [])

end Audience

end LiveDocs

import LiveDocs.History

/-!
# Replicas

A replica is one copy of a document: the history of patches it knows and the content that follows
from them. Patches from elsewhere come in batches, in any order; a local edit is added to the
history at once and removed again if the data layer refuses it.

## Main definitions

* `Replica`: a history and its content.
* `Replica.ingest`: takes in a batch of patches.
* `Replica.commit`, `Replica.withdraw`: adds a local patch, and takes it back.
* `Replica.dueSnapshot?`, `Replica.recordSnapshot`: snapshots.
-/

namespace LiveDocs

/-- A patch with its id, as it arrives. -/
structure IncomingPatch (π : Type) where
  id : PatchId
  entry : HistoryEntry π

/-- The known history of a document, and its content. -/
structure Replica (δ π : Type) where
  history : History π
  live : δ

namespace Replica

variable {δ π : Type}

def empty (f : Format δ π) : Replica δ π := ⟨.empty, f.empty⟩

/-- Puts a patch behind those with the same or a lower id. -/
def insertById (p : IncomingPatch π) : List (IncomingPatch π) → List (IncomingPatch π)
  | [] => [p]
  | first :: rest => if p.id < first.id then p :: first :: rest else first :: insertById p rest

/-- Patches in the order of their ids; those with one id keep their order. -/
def sortById (batch : List (IncomingPatch π)) : List (IncomingPatch π) :=
  batch.foldl (fun sorted p => insertById p sorted) []

/-- The patches of a batch that a history does not know, each id once. -/
def newPatches (h : History π) : List (IncomingPatch π) → List (IncomingPatch π)
  | [] => []
  | p :: rest =>
    let others := newPatches (h.insert p.id p.entry) rest
    if (h.get? p.id).isNone then p :: others else others

/-- The history with all patches of a batch. -/
def insertAll (h : History π) (batch : List (IncomingPatch π)) : History π :=
  batch.foldl (fun h p => h.insert p.id p.entry) h

/-- Whether an id is newer than the whole history. -/
def isNewest (h : History π) (id : PatchId) : Bool :=
  match h.latest? with
  | none => true
  | some latest => latest < id

/-- The content after a batch of new patches. If all of them are newer than what was known they are
applied to the content as it is; otherwise the content is made again from the history. -/
def contentAfter (f : Format δ π) (r : Replica δ π) (history : History π)
    (news : List (IncomingPatch π)) : Except DocumentError δ :=
  if news.all fun p => isNewest r.history p.id then
    .ok (f.fold r.live (news.map fun p => p.entry.patch))
  else history.content f none

/-- Takes in a batch of patches and tells whether the content has changed. If the content cannot be
made again, the content stays and the patches are known nevertheless. -/
def ingest (f : Format δ π) (r : Replica δ π) (batch : List (IncomingPatch π)) :
    Replica δ π × Except DocumentError Bool :=
  let batch := sortById batch
  let news := newPatches r.history batch
  let history := insertAll r.history batch
  if news.isEmpty then (⟨history, r.live⟩, .ok false)
  else
    match contentAfter f r history news with
    | .error e => (⟨history, r.live⟩, .error e)
    | .ok live =>
      if f.eqv live r.live then (⟨history, r.live⟩, .ok false) else (⟨history, live⟩, .ok true)

/-- The time after a time; the last one stays. -/
def timeAfter (time : UInt64) : UInt64 := if time = 0xffffffffffffffff then time else time + 1

/-- The time of a new patch: the time of the clock, or just after the newest patch. -/
def nextTime (r : Replica δ π) (clock : UInt64) : UInt64 :=
  match r.history.latest? with
  | none => clock
  | some latest => if clock ≤ latest.time then timeAfter latest.time else clock

def nextId (r : Replica δ π) (clock : UInt64) (user : UInt32) : PatchId := ⟨r.nextTime clock, user⟩

def commit (f : Format δ π) (r : Replica δ π) (id : PatchId) (patch : π) : Replica δ π :=
  ⟨r.history.insert id ⟨patch, none⟩, f.apply r.live patch⟩

/-- Takes back a local patch. If the content cannot be made again it stays as it is. -/
def withdraw (f : Format δ π) (r : Replica δ π) (id : PatchId) :
    Replica δ π × Except DocumentError Unit :=
  let history := r.history.erase id
  match history.content f none with
  | .ok live => (⟨history, live⟩, .ok ())
  | .error e => (⟨history, r.live⟩, .error e)

/-- The snapshot to take, if enough patches have followed the last one: the newest patch, and the
content as text. -/
def dueSnapshot? (f : Format δ π) (r : Replica δ π) (interval : Nat) : Option (PatchId × String) :=
  if r.history.sinceSnapshot < max interval 1 then none
  else r.history.latest?.map fun id => (id, f.render r.live)

def recordSnapshot (r : Replica δ π) (id : PatchId) (text : String) : Replica δ π :=
  { r with history := r.history.setSnapshot id text }

def version (f : Format δ π) (r : Replica δ π) (time : UInt64) : Except DocumentError δ :=
  r.history.content f (some time)

end Replica

end LiveDocs

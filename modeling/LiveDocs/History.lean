import LiveDocs.Document.Format

/-!
# Patch histories

The history of a document: its patches in the order of time, and of user at one time. A patch may
carry a snapshot, the text of the content after it. The content at any point is the newest snapshot
up to there with all later patches applied.

## Main definitions

* `PatchId`: the place of a patch in a history.
* `History`: patches with optional snapshots, by id.
* `History.insert`, `History.setSnapshot`, `History.erase`: changing a history.
* `History.content`: the content at a point of the history.
* `History.replay`: the content with all snapshots ignored.
-/

namespace LiveDocs

/-- The place of a patch: its time, and its user for patches of one time. -/
structure PatchId where
  time : UInt64
  user : UInt32
deriving DecidableEq

namespace PatchId

instance : LT PatchId := ⟨fun a b => a.time < b.time ∨ (a.time = b.time ∧ a.user < b.user)⟩

instance : DecidableLT PatchId := fun a b =>
  inferInstanceAs (Decidable (a.time < b.time ∨ (a.time = b.time ∧ a.user < b.user)))

/-- At or before, in the order of the history. -/
instance : LE PatchId := ⟨fun a b => ¬ b < a⟩

instance : DecidableLE PatchId := fun a b => inferInstanceAs (Decidable (¬ b < a))

theorem lt_iff {a b : PatchId} :
    a < b ↔ a.time < b.time ∨ (a.time = b.time ∧ a.user < b.user) := Iff.rfl

theorem le_iff {a b : PatchId} : a ≤ b ↔ ¬ b < a := Iff.rfl

instance : OrderedKey PatchId where
  trans {a b c} hab hbc := by
    rw [lt_iff] at *
    simp only [UInt64.lt_iff_toNat_lt, UInt32.lt_iff_toNat_lt, ← UInt64.toNat_inj] at *
    omega
  irrefl a h := by
    rw [lt_iff] at h
    simp only [UInt64.lt_iff_toNat_lt, UInt32.lt_iff_toNat_lt] at h
    omega
  lt_of_not_lt_of_ne {a b} h hne := by
    have hne' : ¬ (a.time.toNat = b.time.toNat ∧ a.user.toNat = b.user.toNat) := fun ⟨ht, hu⟩ =>
      hne (by cases a; cases b; simp_all [UInt64.toNat_inj, UInt32.toNat_inj])
    rw [lt_iff] at *
    simp only [UInt64.lt_iff_toNat_lt, UInt32.lt_iff_toNat_lt, ← UInt64.toNat_inj] at *
    omega

/-- The greatest id of a time. -/
def lastAt (time : UInt64) : PatchId := ⟨time, 0xffffffff⟩

/-- The greatest id of all. -/
def last : PatchId := lastAt 0xffffffffffffffff

end PatchId

/-- A patch of a history and the snapshot it may carry. -/
structure HistoryEntry (π : Type) where
  patch : π
  snapshot : Option String

/-- A history: entries by id. -/
structure History (π : Type) where
  entries : SortedMap PatchId (HistoryEntry π)

namespace History

variable {δ π : Type}

def empty : History π := ⟨.empty⟩

def ids (h : History π) : List PatchId := h.entries.keys

def latest? (h : History π) : Option PatchId := h.entries.last?.map Prod.fst

def get? (h : History π) (id : PatchId) : Option (HistoryEntry π) := h.entries.get? id

def size (h : History π) : Nat := h.entries.size

/-- Adds a patch. An id that is present keeps its patch and a snapshot it has; only a missing
snapshot is filled in. -/
def insert (h : History π) (id : PatchId) (entry : HistoryEntry π) : History π :=
  match h.get? id with
  | none => ⟨h.entries.insert id entry⟩
  | some old =>
    match old.snapshot, entry.snapshot with
    | none, some snapshot => ⟨h.entries.insert id { old with snapshot := some snapshot }⟩
    | _, _ => h

/-- Whether `insert` would change the history. -/
def wouldChange (h : History π) (id : PatchId) (entry : HistoryEntry π) : Bool :=
  match h.get? id with
  | none => true
  | some old => old.snapshot.isNone && entry.snapshot.isSome

/-- Gives a patch a snapshot if it has none. -/
def setSnapshot (h : History π) (id : PatchId) (snapshot : String) : History π :=
  match h.get? id with
  | some old =>
    match old.snapshot with
    | none => ⟨h.entries.insert id { old with snapshot := some snapshot }⟩
    | some _ => h
  | none => h

/-- Whether a patch is there and has no snapshot. -/
def lacksSnapshot (h : History π) (id : PatchId) : Bool :=
  match h.get? id with
  | some old => old.snapshot.isNone
  | none => false

def erase (h : History π) (id : PatchId) : History π := ⟨h.entries.erase id⟩

/-- Whether an id is within a bound; without a bound all are. -/
def within (bound : Option PatchId) (id : PatchId) : Bool :=
  match bound with
  | none => true
  | some b => id ≤ b

/-- The entries up to a bound, in order. -/
def upTo (h : History π) (bound : Option PatchId) : List (PatchId × HistoryEntry π) :=
  h.entries.entries.takeWhile fun e => within bound e.1

/-- The newest patch with a snapshot, at or before a bound. It is searched from the end. -/
def nearestSnapshot? (h : History π) (bound : Option PatchId) :
    Option (PatchId × HistoryEntry π) :=
  (h.entries.rangeTo (bound.getD .last)).reverse.find? fun e => e.2.snapshot.isSome

/-- The number of patches after the newest snapshot. -/
def sinceSnapshot (h : History π) : Nat :=
  match h.nearestSnapshot? none with
  | some (id, _) => (h.entries.rangeFrom id).length - 1
  | none => h.size

/-- The patches of some entries. -/
def patchesOf (entries : List (PatchId × HistoryEntry π)) : List π :=
  entries.map fun e => e.2.patch

/-- The content after all patches up to a time, all of them if none is given. The newest snapshot
there replaces the patches up to it. -/
def content (f : Format δ π) (h : History π) (upTo? : Option UInt64) : Except DocumentError δ :=
  let bound := upTo?.map PatchId.lastAt
  match h.nearestSnapshot? bound with
  | some (id, entry) =>
    match f.parse (entry.snapshot.getD "") with
    | .error e => .error e
    | .ok base =>
      let later := ((h.entries.rangeFrom id).drop 1).takeWhile fun e => within bound e.1
      .ok (f.fold base (patchesOf later))
  | none => .ok (f.fold f.empty (patchesOf (h.upTo bound)))

/-- The content after all patches up to a time, from the empty document and without snapshots. -/
def replay (f : Format δ π) (h : History π) (upTo? : Option UInt64) : δ :=
  f.fold f.empty (patchesOf (h.upTo (upTo?.map PatchId.lastAt)))

end History

end LiveDocs

import LiveDocs.Record
import LiveDocs.Document.Error

/-!
# Settings

Timeouts and the snapshot policy of tables and documents, in milliseconds and patches, and the text
of a duration.

## Main definitions

* `Settings`: the settings, with `Settings.standard` and `Settings.brisk`.
* `Settings.override?`: settings with some of them replaced by the fields of a record.
* `durationText`: a number of milliseconds as text.
-/

namespace LiveDocs

/-- Timeouts in milliseconds and the snapshot policy. -/
structure Settings where
  /-- The timeout attached to changefeed queries. -/
  feedTimeout : UInt64
  /-- How long a write waits for its acknowledgement. -/
  writeTimeout : UInt64
  /-- The number of patches between two snapshots. -/
  snapshotInterval : UInt64
  /-- The bound on the time a document takes to become ready, zero for none. -/
  initTimeout : UInt64
deriving DecidableEq

namespace Settings

/-- The settings that hold if nothing else is said. -/
def standard : Settings := ⟨30000, 15000, 300, 0⟩

/-- Short timeouts and frequent snapshots. -/
def brisk : Settings := ⟨2000, 2000, 5, 5000⟩

/-- The bound on the time a document takes to become ready. -/
def initLimit? (s : Settings) : Option UInt64 :=
  if s.initTimeout = 0 then none else some s.initTimeout

/-- A field that, if it is there, has to be a natural number. -/
def naturalOr? (r : Record) (key : String) (default : UInt64) : Option UInt64 :=
  match r.get? key with
  | none => some default
  | some value => value.natural?

/-- These settings with those that a record names replaced; `none` if one has a wrong value. -/
def override? (s : Settings) (r : Record) : Option Settings := do
  let feedTimeout ← naturalOr? r "feed_timeout_ms" s.feedTimeout
  let writeTimeout ← naturalOr? r "write_timeout_ms" s.writeTimeout
  let snapshotInterval ← naturalOr? r "snapshot_interval" s.snapshotInterval
  let initTimeout ← naturalOr? r "init_timeout_ms" s.initTimeout
  some ⟨feedTimeout, writeTimeout, snapshotInterval, initTimeout⟩

def toRecord (s : Settings) : Record :=
  .ofList
    [("feed_timeout_ms", .ofUInt64 s.feedTimeout), ("write_timeout_ms", .ofUInt64 s.writeTimeout),
      ("snapshot_interval", .ofUInt64 s.snapshotInterval),
      ("init_timeout_ms", .ofUInt64 s.initTimeout)]

end Settings

/-- The text of a number of milliseconds: in milliseconds below a second, else in seconds with the
zeros at the end of the fraction left out. -/
def durationText (milliseconds : Nat) : String :=
  if milliseconds = 0 then "0ns"
  else if milliseconds < 1000 then toString milliseconds ++ "ms"
  else
    let seconds := toString (milliseconds / 1000)
    let thousandths := (Nat.toDigits 10 (1000 + milliseconds % 1000)).drop 1
    match (thousandths.reverse.dropWhile (· == '0')).reverse with
    | [] => seconds ++ "s"
    | fraction => seconds ++ "." ++ String.ofList fraction ++ "s"

end LiveDocs

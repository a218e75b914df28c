import MbrcPlugin.Lib.OrderedTable
import MbrcPlugin.Lib.ChangeFeed
import Mathlib.Data.String.Basic
import Mathlib.Data.List.Sort
import Mathlib.Data.List.Dedup

/-!
# The library change log

The log behind `library_changes`: every index pass that finds a track added, edited or removed
bumps one generation and files each moved path under it.  Each path keeps only its latest
change; removals are kept as tombstones up to `maxTombstones`, and dropping one raises the
floor.  The model keeps both tables of the store, because a read walks one (in the order of
generation and path) and a pass diffs against the other (in the order of paths).
-/

namespace Mbrc

/-- A track's path. -/
abbrev Path := String

/-- The name of one run of the log: 64 random bits as hex. -/
abbrev Epoch := String

/-- The key of a row of `CHANGE_LOG`: generation first, then path. -/
abbrev LogKey := Nat ×ₗ Path

/-- One filed change: the path, and whether it is in the library now. -/
abbrev Change := ChangeFeed.Change Path

/-- Deletes remembered before the oldest are forgotten. -/
def maxTombstones : Nat := 10000

/-- Where a reader stands in the log: what it last read, in which run of it. -/
structure Cursor where
  epoch : Epoch
  generation : Nat
  deriving DecidableEq

/-- A resumable position inside one read of the log. -/
structure Continuation where
  epoch : Epoch
  since : Option Nat
  /-- The source's `until`. -/
  untilGen : Nat
  total : Nat
  generation : Nat
  src : Path
  deriving DecidableEq

/-- Where a read starts. -/
inductive ReadFrom where
  /-- Everything in the library now; deletes are left out. -/
  | start
  | since (cursor : Cursor)
  | resume (continuation : Continuation)
  deriving DecidableEq

/-- One page of a read. -/
inductive ChangePage where
  /-- The cursor cannot be answered from this log; start again from nothing. -/
  | resync (head : Cursor)
  | changes (head : Cursor) (total : Nat) (changes : List Change) (next : Option Continuation)
  deriving DecidableEq

/-- The log's part of the store: its keys of `META` (a number absent is zero) and its two
tables.  `CHANGE_LOG` does not exist before the first filing. -/
structure ChangeLog where
  epoch : Option Epoch
  generation : Nat
  floor : Nat
  tombstones : Nat
  live : Nat
  /-- Path to its latest change: the generation, and whether it is in the library. -/
  trackChanges : Table Path (Nat × Bool)
  /-- The same changes in the order a reader walks. -/
  changeLog : Option (Table LogKey Bool)

namespace ChangeLog

/-- A log nothing was written to, as a store starts and as `reset` leaves it. -/
def empty : ChangeLog where
  epoch := none
  generation := 0
  floor := 0
  tombstones := 0
  live := 0
  trackChanges := Table.empty
  changeLog := none

/-- `CHANGE_LOG` as a write transaction opens it: created when it is missing. -/
def log (c : ChangeLog) : Table LogKey Bool := c.changeLog.getD Table.empty

/-- The log's current epoch and generation, or `none` before its first pass. -/
def head (c : ChangeLog) : Option Cursor :=
  c.epoch.map fun epoch => { epoch, generation := c.generation }

/-- Those of `paths` the last listing filed as in the music library. -/
def liveAmong (c : ChangeLog) (paths : List Path) : List Path :=
  paths.filter fun path => ((c.trackChanges.get? path).map (·.2)).getD false

/-! ## Recording a pass -/

/-- Sorted, without repeats. -/
def sortDedup (paths : List Path) : List Path := (paths.insertionSort (· ≤ ·)).dedup

/-- The merge of the sorted listing against the path-ordered log: what the listing adds, in
any order, and what it no longer lists. -/
def diffWalk : List Path → List (Path × Nat × Bool) → List Path × List Path
  | listed, [] => (listed, [])
  | listed, (path, _, live) :: rows =>
    let passed := listed.takeWhile (· < path)
    let rest := listed.dropWhile (· < path)
    if rest.head? = some path then
      let (added, removed) := diffWalk rest.tail rows
      (passed ++ (if live then added else path :: added), removed)
    else
      let (added, removed) := diffWalk rest rows
      (passed ++ added, if live then path :: removed else removed)

/-- The paths `paths` adds to the log and the ones it no longer lists, both sorted. -/
def diff (known : Table Path (Nat × Bool)) (paths : List Path) : List Path × List Path :=
  let (added, removed) := diffWalk (sortDedup paths) known.rows
  (added.insertionSort (· ≤ ·), removed)

/-- What the loop over the filings carries: the two counters and the two tables. -/
structure Filing where
  tombstones : Nat
  inLibrary : Nat
  known : Table Path (Nat × Bool)
  log : Table LogKey Bool

/-- One turn of the filing loop: the path's old row leaves the log, its new one goes in. -/
def Filing.file (next : Nat) (st : Filing) (filing : Path × Bool) : Filing :=
  let (path, live) := filing
  let was := st.known.get? path
  let wasLive := (was.map (·.2)).getD false
  let log := match was with
    | some (generation, _) => st.log.erase (toLex (generation, path))
    | none => st.log
  let tombstones := if was.isSome && !wasLive then st.tombstones - 1 else st.tombstones
  { tombstones := if live then tombstones else tombstones + 1
    inLibrary := match wasLive, live with
      | false, true => st.inLibrary + 1
      | true, false => st.inLibrary - 1
      | _, _ => st.inLibrary
    known := st.known.insert path (next, live)
    log := log.insert (toLex (next, path)) live }

/-- The `count` oldest tombstones; the loop stores a row before it looks at the count. -/
def oldestTombstones (log : Table LogKey Bool) (count : Nat) : List LogKey :=
  ((log.rows.filter fun row => !row.2).map (·.1)).take (max 1 count)

/-- Drops the `count` oldest tombstones; answers the newest generation dropped. -/
def forgetOldestTombstones (known : Table Path (Nat × Bool)) (log : Table LogKey Bool)
    (count : Nat) : Table Path (Nat × Bool) × Table LogKey Bool × Option Nat :=
  let oldest := oldestTombstones log count
  (known.eraseAll (oldest.map fun key => (ofLex key).2), log.eraseAll oldest,
   oldest.getLast?.map fun key => (ofLex key).1)

/-- The changes a pass files, as `record_in` collects them: what the listing added, the
updated paths that are in the library and were not added by it, then what it removed. -/
def filings (c : ChangeLog) (paths : Option (List Path)) (updated : List Path) :
    List (Path × Bool) :=
  let (added, removed) := match paths with
    | some paths => diff c.trackChanges paths
    | none => ([], [])
  let edited := sortDedup ((c.liveAmong updated).filter fun path => path ∉ added)
  ((added ++ edited).map fun path => (path, true)) ++ removed.map fun path => (path, false)

/-- Files `moved` under the next generation, and forgets the tombstones past the limit. -/
def fileAll (c : ChangeLog) (moved : List (Path × Bool)) : ChangeLog :=
  let next := c.generation + 1
  let st := moved.foldl (Filing.file next) ⟨c.tombstones, c.live, c.trackChanges, c.log⟩
  if st.tombstones > maxTombstones then
    let (known, log, floor) :=
      forgetOldestTombstones st.known st.log (st.tombstones - maxTombstones)
    { c with
      generation := next, tombstones := maxTombstones, live := st.inLibrary,
      floor := floor.getD c.floor, trackChanges := known, changeLog := some log }
  else
    { c with
      generation := next, tombstones := st.tombstones, live := st.inLibrary,
      trackChanges := st.known, changeLog := some st.log }

/-- Files one index pass, `newEpoch` being the epoch drawn if the pass starts one.  Answers the
new generation, or `none` when nothing moved. -/
def record (c : ChangeLog) (newEpoch : Epoch) (paths : Option (List Path))
    (updated : List Path) : ChangeLog × Option Nat :=
  if c.epoch.isNone && paths.isNone then (c, none)
  else
    let c := { c with epoch := some (c.epoch.getD newEpoch) }
    let moved := c.filings paths updated
    if moved.isEmpty then (c, none)
    else (c.fileAll moved, some (c.generation + 1))

/-- Forgets the log, so the next pass starts a new epoch. -/
def reset (_ : ChangeLog) : ChangeLog := empty

/-! ## Reading -/

/-- The rows after the last one served, or from the first generation past `since`, and up to
`untilGen`. -/
def inRange (since : Option Nat) (untilGen : Nat) (after : Option LogKey) (key : LogKey) :
    Bool :=
  (match after with
    | some last => decide (last < key)
    | none => decide (toLex ((since.map (· + 1)).getD 0, "") ≤ key)) &&
  decide (key < toLex (untilGen + 1, ""))

/-- The loop over the rows of the range: dead rows are passed over when the read started from
nothing, and a row past the limit says there is more. -/
def serve (fromStart : Bool) : Nat → List (LogKey × Bool) → List Change × Bool
  | _, [] => ([], false)
  | limit, (key, live) :: rows =>
    if !live && fromStart then serve fromStart limit rows
    else match limit with
      | 0 => ([], true)
      | limit + 1 =>
        let (changes, more) := serve fromStart limit rows
        (⟨(ofLex key).1, (ofLex key).2, live⟩ :: changes, more)

/-- The window a read asks for: `since`, `until`, and the last row served. -/
def window (c : ChangeLog) : ReadFrom → Option Nat × Nat × Option LogKey
  | .start => (none, c.generation, none)
  | .since cursor => (some cursor.generation, c.generation, none)
  | .resume k => (k.since, k.untilGen, some (toLex (k.generation, k.src)))

/-- The cursor is of another run of the log, or of a window past its end. -/
def foreign (c : ChangeLog) (epoch : Epoch) : ReadFrom → Bool
  | .start => false
  | .since cursor => cursor.epoch ≠ epoch
  | .resume k => k.epoch ≠ epoch || k.untilGen > c.generation

/-- The window starts below the floor or past the end of the log. -/
def unanswerable (c : ChangeLog) (since : Option Nat) : Bool :=
  since.any fun s => s < c.floor || s > c.generation

/-- Reads up to `limit` changes.  `none` before the log's first pass; a cursor from another
epoch, below the floor, or ahead of the log is told to resync.  The source takes a full page
to have a last change, which it has for every limit but zero. -/
def read (c : ChangeLog) (source : ReadFrom) (limit : Nat) : Option ChangePage :=
  c.epoch.map fun epoch =>
    let (since, untilGen, after) := c.window source
    let head : Cursor := { epoch, generation := untilGen }
    if c.foreign epoch source || c.unanswerable since then
      .resync { epoch, generation := c.generation }
    else match c.changeLog with
      | none => .changes head 0 [] none
      | some log =>
        let rows := log.range (inRange since untilGen after)
        let total := match source with
          | .start => c.live
          | .since _ => rows.length
          | .resume k => k.total
        let (changes, more) := serve since.isNone limit rows
        let next := if more then
            changes.getLast?.map fun last =>
              { epoch, since, untilGen, total, generation := last.generation, src := last.src }
          else none
        .changes head total changes next

end ChangeLog

end Mbrc

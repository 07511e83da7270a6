import Mathlib

/-!
# The axia-db commit pipeline: data model

This file fixes the data that `DbInner` (`src/db.rs`) keeps in memory and hands between its
worker threads: the tunables, keys and values, a changeset and the `Commit` built from it,
the `CommitQueue`, the error kinds, and the options that decide which workers `open_inner`
spawns.

Machine integers of the source become `Nat` (record ids and byte counts, `u64`/`usize`) or
`Int` (the signed log-queue account, `i64`); a `ColId` stays a `u8`. A key is the 32-byte
hash `table::Key`; the hashing of a raw key by `Column::hash` is not modelled, so every key in
this development is already hashed, as `commit_raw` receives it.
-/

namespace AxiaDb

/-! ## Tunables -/

/-- `MAX_COMMIT_QUEUE_BYTES`: past this many queued bytes a producer waits. -/
def maxCommitQueueBytes : Nat := 16 * 1024 * 1024

/-- `MAX_LOG_QUEUE_BYTES`: past this many logged, unenacted bytes the log worker waits. -/
def maxLogQueueBytes : Int := 128 * 1024 * 1024

/-- `MIN_LOG_SIZE`: the rotation floor the flush worker passes in the default mode. -/
def minLogSize : Nat := 64 * 1024 * 1024

/-- `KEEP_LOGS`: dirty log files kept back when `sync_data` is off. -/
def keepLogs : Nat := 16

/-! ## Keys, values and changesets -/

/-- `ColId`, a `u8`. -/
abbrev ColId := UInt8

/-- `table::Key`: the 32-byte hash of a raw key. -/
abbrev Key := Mathlib.Vector UInt8 32

/-- `Value`, a `Vec<u8>`. -/
abbrev Value := List UInt8

/-- One entry of a changeset, `(ColId, Key, Option<Value>)`; `none` deletes. -/
abbrev Change := ColId × Key × Option Value

/-- What one changeset entry adds to a commit's size in `commit_raw`: the key's length and
the value's length, or nothing for a deletion. -/
def changeBytes (ch : Change) : Nat :=
  ch.2.1.length + (ch.2.2.map List.length).getD 0

/-- The `bytes` that `commit_raw` accumulates over a changeset. -/
def changesetBytes (cs : List Change) : Nat :=
  cs.foldl (fun bytes ch => bytes + changeBytes ch) 0

/-- `Commit`: a queued changeset with its id and size. -/
structure Commit where
  id : Nat
  bytes : Nat
  changeset : List Change
  deriving DecidableEq

/-- `CommitQueue`: the last allocated commit number, the queued bytes and the FIFO. -/
structure CommitQueue where
  recordId : Nat
  bytes : Nat
  commits : List Commit
  deriving DecidableEq

/-! ## Errors -/

/-- The error kinds the pipeline passes around (`error::Error`, the variants used here). -/
inductive Error where
  /-- A failed call into a column or into the log, e.g. an I/O error. -/
  | io
  /-- `Error::Corruption(msg)`. -/
  | corruption (msg : String)
  /-- `Error::Background(err)`, returned to a client after a worker failed. -/
  | background (e : Error)
  deriving DecidableEq

/-! ## Options -/

/-- `EnableCommitPipelineStages`: which workers `open_inner` spawns. -/
inductive EnableCommitPipelineStages where
  /-- No threads started, data stays in commit overlay. -/
  | commitOverlay
  /-- Log worker run, data processed up to the log overlay. -/
  | logOverlay
  /-- Running all, flushing every record. -/
  | dbFile
  /-- Default run mode. -/
  | standard
  deriving DecidableEq

namespace EnableCommitPipelineStages

def spawnCommitThread : EnableCommitPipelineStages → Bool
  | .commitOverlay | .logOverlay => false
  | .dbFile | .standard => true

def spawnLogThread : EnableCommitPipelineStages → Bool
  | .commitOverlay => false
  | .logOverlay | .dbFile | .standard => true

def spawnFlushThread (m : EnableCommitPipelineStages) : Bool := m.spawnLogThread

def spawnCleanupThread (m : EnableCommitPipelineStages) : Bool := m.spawnCommitThread

def doDrop (m : EnableCommitPipelineStages) : Bool := m == .standard

/-- The `min_log_size` that `open_inner` hands to the flush worker. -/
def flushMinLogSize (m : EnableCommitPipelineStages) : Nat :=
  if m == .dbFile then 0 else minLogSize

end EnableCommitPipelineStages

/-- The per-column flag of `Metadata` that the core reads. -/
structure ColumnOptions where
  refCounted : Bool
  deriving DecidableEq

/-- Everything fixed when `Db::open_inner` returns: the column metadata, `options.sync_data`,
the internal options `read_only` and `commit_stages`, the column contents, `last_enacted` and
`next_reindex` as `replay_all_logs` leaves them, the id the log façade stamps on its first
record, and the number of client threads that will use the database. -/
structure Setup where
  columns : List ColumnOptions
  syncData : Bool
  readOnly : Bool
  stages : EnableCommitPipelineStages
  tables : ColId → Key → Option Value
  lastEnacted : Nat
  nextReindex : Nat
  firstRecordId : Nat
  clients : Nat

namespace Setup

/-- `metadata.columns[c].ref_counted`. -/
def refCounted (σ : Setup) (c : ColId) : Bool :=
  (σ.columns[c.toNat]?.map ColumnOptions.refCounted).getD false

/-- A column index `self.columns[c]` does not panic on. -/
def validCol (σ : Setup) (c : ColId) : Bool := c.toNat < σ.columns.length

end Setup

/-! ## Lemmas -/

@[simp] theorem changesetBytes_nil : changesetBytes [] = 0 := rfl

theorem foldl_add_changeBytes (cs : List Change) (b : Nat) :
    cs.foldl (fun bytes ch => bytes + changeBytes ch) b = b + changesetBytes cs := by
  induction cs generalizing b with
  | nil => rfl
  | cons ch cs ih =>
    rw [changesetBytes, List.foldl_cons, List.foldl_cons, ih, ih (0 + changeBytes ch)]
    omega

/-- The loop of `commit_raw` computes the sum of the entries' sizes. -/
theorem changesetBytes_cons (ch : Change) (cs : List Change) :
    changesetBytes (ch :: cs) = changeBytes ch + changesetBytes cs := by
  rw [changesetBytes, List.foldl_cons, foldl_add_changeBytes]
  omega

end AxiaDb

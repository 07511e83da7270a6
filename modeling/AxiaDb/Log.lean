import AxiaDb.Overlay

/-!
# The write-ahead log, as the core sees it

`src/db.rs` drives its write-ahead log through the `Log` façade of `log.rs`, which is not
part of the modelled sources: only its calls are. The definitions below are modelled from the
façade contract of the spec (§6):

* `begin_record` allocates the next record id and `end_record` closes the record into the log
  file being written, or starts a new file (`Log.beginRecord`, `Log.endRecord`);
* `flush_one(min_size)` makes the oldest closed file durable and enactable, unless it is the
  file still being written and is smaller than `min_size`; it reports whether more is left to
  flush (`Log.flushOne`), so that one call may leave records behind;
* `read_next` hands the enact stage the next durable record, and `end_read` marks a file dirty
  once all its records are enacted (`Log.readNext`);
* `clean_logs`, `num_dirty_logs` and `kill_logs` retire files.

`columnGet` is `Column::get(key, log.overlays())` as that contract describes it: the newest
value a record closed in this run wrote, enacted or not, and otherwise the column's value at
open; `columnGetSize` is `Column::get_size`, its length.
-/

namespace AxiaDb

/-- What a log record carries, as far as the core can tell. -/
inductive RecordBody where
  /-- The record `process_commits` writes for a commit: the column plans of its changeset. -/
  | commit (c : Commit)
  /-- A record of `process_reindex`: relocated index entries, and `DropTable` for the column
  whose old index table is retired, if one is. -/
  | reindex (dropTable : Option ColId)
  deriving DecidableEq

namespace RecordBody

def commit? : RecordBody → Option Commit
  | .commit c => some c
  | .reindex _ => none

/-- Whether enacting the record runs `drop_index` and then `start_reindex`. -/
def dropsTable : RecordBody → Bool
  | .commit _ => false
  | .reindex d => d.isSome

end RecordBody

/-- A closed log record: the id `begin_record` stamped, the bytes `end_record` returned, and
its content. -/
structure LogRecord where
  id : Nat
  bytes : Nat
  body : RecordBody
  deriving DecidableEq

/-- Modelled from the spec: the state of the `Log` façade. `pending` are the closed files not
yet flushed, oldest first, the last one being the file `end_record` appends to; `enactable`
are the flushed files whose records the enact stage has not read yet; `dirty` counts fully
enacted files not yet removed. -/
structure Log where
  nextRecordId : Nat
  pending : List (List LogRecord)
  enactable : List (List LogRecord)
  dirty : Nat
  deriving DecidableEq

/-- Append a record to the last file, or to a new file. -/
def pushRecord : List (List LogRecord) → LogRecord → Bool → List (List LogRecord)
  | [], r, _ => [[r]]
  | [f], r, newFile => if newFile then [f, [r]] else [f ++ [r]]
  | f :: g :: fs, r, newFile => f :: pushRecord (g :: fs) r newFile

/-- The bytes of a log file. -/
def fileBytes (f : List LogRecord) : Nat := (f.map LogRecord.bytes).sum

/-- The next durable record, its file's remaining records, and whether the file is done. -/
def takeRecord : List (List LogRecord) → Option (LogRecord × List (List LogRecord) × Bool)
  | [] => none
  | [] :: fs => takeRecord fs
  | (r :: rs) :: fs => some (r, if rs.isEmpty then fs else rs :: fs, rs.isEmpty)

namespace Log

/-- Modelled from the spec: `begin_record` allocates and stamps the next record id. -/
def beginRecord (l : Log) : Log := { l with nextRecordId := l.nextRecordId + 1 }

/-- Modelled from the spec: `end_record` closes record `r` into the file being written, or,
when the façade rotates (`newFile`), into a new file. -/
def endRecord (l : Log) (r : LogRecord) (newFile : Bool) : Log :=
  { l with pending := pushRecord l.pending r newFile }

/-- Modelled from the spec: `flush_one(min_size)` returns the new state and
`(has_more_to_flush, has_enactable_record, has_cleanup_candidate)`. -/
def flushOne (l : Log) (minSize : Nat) : Log × Bool × Bool × Bool :=
  match l.pending with
  | f :: rest =>
    if rest ≠ [] ∨ minSize ≤ fileBytes f then
      ({ l with pending := rest, enactable := l.enactable ++ [f] }, !rest.isEmpty, true,
        decide (0 < l.dirty))
    else (l, false, !l.enactable.isEmpty, decide (0 < l.dirty))
  | [] => (l, false, !l.enactable.isEmpty, decide (0 < l.dirty))

/-- Modelled from the spec: `read_next(false)` yields the next durable record, and the
`end_read` that follows its enactment marks its file dirty once the file is used up. -/
def readNext (l : Log) : Option (LogRecord × Log) :=
  (takeRecord l.enactable).map fun (r, fs, done) =>
    (r, { l with enactable := fs, dirty := if done then l.dirty + 1 else l.dirty })

/-- Modelled from the spec: `clean_logs(n)` removes `n` dirty files. -/
def cleanLogs (l : Log) (n : Nat) : Log := { l with dirty := l.dirty - n }

/-- Modelled from the spec: `kill_logs` deletes every remaining log file. -/
def killLogs (l : Log) : Log := { l with pending := [], enactable := [], dirty := 0 }

/-- The closed records the log still holds for the enact stage, in the order it will hand them
over: the flushed files, then the files not flushed yet. -/
def records (l : Log) : List LogRecord := l.enactable.flatten ++ l.pending.flatten

end Log

/-! ## Reading through the log -/

/-- The commits whose records are among `rs`, in order. -/
def commitsOf (rs : List LogRecord) : List Commit := rs.filterMap fun r => r.body.commit?

/-- Modelled from the spec: `Column::get(key, log.overlays())`, the newest value a record
closed in this run wrote to `(c, k)`, enacted or not, else the column's value at open.
Reindex records relocate entries and change no value. -/
def columnGet (tables : ColId → Key → Option Value) (closed : List LogRecord) (c : ColId)
    (k : Key) : Option Value :=
  (lastWriteOf c k (commitsOf closed)).getD (tables c k)

/-- Modelled from the spec: `Column::get_size(key, log.overlays())`, the length of the value
`Column::get` reads. -/
def columnGetSize (tables : ColId → Key → Option Value) (closed : List LogRecord) (c : ColId)
    (k : Key) : Option Nat :=
  (columnGet tables closed c k).map List.length

/-! ## Lemmas -/

@[simp] theorem flatten_pushRecord :
    ∀ (fs : List (List LogRecord)) (r : LogRecord) (b : Bool),
      (pushRecord fs r b).flatten = fs.flatten ++ [r]
  | [], _, _ => rfl
  | [f], r, b => by cases b <;> simp [pushRecord]
  | f :: g :: fs, r, b => by simp [pushRecord, flatten_pushRecord (g :: fs) r b]

@[simp] theorem commitsOf_nil : commitsOf [] = [] := rfl

@[simp] theorem commitsOf_append (l₁ l₂ : List LogRecord) :
    commitsOf (l₁ ++ l₂) = commitsOf l₁ ++ commitsOf l₂ := by
  simp [commitsOf]

@[simp] theorem commitsOf_singleton (r : LogRecord) : commitsOf [r] = r.body.commit?.toList := by
  cases h : r.body.commit? <;> simp [commitsOf, h]

theorem takeRecord_flatten : ∀ {fs : List (List LogRecord)} {r : LogRecord}
    {fs' : List (List LogRecord)} {d : Bool}, takeRecord fs = some (r, fs', d) →
      fs.flatten = r :: fs'.flatten
  | [] :: fs, _, _, _, h => by simpa [takeRecord] using @takeRecord_flatten fs _ _ _ h
  | (r :: rs) :: fs, _, _, _, h => by
    simp only [takeRecord, Option.some.injEq, Prod.mk.injEq] at h
    obtain ⟨rfl, rfl, -⟩ := h
    cases rs <;> simp

theorem takeRecord_eq_none : ∀ {fs : List (List LogRecord)}, takeRecord fs = none → fs.flatten = []
  | [], _ => rfl
  | [] :: fs, h => by simpa [takeRecord] using @takeRecord_eq_none fs h

namespace Log

@[simp] theorem records_endRecord (l : Log) (r : LogRecord) (f : Bool) :
    (l.endRecord r f).records = l.records ++ [r] := by
  simp [records, endRecord]

@[simp] theorem records_beginRecord (l : Log) : l.beginRecord.records = l.records := rfl

@[simp] theorem records_cleanLogs (l : Log) (n : Nat) : (l.cleanLogs n).records = l.records := rfl

/-- `flush_one` moves a file from the unflushed to the flushed ones, in order. -/
@[simp] theorem records_flushOne (l : Log) (m : Nat) : (l.flushOne m).1.records = l.records := by
  unfold flushOne records
  split <;> (try split) <;> simp_all

/-- `read_next` hands over the first record the log holds. -/
theorem records_readNext {l l' : Log} {r : LogRecord} (h : l.readNext = some (r, l')) :
    l.records = r :: l'.records := by
  unfold readNext at h
  rcases ht : takeRecord l.enactable with _ | ⟨r0, fs, d⟩ <;> simp [ht] at h
  obtain ⟨rfl, rfl⟩ := h
  simp [records, takeRecord_flatten ht]

/-- `read_next` finds nothing once every flushed file is enacted. -/
theorem enactable_of_readNext_eq_none {l : Log} (h : l.readNext = none) : l.enactable.flatten = [] := by
  unfold readNext at h
  exact takeRecord_eq_none (by simpa using h)

end Log

end AxiaDb

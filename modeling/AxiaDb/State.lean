import AxiaDb.Log

/-!
# `DbInner` and the threads that share it

The state of the model is `DbInner` together with a program counter for every thread that
uses it: the client threads calling `commit_raw` and `get`, the four workers `log_worker`,
`flush_worker`, `commit_worker` and `cleanup_worker`, and the thread running `Db::drop`, which
ends in `kill_logs`.

Each function in the second half of the file is one section of `src/db.rs` that runs under a
lock or as one atomic store: `pushCommit` is the body of `commit_raw` under the queue and
overlay locks, `popCommit` the head of `process_commits` under the queue lock, and so on. The
interleaving of these sections is `Step`, in `AxiaDb.Step`.
-/

namespace AxiaDb

/-! ## Program counters -/

/-- What a client call returned. -/
inductive ClientResult where
  | committed
  | failed (e : Error)
  | got (c : ColId) (k : Key) (v : Option Value)
  /-- What `get_size` returned, its `u32` read as a number. -/
  | gotSize (c : ColId) (k : Key) (n : Option Nat)
  deriving DecidableEq

/-- Where a client thread is in `commit_raw`, `get` or `get_size`. -/
inductive ClientPc where
  /-- Outside the database, with the result of its last call. -/
  | idle (last : Option ClientResult)
  /-- In `commit_queue_full_cv.wait`, not notified yet. -/
  | waitFull (cs : List Change)
  /-- Notified, taking the queue lock back. -/
  | woken (cs : List Change)
  /-- Its commit queued and overlaid, before `log_worker_wait.signal()`; it still holds the
  queue lock and the overlay write lock. -/
  | pushed
  /-- In `get` after an overlay miss, still holding the overlay read lock, before asking the
  column; `seen` is the number of commits accepted when it took the lock (ghost). -/
  | reading (c : ColId) (k : Key) (seen : Nat)
  /-- In `get_size` after an overlay miss, still holding the overlay read lock, before asking
  the column. -/
  | readingSize (c : ColId) (k : Key)
  deriving DecidableEq

namespace ClientPc

def isIdle : ClientPc → Bool
  | .idle _ => true
  | _ => false

def isPushed : ClientPc → Bool
  | .pushed => true
  | _ => false

/-- The client holds the overlay read lock. -/
def isReading : ClientPc → Bool
  | .reading .. | .readingSize .. => true
  | _ => false

def isWaitFull : ClientPc → Bool
  | .waitFull _ => true
  | _ => false

/-- A notification on `commit_queue_full_cv` reaching the client. -/
def wake : ClientPc → ClientPc
  | .waitFull cs => .woken cs
  | p => p

end ClientPc

/-- The four background workers. -/
inductive Worker where
  | log
  | flush
  | commit
  | cleanup
  deriving DecidableEq

/-- Where a worker is in its loop. -/
inductive WorkerPc where
  /-- Not spawned by `open_inner`. -/
  | absent
  /-- At the loop test, with its `more_work`. -/
  | loop (more : Bool)
  /-- In its `WaitCondvar::wait`. -/
  | waiting
  /-- In the loop body; `Db.logBody` and `Db.commitBody` say where. -/
  | running
  /-- The body returned this error; `store_err` comes next. -/
  | failed (e : Error)
  /-- The thread has returned. -/
  | exited
  deriving DecidableEq

/-- Where the log worker is in `process_commits`. -/
inductive CommitsPc where
  /-- Before locking `log_queue_wait.work` for the backlog test. -/
  | lqCheck
  /-- The backlog was over the bound; the mutex is still held, the wait not yet entered. -/
  | lqHeld
  /-- In `log_queue_wait.cv.wait`. -/
  | lqWaiting
  /-- Before taking the queue lock to pop. -/
  | pop
  /-- Writing the popped commit's record. -/
  | write (c : Commit)
  /-- Record `rid` closed with `bytes`; `reindex` is whether a plan asked for a reindex. -/
  | account (c : Commit) (rid bytes : Nat) (reindex : Bool)
  /-- Before the overlay cleanup. -/
  | cleanup (c : Commit) (rid : Nat) (reindex : Bool)
  /-- The overlay cleaned up, before `if reindex { start_reindex(record_id) }`. -/
  | trigger (rid : Nat) (reindex : Bool)
  deriving DecidableEq

/-- Where the log worker is in `process_reindex`. -/
inductive ReindexPc where
  /-- Before loading `next_reindex`. -/
  | guard
  /-- `next_reindex` loaded as `n`, not `0`; before loading `last_enacted`. -/
  | compare (n : Nat)
  /-- Past the guard, calling `Column::reindex`. -/
  | scan
  /-- A reindex record closed and its bytes added, still holding `log_queue_wait.work`; before
  `flush_worker_wait.signal()`. -/
  | signal
  /-- Every column had nothing to do; before storing `0`. -/
  | clear
  deriving DecidableEq

/-- Where the log worker is in its loop body. -/
inductive LogBody where
  | commits (p : CommitsPc)
  /-- In `process_reindex`; `more` is `none` in the pass before the loop, else what
  `process_commits` returned just before. -/
  | reindex (more : Option Bool) (p : ReindexPc)
  deriving DecidableEq

/-- Whether the log worker holds `log_queue_wait.work`: in `process_commits` between its
backlog test and its wait, in `process_reindex` from `end_record` to the flush signal. -/
def LogBody.holdsLogQueue : LogBody → Bool
  | .commits .lqHeld | .reindex _ .signal => true
  | _ => false

/-- `log_queue_wait.cv.notify_all()` as it reaches the log worker: out of its wait, on to the
pop. -/
def LogBody.notifyLogQueue : LogBody → LogBody
  | .commits .lqWaiting => .commits .pop
  | b => b

/-- Where the commit worker is in `enact_logs(false)`. -/
inductive CommitBody where
  | enact
  /-- Record `rid` enacted; its `bytes` are still to be taken off the log-queue account. -/
  | account (rid bytes : Nat)
  deriving DecidableEq

/-- Where the flush worker is in `flush_logs`. -/
inductive FlushBody where
  /-- Before `flush_one`. -/
  | flushOne
  /-- `flush_one` returned `(more, read, cleanup)`; before `commit_worker_wait.signal()`. -/
  | signalCommit (more read cleanup : Bool)
  /-- Before `cleanup_worker_wait.signal()`. -/
  | signalCleanup (more cleanup : Bool)
  deriving DecidableEq

/-- The steps of `kill_logs`. -/
inductive KillPhase where
  | enact1
  | flush1
  | commits
  | enact2
  | flush2
  | enact3
  | cleanAll
  | killLogs
  deriving DecidableEq

/-- Where `Db::drop` is. -/
inductive DropPc where
  /-- The handle is alive. -/
  | live
  /-- `shutdown()` called, joining the workers. -/
  | joining
  | kill (ph : KillPhase)
  | finished
  deriving DecidableEq

/-- History the code does not keep, beside `DbInner` so that what the pipeline guarantees can
be stated: the commits accepted, in push order; the records enacted; the log worker's reindex
triggers since `next_reindex` was last cleared; whether `next_reindex` was stored since
`process_reindex` last loaded it nonzero; the ids of the commits pushed by a `commit_raw`
that waited on `commit_queue_full_cv`. -/
structure Ghost where
  accepted : List Commit
  enacted : List LogRecord
  triggers : List Nat
  storedSinceGuard : Bool
  waited : List Nat
  deriving DecidableEq

/-- `DbInner` and the threads using it. `closed` are the records `end_record` closed since
open: with the tables at open they are what `Column::get` reads through the log overlays. -/
structure Db where
  setup : Setup
  queue : CommitQueue
  overlay : Overlay
  logQueue : Int
  lastEnacted : Nat
  nextReindex : Nat
  shutdown : Bool
  bgErr : Option Error
  work : Worker → Bool
  log : Log
  closed : List LogRecord
  clients : List ClientPc
  workers : Worker → WorkerPc
  logBody : LogBody
  commitBody : CommitBody
  flushBody : FlushBody
  drop : DropPc
  ghost : Ghost

/-! ## Opening -/

/-- Whether `open_inner` spawns the worker. -/
def Worker.spawned (σ : Setup) : Worker → Bool
  | .log => !σ.readOnly && σ.stages.spawnLogThread
  | .flush => !σ.readOnly && σ.stages.spawnFlushThread
  | .commit => !σ.readOnly && σ.stages.spawnCommitThread
  | .cleanup => !σ.readOnly && σ.stages.spawnCleanupThread

/-- Where a spawned worker starts: the log worker in its `process_reindex` before the loop,
the cleanup worker with `more_work = true`, the others with `more_work = false`. -/
def Worker.start : Worker → WorkerPc
  | .log => .running
  | .cleanup => .loop true
  | _ => .loop false

/-- The test of a worker's `while`: `!shutdown || more_work`, except in `flush_worker`,
whose loop is `while !shutdown`. -/
def Worker.loopCond : Worker → Bool → Bool → Bool
  | .flush, shutdown, _ => !shutdown
  | _, shutdown, more => !shutdown || more

/-- `log.replay_record_id().unwrap_or(2) - 1`: the `last_enacted` `DbInner::open` starts the
replay from, `1` on a log with nothing to replay. -/
def openLastEnacted (replayRecordId : Option Nat) : Nat := replayRecordId.getD 2 - 1

/-- The state `open_inner` returns: `DbInner::open` and `replay_all_logs` have left the
tables, `last_enacted` and `next_reindex` of `σ`, the log hands out `σ.firstRecordId` next,
and the workers are just spawned. -/
def Db.init (σ : Setup) : Db where
  setup := σ
  queue := ⟨0, 0, []⟩
  overlay := Overlay.empty
  logQueue := 0
  lastEnacted := σ.lastEnacted
  nextReindex := σ.nextReindex
  shutdown := false
  bgErr := none
  work := fun _ => false
  log := ⟨σ.firstRecordId, [], [], 0⟩
  closed := []
  clients := List.replicate σ.clients (.idle none)
  workers := fun w => if w.spawned σ then w.start else .absent
  logBody := .reindex none .guard
  commitBody := .enact
  flushBody := .flushOne
  drop := .live
  ghost := ⟨[], [], [], false, []⟩

/-! ## Condition variables -/

/-- Whether `wake` is a choice `commit_queue_full_cv.notify_one()` can make: a client waiting
on it, or nobody when no client waits. -/
def NotifyOneOk (cl : List ClientPc) : Option Nat → Prop
  | some i => ∃ cs, cl[i]? = some (.waitFull cs)
  | none => ∀ p ∈ cl, p.isWaitFull = false

/-- The test before the `notify_one` of the pop in `process_commits`: the queue went from over
`MAX_COMMIT_QUEUE_BYTES` to at most it (`bytes` stay queued, `popped` were popped). -/
def crossesBound (bytes popped : Nat) : Prop :=
  bytes ≤ maxCommitQueueBytes ∧ maxCommitQueueBytes < bytes + popped

/-- Whether `wake` is what the `notify_one` of the pop can reach: a choice of `NotifyOneOk` when
the pop crosses the bound, and nobody otherwise, when `notify_one` is not called. -/
def PopWakeOk (cl : List ClientPc) (bytes popped : Nat) (wake : Option Nat) : Prop :=
  (crossesBound bytes popped → NotifyOneOk cl wake) ∧ (¬crossesBound bytes popped → wake = none)

/-- With no client waiting, notifying nobody is a choice of the pop whether or not it crosses
the bound. -/
theorem PopWakeOk.none {cl : List ClientPc} {bytes popped : Nat} (h : NotifyOneOk cl none) :
    PopWakeOk cl bytes popped none :=
  ⟨fun _ => h, fun _ => rfl⟩

/-- A pop that crosses the bound may wake any waiting client. -/
theorem PopWakeOk.some {cl : List ClientPc} {bytes popped i : Nat} {cs : List Change}
    (hx : crossesBound bytes popped) (hi : cl[i]? = some (.waitFull cs)) :
    PopWakeOk cl bytes popped (some i) :=
  ⟨fun _ => ⟨cs, hi⟩, fun h => absurd hx h⟩

/-- `commit_queue_full_cv.notify_one()` waking client `wake`. -/
def notifyOne (cl : List ClientPc) : Option Nat → List ClientPc
  | some i =>
    match cl[i]? with
    | some p => cl.set i p.wake
    | none => cl
  | none => cl

namespace Db

def setClient (s : Db) (i : Nat) (p : ClientPc) : Db := { s with clients := s.clients.set i p }

def setWorker (s : Db) (w : Worker) (p : WorkerPc) : Db :=
  { s with workers := Function.update s.workers w p }

/-- `WaitCondvar::signal` on worker `w`'s flag. -/
def signal (s : Db) (w : Worker) : Db := { s with work := Function.update s.work w true }

/-- `if b { signal }` on worker `w`'s flag. -/
def signalIf (s : Db) (b : Bool) (w : Worker) : Db :=
  { s with work := Function.update s.work w (b || s.work w) }

/-- The queue lock is free: no client is between its push and its signal. -/
def queueFree (s : Db) : Bool := s.clients.all fun p => !p.isPushed

/-- No client holds the overlay read lock. -/
def noReaders (s : Db) : Bool := s.clients.all fun p => !p.isReading

/-- The log worker holds `log_queue_wait.work`. -/
def logQueueHeld (s : Db) : Bool :=
  s.workers .log == .running && s.logBody.holdsLogQueue

/-- `DbInner::shutdown`: set the flag, `notify_all` the log-queue condition variable and
signal the four workers. -/
def shutdownDb (s : Db) : Db :=
  { s with shutdown := true, logBody := s.logBody.notifyLogQueue, work := fun _ => true }

/-- `store_err(Err(e))`: the first error is kept and shuts the database down; every error
then `notify_one`s `commit_queue_full_cv`. -/
def storeErr (s : Db) (e : Error) (wake : Option Nat) : Db :=
  let s := if s.bgErr = none then { s.shutdownDb with bgErr := some e } else s
  { s with clients := notifyOne s.clients wake }

/-! ## The sections of `commit_raw` and `process_commits` -/

/-- `commit_raw` holding the queue lock and the overlay write lock: advance
`queue.record_id`, give the commit the id after it, overlay the changeset, queue the commit.
(The source sums the bytes and writes the overlay in one loop.) -/
def pushCommit (s : Db) (cs : List Change) : Db :=
  let recordId := s.queue.recordId + 1
  let cm : Commit := ⟨recordId + 1, changesetBytes cs, cs⟩
  { s with
    queue := ⟨recordId, s.queue.bytes + cm.bytes, s.queue.commits ++ [cm]⟩
    overlay := overlayCommit s.setup.refCounted cm.id s.overlay cs
    ghost := { s.ghost with accepted := s.ghost.accepted ++ [cm] } }

/-- Ghost: the commit `pushCommit` just queued, `queue.record_id + 1`, was pushed after
`commit_queue_full_cv.wait` returned. -/
def noteWaited (s : Db) : Db :=
  { s with ghost := { s.ghost with waited := s.ghost.waited ++ [s.queue.recordId + 1] } }

/-- The pop of `process_commits` under the queue lock: the head `c` leaves, its bytes are
subtracted, and the `notify_one` when that crosses back under the bound reaches `wake`
(`PopWakeOk` says which clients it can be). -/
def popCommit (s : Db) (c : Commit) (rest : List Commit) (wake : Option Nat) : Db :=
  { s with
    queue := { s.queue with bytes := s.queue.bytes - c.bytes, commits := rest }
    clients := notifyOne s.clients wake }

/-- `begin_record` and `end_record`: the log closes a record under the next id. -/
def closeRecord (s : Db) (body : RecordBody) (bytes : Nat) (newFile : Bool) : Db :=
  let r : LogRecord := ⟨s.log.nextRecordId, bytes, body⟩
  { s with log := (s.log.endRecord r newFile).beginRecord, closed := s.closed ++ [r] }

/-- Add a closed record's bytes to `log_queue_wait.work` and signal the flush worker. -/
def creditLog (s : Db) (bytes : Nat) : Db :=
  { s with logQueue := s.logQueue + bytes }.signal .flush

/-- The overlay cleanup of `process_commits`, under the overlay write lock. -/
def cleanupOverlay (s : Db) (c : Commit) : Db :=
  { s with overlay := overlayCleanup s.overlay c }

/-- `start_reindex(record_id)`. -/
def startReindex (s : Db) (rid : Nat) : Db :=
  { s with nextReindex := rid, ghost := { s.ghost with storedSinceGuard := true } }

/-- A `start_reindex` by the log worker after a `NeedReindex` outcome. -/
def triggerReindex (s : Db) (rid : Nat) : Db :=
  let s := s.startReindex rid
  { s with ghost := { s.ghost with triggers := s.ghost.triggers ++ [rid] } }

/-- The record `process_reindex` writes for a column with work: a batch (`needReindex` if a
plan asked for another reindex) and `DropTable(dropTable)` if requested, closed while
holding `log_queue_wait.work`, its bytes added to it, and `start_reindex` if asked. The flush
signal is the next section. -/
def reindexRecord (s : Db) (dropTable : Option ColId) (needReindex : Bool) (bytes : Nat)
    (newFile : Bool) : Db :=
  let rid := s.log.nextRecordId
  let s := s.closeRecord (.reindex dropTable) bytes newFile
  let s := { s with logQueue := s.logQueue + bytes }
  if needReindex then s.triggerReindex rid else s

/-- The end of the log worker's `process_reindex` with result `r`: back to the loop test with
`more_commits || more_reindex`, or with `r` for the pass before the loop. -/
def finishReindex (s : Db) (more : Option Bool) (r : Bool) : Db :=
  s.setWorker .log (.loop (match more with
    | none => r
    | some b => b || r))

/-- One whole `process_commits` as `kill_logs` runs it once the workers are joined: pop, write
and close the record, credit its bytes, clean up the overlay, and `start_reindex` if asked. -/
def processCommit (s : Db) (c : Commit) (rest : List Commit) (reindex : Bool) (bytes : Nat)
    (newFile : Bool) : Db :=
  let rid := s.log.nextRecordId
  let s := ((((s.popCommit c rest none).closeRecord (.commit c) bytes newFile).creditLog
    bytes).cleanupOverlay c)
  if reindex then s.startReindex rid else s

/-! ## The sections of `enact_logs`, `flush_logs` and `cleanup_logs` -/

/-- `enact_logs(false)` with the durable record `r` the façade handed over (leaving it in state
`l`): apply its actions, `DropTable` running `drop_index` and `start_reindex`, then store
`last_enacted`. -/
def enactRecord (s : Db) (r : LogRecord) (l : Log) : Db :=
  let s := if r.body.dropsTable then s.startReindex r.id else s
  { s with log := l, lastEnacted := r.id, ghost := { s.ghost with enacted := s.ghost.enacted ++ [r] } }

/-- The tail of `enact_logs(false)` under `log_queue_wait.work`: subtract the record's bytes,
and `notify_all` when that crosses back under `MAX_LOG_QUEUE_BYTES`. -/
def debitLog (s : Db) (bytes : Nat) : Db :=
  let q := s.logQueue - bytes
  { s with
    logQueue := q
    logBody := if q ≤ maxLogQueueBytes ∧ maxLogQueueBytes < q + bytes then
      s.logBody.notifyLogQueue else s.logBody }

/-- `flush_one(min_log_size)` in the flush worker's `flush_logs`: its answer
`(has_more_to_flush, read_next, cleanup_next)` is what the two signals after it read. -/
def flushOne (s : Db) (minSize : Nat) : Db :=
  let r := s.log.flushOne minSize
  { s with log := r.1, flushBody := .signalCommit r.2.1 r.2.2.1 r.2.2.2 }

/-- `flush_logs(min_log_size)` as `kill_logs` runs it, alone: `flush_one`, then signal the
commit worker when a record is enactable and the cleanup worker when a file is dirty;
returns `has_more_to_flush`. -/
def flushLogs (s : Db) (minSize : Nat) : Db × Bool :=
  let r := s.log.flushOne minSize
  (({ s with log := r.1 }.signalIf r.2.2.1 .commit).signalIf r.2.2.2 .cleanup, r.2.1)

/-- `cleanup_logs`: keep `KEEP_LOGS` dirty files (none under `sync_data`, which first flushes
the columns) and `clean_logs` the rest; `r` is what `clean_logs` returns. -/
def cleanupLogs (s : Db) (r : Bool) : Db × Bool :=
  let keep := if s.setup.syncData then 0 else keepLogs
  let n := s.log.dirty
  ({ s with log := if keep < n then s.log.cleanLogs (n - keep) else s.log }, decide (keep < n) && r)

/-- Entering a worker's loop body: the log worker starts `process_commits`, the commit worker
`enact_logs`, the flush worker `flush_logs`. -/
def enterBody (s : Db) (w : Worker) : Db :=
  { s.setWorker w .running with
    logBody := if w = .log then .commits .lqCheck else s.logBody
    commitBody := if w = .commit then .enact else s.commitBody
    flushBody := if w = .flush then .flushOne else s.flushBody }

end Db

/-- The step of `kill_logs` after `ph`. -/
def KillPhase.next : KillPhase → DropPc
  | .enact1 => .kill .flush1
  | .flush1 => .kill .commits
  | .commits => .kill .enact2
  | .enact2 => .kill .flush2
  | .flush2 => .kill .enact3
  | .enact3 => .kill .cleanAll
  | .cleanAll => .kill .killLogs
  | .killLogs => .finished

/-- The steps of `kill_logs` that loop `enact_logs(false)`. -/
def KillPhase.isEnact : KillPhase → Bool
  | .enact1 | .enact2 | .enact3 => true
  | _ => false

/-- The steps of `kill_logs` that call `flush_logs(0)` once. -/
def KillPhase.isFlush : KillPhase → Bool
  | .flush1 | .flush2 => true
  | _ => false

end AxiaDb

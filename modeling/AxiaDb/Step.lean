import AxiaDb.State

/-!
# The interleaving semantics

`Step failing s t s'` says that thread `t` can move the database from `s` to `s'` by running
one section of `src/db.rs`. A section is code that runs under one lock, or a single atomic
access, so no other thread can observe it half done: threads interleave between sections,
never inside one. The guards on the queue lock (`queueFree`), the overlay read lock
(`noReaders`) and the log-queue mutex (`logQueueHeld`) are what make that true.

Calls into the columns and the log are external: their outcomes (a `NeedReindex`, the bytes
`end_record` returns, whether the façade starts a new file, the batch `Column::reindex`
yields) are arguments of the constructors, so every behaviour the contract admits is a step.
When `failing` is true any such call may also return an error; `Reachable false` are the runs
in which none does.

A column id out of range panics in `Column::hash` before `commit` or `get` touches any shared
state; the model admits only changesets and reads on valid columns.
-/

namespace AxiaDb

/-- The threads of the model. -/
inductive Thread where
  | client (i : Nat)
  | worker (w : Worker)
  | dropper
  deriving DecidableEq

/-- One section of `src/db.rs` run by one thread. -/
inductive Step (failing : Bool) : Db → Thread → Db → Prop where
  -- `commit_raw`, first try: the queue lock is taken and the size tested.
  | commitWait {s : Db} {i : Nat} {r : Option ClientResult} {cs : List Change}
      (hi : s.clients[i]? = some (.idle r)) (hlive : s.drop = .live)
      (hcs : ∀ ch ∈ cs, s.setup.validCol ch.1 = true) (hq : s.queueFree = true)
      (hfull : maxCommitQueueBytes < s.queue.bytes) :
      Step failing s (.client i) (s.setClient i (.waitFull cs))
  | commitErr {s : Db} {i : Nat} {r : Option ClientResult} {cs : List Change} {e : Error}
      (hi : s.clients[i]? = some (.idle r)) (hlive : s.drop = .live)
      (hcs : ∀ ch ∈ cs, s.setup.validCol ch.1 = true) (hq : s.queueFree = true)
      (hnf : s.queue.bytes ≤ maxCommitQueueBytes) (he : s.bgErr = some e) :
      Step failing s (.client i) (s.setClient i (.idle (some (.failed (.background e)))))
  | commitPush {s : Db} {i : Nat} {r : Option ClientResult} {cs : List Change}
      (hi : s.clients[i]? = some (.idle r)) (hlive : s.drop = .live)
      (hcs : ∀ ch ∈ cs, s.setup.validCol ch.1 = true) (hq : s.queueFree = true)
      (hnf : s.queue.bytes ≤ maxCommitQueueBytes) (he : s.bgErr = none)
      (hr : s.noReaders = true) :
      Step failing s (.client i) ((s.pushCommit cs).setClient i .pushed)
  -- `commit_raw` after `commit_queue_full_cv.wait` returns: the size is not tested again.
  | retryErr {s : Db} {i : Nat} {cs : List Change} {e : Error}
      (hi : s.clients[i]? = some (.woken cs)) (hq : s.queueFree = true)
      (he : s.bgErr = some e) :
      Step failing s (.client i) (s.setClient i (.idle (some (.failed (.background e)))))
  | retryPush {s : Db} {i : Nat} {cs : List Change}
      (hi : s.clients[i]? = some (.woken cs)) (hq : s.queueFree = true) (he : s.bgErr = none)
      (hr : s.noReaders = true) :
      Step failing s (.client i) ((s.pushCommit cs).noteWaited.setClient i .pushed)
  /-- The end of `commit_raw`: `log_worker_wait.signal()`, then both locks are released. -/
  | signalLog {s : Db} {i : Nat} (hi : s.clients[i]? = some .pushed) :
      Step failing s (.client i) ((s.signal .log).setClient i (.idle (some .committed)))
  -- `get`: the overlay under its read lock, then the column.
  | getHit {s : Db} {i : Nat} {r : Option ClientResult} {c : ColId} {k : Key} {n : Nat}
      {v : Option Value} (hi : s.clients[i]? = some (.idle r)) (hlive : s.drop = .live)
      (hc : s.setup.validCol c = true) (hq : s.queueFree = true)
      (ho : s.overlay c k = some (n, v)) :
      Step failing s (.client i) (s.setClient i (.idle (some (.got c k v))))
  | getMiss {s : Db} {i : Nat} {r : Option ClientResult} {c : ColId} {k : Key}
      (hi : s.clients[i]? = some (.idle r)) (hlive : s.drop = .live)
      (hc : s.setup.validCol c = true) (hq : s.queueFree = true) (ho : s.overlay c k = none) :
      Step failing s (.client i) (s.setClient i (.reading c k s.ghost.accepted.length))
  | columnGet {s : Db} {i : Nat} {c : ColId} {k : Key} {n : Nat}
      (hi : s.clients[i]? = some (.reading c k n)) :
      Step failing s (.client i)
        (s.setClient i (.idle (some (.got c k (columnGet s.setup.tables s.closed c k)))))
  -- `get_size`: the same two sections; a hit returns `v.len() as u32`.
  | getSizeHit {s : Db} {i : Nat} {r : Option ClientResult} {c : ColId} {k : Key} {n : Nat}
      {v : Option Value} (hi : s.clients[i]? = some (.idle r)) (hlive : s.drop = .live)
      (hc : s.setup.validCol c = true) (hq : s.queueFree = true)
      (ho : s.overlay c k = some (n, v)) :
      Step failing s (.client i)
        (s.setClient i (.idle (some (.gotSize c k (v.map fun v => v.length % 2 ^ 32)))))
  | getSizeMiss {s : Db} {i : Nat} {r : Option ClientResult} {c : ColId} {k : Key}
      (hi : s.clients[i]? = some (.idle r)) (hlive : s.drop = .live)
      (hc : s.setup.validCol c = true) (hq : s.queueFree = true) (ho : s.overlay c k = none) :
      Step failing s (.client i) (s.setClient i (.readingSize c k))
  | columnGetSize {s : Db} {i : Nat} {c : ColId} {k : Key}
      (hi : s.clients[i]? = some (.readingSize c k)) :
      Step failing s (.client i)
        (s.setClient i (.idle (some (.gotSize c k (columnGetSize s.setup.tables s.closed c k)))))
  -- The loop of every worker.
  | loopExit {s : Db} {w : Worker} {more : Bool} (hw : s.workers w = .loop more)
      (hc : w.loopCond s.shutdown more = false) :
      Step failing s (.worker w) (s.setWorker w .exited)
  | loopWait {s : Db} {w : Worker} (hw : s.workers w = .loop false)
      (hc : w.loopCond s.shutdown false = true) :
      Step failing s (.worker w) (s.setWorker w .waiting)
  | loopRun {s : Db} {w : Worker} (hw : s.workers w = .loop true)
      (hc : w.loopCond s.shutdown true = true) :
      Step failing s (.worker w) (s.enterBody w)
  /-- `WaitCondvar::wait` returns once the flag is set, and clears it. -/
  | wake {s : Db} {w : Worker} (hw : s.workers w = .waiting) (hf : s.work w = true) :
      Step failing s (.worker w) ({ s with work := Function.update s.work w false }.enterBody w)
  /-- The body returned `Err(e)`: the thread ends in `store_err`. -/
  | storeErr {s : Db} {w : Worker} {e : Error} {wake : Option Nat}
      (hw : s.workers w = .failed e) (hn : NotifyOneOk s.clients wake) :
      Step failing s (.worker w) ((s.storeErr e wake).setWorker w .exited)
  -- `process_commits`, run by the log worker.
  | lqCheckWait {s : Db} (hw : s.workers .log = .running) (hb : s.logBody = .commits .lqCheck)
      (hs : s.shutdown = false) (hq : maxLogQueueBytes < s.logQueue) :
      Step failing s (.worker .log) { s with logBody := .commits .lqHeld }
  | lqCheckPass {s : Db} (hw : s.workers .log = .running) (hb : s.logBody = .commits .lqCheck)
      (hq : s.shutdown = true ∨ s.logQueue ≤ maxLogQueueBytes) :
      Step failing s (.worker .log) { s with logBody := .commits .pop }
  | lqWait {s : Db} (hw : s.workers .log = .running) (hb : s.logBody = .commits .lqHeld) :
      Step failing s (.worker .log) { s with logBody := .commits .lqWaiting }
  | popSome {s : Db} {c : Commit} {rest : List Commit} {wake : Option Nat}
      (hw : s.workers .log = .running) (hb : s.logBody = .commits .pop)
      (hq : s.queueFree = true) (hc : s.queue.commits = c :: rest)
      (hn : PopWakeOk s.clients (s.queue.bytes - c.bytes) c.bytes wake) :
      Step failing s (.worker .log) { s.popCommit c rest wake with logBody := .commits (.write c) }
  | popNone {s : Db} (hw : s.workers .log = .running) (hb : s.logBody = .commits .pop)
      (hq : s.queueFree = true) (hc : s.queue.commits = []) :
      Step failing s (.worker .log) { s with logBody := .reindex (some false) .guard }
  /-- `write_plan` over the changeset and `complete_plan` over the columns succeed (`reindex`
  if one returned `NeedReindex`), and `end_record` returns `bytes`. -/
  | writeOk {s : Db} {c : Commit} (reindex : Bool) (bytes : Nat) (newFile : Bool)
      (hw : s.workers .log = .running) (hb : s.logBody = .commits (.write c)) :
      Step failing s (.worker .log)
        { s.closeRecord (.commit c) bytes newFile with
          logBody := .commits (.account c s.log.nextRecordId bytes reindex) }
  /-- A `write_plan`, `complete_plan` or `end_record` call fails. -/
  | writeFail {s : Db} {c : Commit} (e : Error) (hf : failing = true)
      (hw : s.workers .log = .running) (hb : s.logBody = .commits (.write c)) :
      Step failing s (.worker .log) ({ s with log := s.log.beginRecord }.setWorker .log (.failed e))
  | accountCommit {s : Db} {c : Commit} {rid bytes : Nat} {reindex : Bool}
      (hw : s.workers .log = .running) (hb : s.logBody = .commits (.account c rid bytes reindex)) :
      Step failing s (.worker .log) { s.creditLog bytes with logBody := .commits (.cleanup c rid reindex) }
  | cleanup {s : Db} {c : Commit} {rid : Nat} {reindex : Bool}
      (hw : s.workers .log = .running) (hb : s.logBody = .commits (.cleanup c rid reindex))
      (hq : s.queueFree = true) (hr : s.noReaders = true) :
      Step failing s (.worker .log)
        { s.cleanupOverlay c with logBody := .commits (.trigger rid reindex) }
  /-- `if reindex { start_reindex(record_id) }`, after the overlay write lock is released, and
  `process_commits` returns `true`. -/
  | trigger {s : Db} {rid : Nat} {reindex : Bool} (hw : s.workers .log = .running)
      (hb : s.logBody = .commits (.trigger rid reindex)) :
      Step failing s (.worker .log)
        { (if reindex then s.triggerReindex rid else s) with logBody := .reindex (some true) .guard }
  -- `process_reindex`, run by the log worker: its guard loads `next_reindex`, then
  -- `last_enacted`.
  | guardZero {s : Db} {more : Option Bool} (hw : s.workers .log = .running)
      (hb : s.logBody = .reindex more .guard) (h0 : s.nextReindex = 0) :
      Step failing s (.worker .log) (s.finishReindex more false)
  | guardLoad {s : Db} {more : Option Bool} (hw : s.workers .log = .running)
      (hb : s.logBody = .reindex more .guard) (h0 : s.nextReindex ≠ 0) :
      Step failing s (.worker .log)
        { s with logBody := .reindex more (.compare s.nextReindex),
                 ghost := { s.ghost with storedSinceGuard := false } }
  | guardSkip {s : Db} {more : Option Bool} {n : Nat} (hw : s.workers .log = .running)
      (hb : s.logBody = .reindex more (.compare n)) (hg : s.lastEnacted < n) :
      Step failing s (.worker .log) (s.finishReindex more false)
  | guardPass {s : Db} {more : Option Bool} {n : Nat} (hw : s.workers .log = .running)
      (hb : s.logBody = .reindex more (.compare n)) (hle : n ≤ s.lastEnacted) :
      Step failing s (.worker .log) { s with logBody := .reindex more .scan }
  /-- Some column's `Column::reindex` yields work: its record is written under
  `log_queue_wait.work`. -/
  | scanRecord {s : Db} {more : Option Bool} (dropTable : Option ColId) (needReindex : Bool)
      (bytes : Nat) (newFile : Bool) (hw : s.workers .log = .running)
      (hb : s.logBody = .reindex more .scan) :
      Step failing s (.worker .log)
        { s.reindexRecord dropTable needReindex bytes newFile with logBody := .reindex more .signal }
  /-- `flush_worker_wait.signal()`; the pass returns `true` and releases `log_queue_wait.work`. -/
  | reindexSignal {s : Db} {more : Option Bool} (hw : s.workers .log = .running)
      (hb : s.logBody = .reindex more .signal) :
      Step failing s (.worker .log) ((s.signal .flush).finishReindex more true)
  /-- Every column's `Column::reindex` yields nothing. -/
  | scanEmpty {s : Db} {more : Option Bool} (hw : s.workers .log = .running)
      (hb : s.logBody = .reindex more .scan) :
      Step failing s (.worker .log) { s with logBody := .reindex more .clear }
  /-- `Column::reindex`, or after `begin_record` took an id (`begun`), `write_reindex_plan`
  or `end_record`, fails. -/
  | scanFail {s : Db} {more : Option Bool} (e : Error) (begun : Bool) (hf : failing = true)
      (hw : s.workers .log = .running) (hb : s.logBody = .reindex more .scan) :
      Step failing s (.worker .log)
        ({ s with log := if begun then s.log.beginRecord else s.log }.setWorker .log (.failed e))
  | clear {s : Db} {more : Option Bool} (hw : s.workers .log = .running)
      (hb : s.logBody = .reindex more .clear) :
      Step failing s (.worker .log)
        ({ s with nextReindex := 0, ghost := { s.ghost with triggers := [] } }.finishReindex more false)
  -- `enact_logs(false)`, run by the commit worker.
  | enactRecord {s : Db} {r : LogRecord} {l : Log} (hw : s.workers .commit = .running)
      (hb : s.commitBody = .enact) (hr : s.log.readNext = some (r, l)) :
      Step failing s (.worker .commit) { s.enactRecord r l with commitBody := .account r.id r.bytes }
  | enactNone {s : Db} (hw : s.workers .commit = .running) (hb : s.commitBody = .enact)
      (hr : s.log.readNext = none) :
      Step failing s (.worker .commit) (s.setWorker .commit (.loop false))
  | enactFail {s : Db} (e : Error) (hf : failing = true) (hw : s.workers .commit = .running)
      (hb : s.commitBody = .enact) (hr : s.log.readNext ≠ none) :
      Step failing s (.worker .commit) (s.setWorker .commit (.failed e))
  | enactAccount {s : Db} {rid bytes : Nat} (hw : s.workers .commit = .running)
      (hb : s.commitBody = .account rid bytes) (hm : s.logQueueHeld = false) :
      Step failing s (.worker .commit) ((s.debitLog bytes).setWorker .commit (.loop true))
  -- `flush_logs`: `flush_one`, then each signal under its own condition variable's mutex.
  | flush {s : Db} (hw : s.workers .flush = .running) (hb : s.flushBody = .flushOne) :
      Step failing s (.worker .flush) (s.flushOne s.setup.stages.flushMinLogSize)
  | flushFail {s : Db} (e : Error) (hf : failing = true) (hw : s.workers .flush = .running)
      (hb : s.flushBody = .flushOne) :
      Step failing s (.worker .flush) (s.setWorker .flush (.failed e))
  | flushSignalCommit {s : Db} {more read cleanup : Bool} (hw : s.workers .flush = .running)
      (hb : s.flushBody = .signalCommit more read cleanup) :
      Step failing s (.worker .flush)
        { s.signalIf read .commit with flushBody := .signalCleanup more cleanup }
  /-- The cleanup signal, and `flush_logs` returns `has_more_to_flush`. -/
  | flushSignalCleanup {s : Db} {more cleanup : Bool} (hw : s.workers .flush = .running)
      (hb : s.flushBody = .signalCleanup more cleanup) :
      Step failing s (.worker .flush) ((s.signalIf cleanup .cleanup).setWorker .flush (.loop more))
  -- `cleanup_logs`.
  | cleanupRun {s : Db} (r : Bool) (hw : s.workers .cleanup = .running) :
      Step failing s (.worker .cleanup)
        ((s.cleanupLogs r).1.setWorker .cleanup (.loop (s.cleanupLogs r).2))
  | cleanupFail {s : Db} (e : Error) (hf : failing = true) (hw : s.workers .cleanup = .running) :
      Step failing s (.worker .cleanup) (s.setWorker .cleanup (.failed e))
  -- `Db::drop`: in `Standard` mode `shutdown()`, the joins, then `kill_logs`.
  | dropStart {s : Db} (hd : s.drop = .live) (hidle : s.clients.all ClientPc.isIdle = true) :
      Step failing s .dropper
        (if s.setup.stages.doDrop then { s.shutdownDb with drop := .joining }
          else { s with drop := .finished })
  | dropJoin {s : Db} (hd : s.drop = .joining)
      (hj : ∀ w, s.workers w = .absent ∨ s.workers w = .exited) :
      Step failing s .dropper { s with drop := .kill .enact1 }
  | killEnactSome {s : Db} {ph : KillPhase} {r : LogRecord} {l : Log} (hd : s.drop = .kill ph)
      (hph : ph.isEnact = true) (hr : s.log.readNext = some (r, l)) :
      Step failing s .dropper ((s.enactRecord r l).debitLog r.bytes)
  | killEnactNone {s : Db} {ph : KillPhase} (hd : s.drop = .kill ph) (hph : ph.isEnact = true)
      (hr : s.log.readNext = none) :
      Step failing s .dropper { s with drop := ph.next }
  | killEnactFail {s : Db} {ph : KillPhase} (e : Error) (hf : failing = true)
      (hd : s.drop = .kill ph) (hph : ph.isEnact = true) (hr : s.log.readNext ≠ none) :
      Step failing s .dropper { s with drop := .finished }
  /-- `flush_logs(0)` in one section: every worker is joined and no client is in a call. -/
  | killFlush {s : Db} {ph : KillPhase} (hd : s.drop = .kill ph) (hph : ph.isFlush = true) :
      Step failing s .dropper { (s.flushLogs 0).1 with drop := ph.next }
  | killFlushFail {s : Db} {ph : KillPhase} (e : Error) (hf : failing = true)
      (hd : s.drop = .kill ph) (hph : ph.isFlush = true) :
      Step failing s .dropper { s with drop := .finished }
  | killCommitSome {s : Db} {c : Commit} {rest : List Commit} (reindex : Bool) (bytes : Nat)
      (newFile : Bool) (hd : s.drop = .kill .commits) (hc : s.queue.commits = c :: rest) :
      Step failing s .dropper (s.processCommit c rest reindex bytes newFile)
  | killCommitFail {s : Db} {c : Commit} {rest : List Commit} (e : Error) (hf : failing = true)
      (hd : s.drop = .kill .commits) (hc : s.queue.commits = c :: rest) :
      Step failing s .dropper
        { s.popCommit c rest none with log := s.log.beginRecord, drop := .finished }
  | killCommitNone {s : Db} (hd : s.drop = .kill .commits) (hc : s.queue.commits = []) :
      Step failing s .dropper { s with drop := .kill .enact2 }
  /-- `clean_all_logs`: flush the columns and `clean_logs(num_dirty_logs())`. -/
  | cleanAll {s : Db} (hd : s.drop = .kill .cleanAll) :
      Step failing s .dropper
        { s with log := s.log.cleanLogs s.log.dirty, drop := .kill .killLogs }
  | cleanAllFail {s : Db} (e : Error) (hf : failing = true) (hd : s.drop = .kill .cleanAll) :
      Step failing s .dropper { s with drop := .finished }
  | killLogs {s : Db} (hd : s.drop = .kill .killLogs) :
      Step failing s .dropper { s with log := s.log.killLogs, drop := .finished }
  | killLogsFail {s : Db} (e : Error) (hf : failing = true) (hd : s.drop = .kill .killLogs) :
      Step failing s .dropper { s with drop := .finished }

/-- The states some run reaches from `open_inner`; with `failing = false`, runs in which no
call into a column or the log fails. -/
inductive Reachable (failing : Bool) : Db → Prop where
  | init (σ : Setup) : Reachable failing (Db.init σ)
  | step {s s' : Db} {t : Thread} : Reachable failing s → Step failing s t s' →
      Reachable failing s'

/-! ## A concrete database -/

/-- A database in the default mode with one column that is not reference counted, empty
tables, and `clients` client threads, opened on a log whose replay enacted records up to
`lastEnacted`, dropped no index table, and whose next record is `lastEnacted + 1`. -/
def Setup.oneColumn (lastEnacted clients : Nat) : Setup where
  columns := [⟨false⟩]
  syncData := false
  readOnly := false
  stages := .standard
  tables := fun _ _ => none
  lastEnacted := lastEnacted
  nextReindex := 1
  firstRecordId := lastEnacted + 1
  clients := clients

/-- The key whose 32 bytes are all zero. -/
def Key.zero : Key := ⟨List.replicate 32 0, rfl⟩

/-- The value of `n` zero bytes. -/
def Value.zeros (n : Nat) : Value := List.replicate n 0

/-- The changeset that writes `v` under the zero key in column `0`. -/
def Change.zeroKey (v : Value) : List Change := [(0, Key.zero, some v)]

/-- The size `commit_raw` gives a changeset of one write under the zero key, computed without
walking the value. -/
theorem changesetBytes_zeroKey (v : Value) : changesetBytes (Change.zeroKey v) = 32 + v.length := by
  simp [Change.zeroKey, changesetBytes_cons, changeBytes, Key.zero, Mathlib.Vector.length]

theorem Change.zeroKey_validCol (v : Value) (lastEnacted clients : Nat) :
    ∀ ch ∈ Change.zeroKey v, (Setup.oneColumn lastEnacted clients).validCol ch.1 = true := by
  simp [Change.zeroKey, Setup.validCol, Setup.oneColumn]

/-- `2 ^ 24` zero bytes under the zero key make a commit over `MAX_COMMIT_QUEUE_BYTES`. -/
theorem changesetBytes_zeros_over_bound :
    maxCommitQueueBytes < changesetBytes (Change.zeroKey (Value.zeros (2 ^ 24))) := by
  rw [changesetBytes_zeroKey, Value.zeros, List.length_replicate]; decide

/-- The database of `Setup.oneColumn 0 1` after its client committed `[1]` under the zero key:
the commit is queued and overlaid, and `commit_raw` has returned. -/
def Db.committedOne : Db :=
  ((((Db.init (Setup.oneColumn 0 1)).pushCommit (Change.zeroKey [1])).setClient 0 .pushed).signal
    .log).setClient 0 (.idle (some .committed))

theorem Reachable.committedOne : Reachable false Db.committedOne :=
  ((Reachable.init (Setup.oneColumn 0 1)).step (@Step.commitPush _ _ 0 none (Change.zeroKey [1])
    rfl rfl (by decide) rfl (by decide) rfl rfl)).step (@Step.signalLog _ _ 0 rfl)

end AxiaDb

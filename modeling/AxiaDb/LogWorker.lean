import AxiaDb.ReadYourWrites

/-!
# The log worker's two waits

`log_worker` sleeps in `log_worker_wait.wait()` between passes, and `process_commits` sleeps
in `log_queue_wait.cv.wait` while too many logged bytes are not enacted yet.

* `log_worker_never_sleeps_on_queued_commits`: `commit_raw` signals the log worker after every
  push and `WaitCondvar::wait` consumes the flag only when it returns, so the worker never
  sleeps with its flag down while commits are queued, unless a client is between its push and
  its signal. The invariant is `Db.LogWaitOk`, kept by every section (`Db.LogWaitOk.step`).
* `log_worker_sleeps_through_shutdown`: `shutdown()` stores its flag and calls `notify_all`
  without taking `log_queue_wait.work`, so when it falls between the log worker's backlog test
  and its `cv.wait` the notification is lost. The worker then sleeps with the flag set, and in
  a run without failures nothing wakes it again (`Db.Stranded.run`): `Db::drop` never returns
  from its join.
* `log_worker_waits_only_over_bound`: the other half of the backlog wait holds. While the worker
  holds the mutex after its test, or waits, the account is over `MAX_LOG_QUEUE_BYTES`, since
  `enact_logs` debits it under the mutex and notifies when it crosses back.
-/

namespace AxiaDb

/-! ## `log_worker_wait` -/

/-- Whether the log worker, in its loop body, can block in `log_worker_wait.wait()` before it
reaches the pop of `process_commits` again: in a `process_reindex` after a `process_commits`
that found the queue empty (`some false`), or in the pass before the loop (`none`). -/
def LogBody.mayWait : LogBody → Bool
  | .commits _ => false
  | .reindex more _ => !more.getD false

/-- Whether the log worker can block in `log_worker_wait.wait()` before it reaches the pop of
`process_commits` again: in the wait, at the loop test with `more_work = false`, or in a body
where `LogBody.mayWait` says so. -/
def Db.logMayWait (s : Db) : Bool :=
  match s.workers .log with
  | .waiting => true
  | .loop more => !more
  | .running => s.logBody.mayWait
  | _ => false

/-- Where the log worker can sleep with its flag down, the queue is empty or some client is
between its push and its signal. -/
def Db.LogWaitOk (s : Db) : Prop :=
  s.logMayWait = true → s.work .log = false →
    s.queue.commits = [] ∨ ∃ i : Nat, s.clients[i]? = some .pushed

@[simp] theorem LogBody.mayWait_commits (p : CommitsPc) : (LogBody.commits p).mayWait = false := rfl

@[simp] theorem LogBody.mayWait_reindex (m : Option Bool) (p : ReindexPc) :
    (LogBody.reindex m p).mayWait = !m.getD false := rfl

@[simp] theorem LogBody.mayWait_notifyLogQueue (b : LogBody) :
    b.notifyLogQueue.mayWait = b.mayWait := by
  cases b with
  | commits p => cases p <;> rfl
  | reindex => rfl

@[simp] theorem Db.finishReindex_workers_log (s : Db) (m : Option Bool) (r : Bool) :
    (s.finishReindex m r).workers .log = .loop (m.getD false || r) := by
  cases m <;> simp [Db.finishReindex, Db.setWorker]

@[simp] theorem Db.enactRecord_logBody (s : Db) (r : LogRecord) (l : Log) :
    (s.enactRecord r l).logBody = s.logBody := by
  unfold Db.enactRecord; split <;> rfl

@[simp] theorem Db.enactRecord_work (s : Db) (r : LogRecord) (l : Log) :
    (s.enactRecord r l).work = s.work := by
  unfold Db.enactRecord; split <;> rfl

@[simp] theorem Db.processCommit_work (s : Db) (c : Commit) (rest : List Commit) (x : Bool)
    (b : Nat) (f : Bool) : (s.processCommit c rest x b f).work = Function.update s.work .flush true := by
  unfold Db.processCommit; split <;> rfl

@[simp] theorem Db.storeErr_mayWait (s : Db) (e : Error) (w : Option Nat) :
    (s.storeErr e w).logBody.mayWait = s.logBody.mayWait := by
  unfold Db.storeErr; split <;> simp [Db.shutdownDb]

@[simp] theorem Db.debitLog_mayWait (s : Db) (b : Nat) :
    (s.debitLog b).logBody.mayWait = s.logBody.mayWait := by
  simp [Db.debitLog, apply_ite LogBody.mayWait]

variable {failing : Bool} {s s' : Db} {t : Thread}

/-- A client between its push and its signal stays there until its signal raises the log
worker's flag. -/
theorem Step.pushed_or_signalled {i : Nat} (h : Step failing s t s')
    (hp : s.clients[i]? = some .pushed) :
    s'.clients[i]? = some .pushed ∨ s'.work .log = true := by
  by_cases ht : t = .client i
  · subst ht
    cases h with
    | signalLog => exact .inr (by simp [Db.setClient, Db.signal])
    | _ => simp_all
  · rcases h.client_frame ht with h' | ⟨cs, h', -⟩
    · exact .inl (h' ▸ hp)
    · simp [hp] at h'

/-- Once `Db::drop` has joined the workers, the log worker cannot wait any more. -/
theorem Reachable.logMayWait_of_kill (hr : Reachable failing s) {ph : KillPhase}
    (hd : s.drop = .kill ph) : s.logMayWait = false := by
  unfold Db.logMayWait
  rcases workers_done_of_kill hr hd .log with h | h <;> simp [h]

/-- Other threads do not move the log worker: they change `logBody` only by the `notify_all`
of `log_queue_wait.cv`. -/
theorem Step.logBody_of_ne (h : Step failing s t s') (ht : t ≠ .worker .log) :
    s'.workers .log = s.workers .log ∧
      (s'.logBody = s.logBody ∨ s'.logBody = s.logBody.notifyLogQueue) := by
  have hw : ∀ {w : Worker}, t = .worker w → Worker.log ≠ w := fun h hw => ht (hw ▸ h)
  cases h with
  | loopExit | loopWait | loopRun | wake =>
    simp [Db.setWorker, Db.enterBody, Function.update_apply, hw rfl, (hw rfl).symm]
  | storeErr =>
    unfold Db.storeErr; split <;> simp [Db.setWorker, Db.shutdownDb, Function.update_apply, hw rfl]
  | enactAccount | killEnactSome =>
    simp only [Db.debitLog, Db.setWorker, Db.enactRecord_workers, Db.enactRecord_logBody]
    split <;> simp [Function.update_apply]
  | dropStart => split <;> simp [Db.shutdownDb]
  | enactRecord => simp
  | killCommitSome => unfold Db.processCommit; split <;> exact ⟨rfl, .inl rfl⟩
  | _ => first | exact absurd rfl ht | exact ⟨rfl, .inl rfl⟩

/-- Other threads do not change whether the log worker can wait on `log_worker_wait`. -/
theorem Step.logMayWait_eq (h : Step failing s t s') (ht : t ≠ .worker .log) :
    s'.logMayWait = s.logMayWait := by
  obtain ⟨hw, hb | hb⟩ := h.logBody_of_ne ht <;> simp [Db.logMayWait, hw, hb]

/-- Only the log worker's own `wait` takes its flag down. -/
theorem Step.work_log_of_ne (h : Step failing s t s') (ht : t ≠ .worker .log)
    (hw : s'.work .log = false) : s.work .log = false := by
  have hne : ∀ {w : Worker}, t = .worker w → Worker.log ≠ w := fun h hw => ht (hw ▸ h)
  cases h with
  | signalLog => simp [Db.setClient, Db.signal] at hw
  | wake => simpa [Db.enterBody, Db.setWorker, Function.update_apply, hne rfl] using hw
  | storeErr => unfold Db.storeErr at hw; split at hw <;> simp_all [Db.shutdownDb, Db.setWorker]
  | dropStart => split at hw <;> simp_all [Db.shutdownDb]
  | enactRecord | killEnactSome | killCommitSome => simpa [Db.debitLog] using hw
  | _ => first | exact absurd rfl ht | exact hw

/-- Commits leave the queue only by the log worker's pop, or by `kill_logs`. -/
theorem Step.queue_commits_eq (h : Step failing s t s') (ht : t ≠ .worker .log)
    (hd : ∀ ph, s.drop ≠ .kill ph) :
    s'.queue.commits = s.queue.commits ∨ ∃ i : Nat, s'.clients[i]? = some .pushed := by
  cases h with
  | commitPush hi | retryPush hi => exact .inr ⟨_, Db.setClient_getElem?_self hi _⟩
  | killCommitSome _ _ _ hd' | killCommitFail _ _ hd' | killEnactSome hd' => exact absurd hd' (hd _)
  | storeErr => exact .inl (by unfold Db.storeErr; split <;> rfl)
  | enactRecord => exact .inl (by unfold Db.enactRecord; split <;> rfl)
  | dropStart => split <;> exact .inl rfl
  | _ => first | exact absurd rfl ht | exact .inl rfl

/-- **Step lemma for `LogWaitOk`.** -/
theorem Db.LogWaitOk.step (hr : Reachable failing s) (hi : s.LogWaitOk)
    (h : Step failing s t s') : s'.LogWaitOk := by
  unfold Db.LogWaitOk at hi ⊢
  intro hm hw
  have hpush : (∃ i : Nat, s.clients[i]? = some .pushed) → ∃ i : Nat, s'.clients[i]? = some .pushed :=
    fun ⟨i, hp⟩ => ⟨i, (h.pushed_or_signalled hp).resolve_right (by simp [hw])⟩
  by_cases ht : t = .worker .log
  · subst ht
    cases h with
    | popNone _ _ _ hc => exact .inl hc
    | loopWait hl => exact (hi (by simp [Db.logMayWait, hl]) hw).imp id hpush
    | guardZero hl hb | guardLoad hl hb | guardSkip hl hb | guardPass hl hb | scanEmpty hl hb
    | clear hl hb =>
      exact (hi (by simpa [Db.logMayWait, hl, hb] using hm) hw).imp id hpush
    | scanRecord _ _ _ _ hl hb =>
      simpa using (hi (by simpa [Db.logMayWait, hl, hb] using hm) (by simpa using hw)).imp id hpush
    | _ =>
      simp [Db.logMayWait, Db.setWorker, Db.enterBody, Db.popCommit, Db.closeRecord, Db.creditLog,
        Db.signal, Db.cleanupOverlay, Db.triggerReindex, Db.startReindex, apply_ite Db.workers, *] at hm
  · have hm' : s.logMayWait = true := h.logMayWait_eq ht ▸ hm
    have hw' := h.work_log_of_ne ht hw
    by_cases hd : ∃ ph, s.drop = .kill ph
    · obtain ⟨ph, hd⟩ := hd
      simp [hr.logMayWait_of_kill hd] at hm'
    · rcases h.queue_commits_eq ht (fun ph h' => hd ⟨ph, h'⟩) with hq | hp
      · exact (hi hm' hw').imp (hq ▸ ·) hpush
      · exact .inr hp

/-- **Run lemma for `LogWaitOk`.** -/
theorem Reachable.logWaitOk (hr : Reachable failing s) : s.LogWaitOk := by
  induction hr with
  | init σ => exact fun _ _ => .inl rfl
  | step hr hs ih => exact ih.step hr hs

/-- **The log worker never sleeps on queued commits.** -/
theorem log_worker_never_sleeps_on_queued_commits (hr : Reachable failing s)
    (hw : s.workers .log = .waiting) (hf : s.work .log = false) :
    s.queue.commits = [] ∨ ∃ i : Nat, s.clients[i]? = some .pushed :=
  hr.logWaitOk (by simp [Db.logMayWait, hw]) hf

/-- The database of `Setup.oneColumn 0 1` whose log worker went to sleep after its first
`process_reindex`, and whose client has just queued `[1]` and not signalled yet. -/
def Db.pushedWhileAsleep : Db :=
  ((({ Db.init (Setup.oneColumn 0 1) with logBody := .reindex none (.compare 1) }.finishReindex
    none false).setWorker .log .waiting).pushCommit (Change.zeroKey [1])).setClient 0 .pushed

theorem Reachable.pushedWhileAsleep : Reachable false Db.pushedWhileAsleep :=
  ((((Reachable.init (Setup.oneColumn 0 1)).step (Step.guardLoad rfl rfl (by decide))).step
    (Step.guardSkip rfl rfl (by decide))).step
    (Step.loopWait (w := .log) rfl rfl)).step
    (@Step.commitPush _ _ 0 none (Change.zeroKey [1]) rfl rfl (by decide) rfl (by decide) rfl rfl)

theorem log_worker_never_sleeps_on_queued_commits_mid_commit :
    Db.pushedWhileAsleep.queue.commits = [] ∨
      ∃ i : Nat, Db.pushedWhileAsleep.clients[i]? = some .pushed :=
  log_worker_never_sleeps_on_queued_commits Reachable.pushedWhileAsleep rfl rfl

/-! ## `log_queue_wait` -/

/-- While `process_commits` holds `log_queue_wait.work` after its backlog test, or waits on
`log_queue_wait.cv`, the account is over `MAX_LOG_QUEUE_BYTES`. -/
def Db.LogQueueWaitOk (s : Db) : Prop :=
  s.workers .log = .running →
    (s.logBody = .commits .lqHeld ∨ s.logBody = .commits .lqWaiting) →
    maxLogQueueBytes < s.logQueue

/-- The `notify_all` of `log_queue_wait.cv` ends every wait on it. -/
theorem LogBody.notifyLogQueue_ne_lqWaiting (b : LogBody) :
    b.notifyLogQueue ≠ .commits .lqWaiting := by
  rcases b with (_ | _ | _ | _ | _ | _ | _) | _ <;> simp [LogBody.notifyLogQueue]

theorem LogBody.eq_lqHeld_of_notifyLogQueue {b : LogBody}
    (h : b.notifyLogQueue = .commits .lqHeld ∨ b.notifyLogQueue = .commits .lqWaiting) :
    b = .commits .lqHeld := by
  rcases b with (_ | _ | _ | _ | _ | _ | _) | _ <;> simp_all [LogBody.notifyLogQueue]

/-- The debit of `enact_logs` leaves a waiting log worker waiting only while the account stays
over the bound: crossing it `notify_all`s the condition variable. -/
theorem Db.debitLog_waiting (hq : maxLogQueueBytes < s.logQueue) (b : Nat)
    (hw : (s.debitLog b).logBody = .commits .lqWaiting) :
    maxLogQueueBytes < (s.debitLog b).logQueue := by
  simp only [Db.debitLog] at hw ⊢
  split at hw
  · exact absurd hw (LogBody.notifyLogQueue_ne_lqWaiting _)
  · omega

/-- **Step lemma for `LogQueueWaitOk`.** -/
theorem Db.LogQueueWaitOk.step (hr : Reachable failing s) (hi : s.LogQueueWaitOk)
    (h : Step failing s t s') : s'.LogQueueWaitOk := by
  unfold Db.LogQueueWaitOk at hi ⊢
  intro hw hb
  by_cases ht : t = .worker .log
  · subst ht
    cases h with
    | lqCheckWait _ _ _ hq => exact hq
    | lqWait hl hb' => exact hi hl (.inl hb')
    | _ =>
      simp [Db.setWorker, Db.enterBody, Db.popCommit, Db.closeRecord, Db.creditLog, Db.signal,
        Db.cleanupOverlay, Db.triggerReindex, Db.startReindex, apply_ite Db.logBody, *] at hw hb
  · obtain ⟨hw', hb'⟩ := h.logBody_of_ne ht
    rw [hw'] at hw
    -- before the step the log worker was already in `process_commits`'s wait
    have hb0 : s.logBody = .commits .lqHeld ∨ s.logBody = .commits .lqWaiting := by
      rcases hb' with hb' | hb' <;> rw [hb'] at hb
      · exact hb
      · exact .inl (LogBody.eq_lqHeld_of_notifyLogQueue hb)
    have hq := hi hw hb0
    cases h with
    | enactAccount _ _ hm =>
      have hl : s.logBody = .commits .lqWaiting :=
        hb0.resolve_left fun hh => by simp [Db.logQueueHeld, LogBody.holdsLogQueue, hw, hh] at hm
      rcases hb with hb | hb
      · rcases hb' with hb' | hb' <;> rw [hb', hl] at hb <;> cases hb
      · exact Db.debitLog_waiting hq _ hb
    | killEnactSome hd | killCommitSome _ _ _ hd =>
      rcases workers_done_of_kill hr hd .log with h' | h' <;> simp [h'] at hw
    | storeErr => unfold Db.storeErr; split <;> exact hq
    | enactRecord => unfold Db.enactRecord; split <;> exact hq
    | dropStart => split <;> exact hq
    | _ => first | exact absurd rfl ht | exact hq

/-- **Run lemma for `LogQueueWaitOk`.** -/
theorem Reachable.logQueueWaitOk (hr : Reachable failing s) : s.LogQueueWaitOk := by
  induction hr with
  | init σ => intro _ hb; simp [Db.init] at hb
  | step hr hs ih => exact ih.step hr hs

/-! ### The lost `notify_all` of `shutdown()` -/

/-- The log worker asleep on `log_queue_wait.cv` after `shutdown()`, and nothing left that could
notify it: `Db::drop` waits in its join, the commit worker, whose `enact_logs` makes the only
other `notify_all`, can only exit, and no worker has an error for `store_err`. -/
structure Db.Stranded (s : Db) : Prop where
  running : s.workers .log = .running
  waiting : s.logBody = .commits .lqWaiting
  shutdown : s.shutdown = true
  joining : s.drop = .joining
  commit : s.workers .commit = .loop false ∨ s.workers .commit = .exited
  noError : ∀ w e, s.workers w ≠ .failed e

/-- Moving a worker other than the log worker keeps it stranded, as long as the commit worker
can only exit and no worker fails. -/
theorem Db.Stranded.setWorker (hs : s.Stranded) {w : Worker} {p : WorkerPc} (hw : w ≠ .log)
    (hc : w = .commit → p = .exited) (hp : ∀ e, p ≠ .failed e) : (s.setWorker w p).Stranded where
  running := by simp [Db.setWorker, Function.update_noteq hw.symm, hs.running]
  waiting := hs.waiting
  shutdown := hs.shutdown
  joining := hs.joining
  commit := by
    by_cases h : w = .commit
    · simp [Db.setWorker, h, hc h]
    · simp [Db.setWorker, Function.update_noteq (Ne.symm h), hs.commit]
  noError w' e := by
    by_cases h : w' = w
    · simp [Db.setWorker, h, hp]
    · simp [Db.setWorker, Function.update_noteq h, hs.noError]

/-- The flush or cleanup worker entering its loop body keeps the log worker stranded. -/
theorem Db.Stranded.enterBody (hs : s.Stranded) {w : Worker} (hw : w ≠ .log) (hc : w ≠ .commit) :
    (s.enterBody w).Stranded :=
  have h := hs.setWorker hw (fun h => absurd h hc) nofun (p := .running)
  ⟨h.1, by simp [Db.enterBody, hw, hs.2], h.3, h.4, h.5, h.6⟩

/-- **Step lemma for `Stranded`.** In a run without failures no thread frees the log worker. -/
theorem Db.Stranded.step (hs : s.Stranded) (h : Step false s t s') : s'.Stranded := by
  have hcommit : ∀ {p : WorkerPc}, s.workers .commit = p → p = .loop false ∨ p = .exited :=
    fun h => h ▸ hs.commit
  cases h with
  | @loopExit w _ hw =>
    cases w
    case log => simp [hs.running] at hw
    all_goals exact hs.setWorker nofun (fun _ => rfl) nofun
  | @loopWait w hw hc =>
    cases w
    case log => simp [hs.running] at hw
    case commit => simp [Worker.loopCond, hs.shutdown] at hc
    all_goals exact hs.setWorker nofun nofun nofun
  | @loopRun w hw =>
    cases w
    case log => simp [hs.running] at hw
    case commit => simpa using hcommit hw
    all_goals exact hs.enterBody nofun nofun
  | @wake w hw =>
    cases w
    case log => simp [hs.running] at hw
    case commit => simpa using hcommit hw
    all_goals
      exact Db.Stranded.enterBody (s := { s with work := Function.update s.work _ false })
        ⟨hs.1, hs.2, hs.3, hs.4, hs.5, hs.6⟩ nofun nofun
  | flushSignalCleanup =>
    exact Db.Stranded.setWorker (s := s.signalIf _ .cleanup) ⟨hs.1, hs.2, hs.3, hs.4, hs.5, hs.6⟩
      nofun nofun nofun
  | cleanupRun => exact Db.Stranded.setWorker (s := (s.cleanupLogs _).1) ⟨hs.1, hs.2, hs.3, hs.4, hs.5, hs.6⟩ nofun nofun nofun
  | dropJoin _ hj => rcases hj .log with h | h <;> simp [hs.running] at h
  | _ =>
    first
    | exact ⟨hs.1, hs.2, hs.3, hs.4, hs.5, hs.6⟩
    | (exfalso; have := hs; obtain ⟨_, _, _, _, _, _⟩ := this; simp_all)

/-- **Run lemma for `Stranded`.** -/
theorem Db.Stranded.run (hs : s.Stranded)
    (h : Relation.ReflTransGen (fun a b => ∃ t, Step false a t b) s s') : s'.Stranded := by
  induction h with
  | refl => exact hs
  | tail _ hst ih => obtain ⟨t, hst⟩ := hst; exact ih.step hst

/-- A run without failures in which `shutdown()` falls between the log worker's backlog test and
its wait. The client commits a value `v`; the log worker writes the commit's record, for which
`end_record` returns `2 ^ 27 + 32` bytes (the size of a commit of `2 ^ 27` bytes under a
32-byte key), and on its next pass finds the backlog over the bound; `Db::drop` calls
`shutdown()` before the worker enters `cv.wait`. The run is stated for any `v`, so that no
step computes the length of a concrete value. -/
theorem Reachable.exists_stranded (v : Value) :
    ∃ s, Reachable false s ∧ s.Stranded ∧ maxLogQueueBytes < s.logQueue := by
  have h0 : Reachable false (Db.init (Setup.oneColumn 0 1)) := .init _
  -- the log worker ends its first `process_reindex` and sleeps
  have h1 := (h0.step (Step.guardLoad rfl rfl (by decide))).step (Step.guardSkip rfl rfl (by decide))
  have h2 := h1.step (Step.loopWait (w := .log) rfl rfl)
  -- the client commits the value
  have h3 := h2.step (@Step.commitPush _ _ 0 none (Change.zeroKey v) rfl rfl
    (Change.zeroKey_validCol v 0 1) rfl (by decide) rfl rfl)
  have h4 := h3.step (@Step.signalLog _ _ 0 rfl)
  -- the log worker logs it
  have h5 := h4.step (Step.wake (w := .log) rfl rfl)
  have h6 := h5.step (Step.lqCheckPass rfl rfl (.inr (by show (0 : Int) ≤ _; decide)))
  have h7 := h6.step (@Step.popSome _ _ _ _ none rfl rfl rfl rfl (PopWakeOk.none
    (by show ∀ p ∈ [ClientPc.idle (some .committed)], p.isWaitFull = false; decide)))
  have h8 := h7.step (Step.writeOk false (2 ^ 27 + 32) false rfl rfl)
  have h9 := h8.step (Step.accountCommit rfl rfl)
  have h10 := (h9.step (Step.cleanup rfl rfl rfl rfl)).step (Step.trigger rfl rfl)
  -- its next pass finds the backlog over the bound and keeps the mutex
  have hq : maxLogQueueBytes < 0 + ((2 ^ 27 + 32 : Nat) : Int) := by decide
  have h11 := (h10.step (Step.guardLoad rfl rfl (by show 1 ≠ 0; decide))).step
    (Step.guardSkip rfl rfl (by show 0 < 1; decide))
  have h12 := h11.step (Step.loopRun (w := .log) rfl rfl)
  have h13 := h12.step (Step.lqCheckWait rfl rfl rfl hq)
  -- `shutdown()` notifies nobody; the worker then waits
  have h14 := h13.step (Step.dropStart rfl rfl)
  have h15 := h14.step (Step.lqWait rfl rfl)
  exact ⟨_, h15, ⟨rfl, rfl, rfl, rfl, .inl rfl, fun w e h => by cases w <;> cases h⟩, hq⟩

/-- **The log worker can sleep through `shutdown()`.** -/
theorem log_worker_sleeps_through_shutdown :
    ∃ s, Reachable false s ∧ s.workers .log = .running ∧ s.logBody = .commits .lqWaiting ∧
      s.shutdown = true ∧ maxLogQueueBytes < s.logQueue ∧
      ∀ s', Relation.ReflTransGen (fun a b => ∃ t, Step false a t b) s s' →
        s'.workers .log = .running ∧ s'.logBody = .commits .lqWaiting ∧ s'.drop = .joining := by
  obtain ⟨s, hr, hs, hq⟩ := Reachable.exists_stranded (Value.zeros (2 ^ 27))
  refine ⟨s, hr, hs.running, hs.waiting, hs.shutdown, hq, fun s' h => ?_⟩
  have hs' := hs.run h
  exact ⟨hs'.running, hs'.waiting, hs'.joining⟩

/-- **Backpressure holds the log worker only over the bound.** -/
theorem log_worker_waits_only_over_bound (hr : Reachable failing s)
    (hw : s.workers .log = .running)
    (hb : s.logBody = .commits .lqHeld ∨ s.logBody = .commits .lqWaiting) :
    maxLogQueueBytes < s.logQueue :=
  hr.logQueueWaitOk hw hb

theorem log_worker_waits_only_over_bound_at_shutdown :
    ∃ s, Reachable false s ∧ s.workers .log = .running ∧ s.logBody = .commits .lqWaiting ∧
      maxLogQueueBytes < s.logQueue := by
  obtain ⟨s, hr, hs, -⟩ := Reachable.exists_stranded (Value.zeros (2 ^ 27))
  exact ⟨s, hr, hs.running, hs.waiting,
    log_worker_waits_only_over_bound hr hs.running (.inr hs.waiting)⟩

end AxiaDb

import AxiaDb.Replay

/-!
# The commit and flush workers' waits

`commit_worker` and `flush_worker` sleep in `WaitCondvar::wait` when their last pass found no
more work. `WaitCondvar::signal` sets the flag under its mutex and `wait` clears it only when it
returns, so a signal sent between the pass and the wait is not lost. What has to be shown is
that every section that gives a sleeping worker work also signals it.

* `commit_worker_never_sleeps_on_enactable`: `flush_logs` signals the commit worker whenever
  `flush_one` reports an enactable record, so the commit worker never sleeps with its flag down
  while a flushed record waits to be enacted, unless the flush worker is between that
  `flush_one` and its signal (`Db.CommitWaitOk`).
* `flush_worker_never_sleeps_on_flushable`: the log worker signals the flush worker after each
  `end_record`: `process_commits` in the section after it, `process_reindex` in a section of its
  own at the end of the pass. So the flush worker never sleeps with its flag down while
  `flush_one` has a file to make durable, unless the log worker is between an `end_record` and
  that signal (`Db.FlushWaitOk`).
* `idle_pipeline_is_drained`: with the log worker's wait (`Db.LogWaitOk`), when the log, flush
  and commit workers all sleep with their flags down, the queue is empty, every flushed record is
  enacted, and what is not enacted is at most one unflushed file under `min_log_size`.
-/

namespace AxiaDb

/-- Whether worker `w` can block in its `WaitCondvar::wait` before it runs its body again: in
the wait, or at the loop test with `more_work = false`. -/
def Db.mayWait (s : Db) (w : Worker) : Bool :=
  match s.workers w with
  | .waiting => true
  | .loop more => !more
  | _ => false

/-- Whether the flush worker can block in its `WaitCondvar::wait` before it runs `flush_one`
again: in the wait, at the loop test with `more_work = false`, or after a `flush_one` that
reported nothing more to flush. -/
def Db.flushMayWait (s : Db) : Bool :=
  match s.workers .flush, s.flushBody with
  | .waiting, _ => true
  | .loop more, _ => !more
  | .running, .signalCommit more _ _ | .running, .signalCleanup more _ => !more
  | _, _ => false

/-- Whether `flush_one(min_size)` makes a file durable: the oldest unflushed file is not the
one being written, or has reached `min_size` bytes. -/
def Log.flushable (l : Log) (minSize : Nat) : Bool :=
  match l.pending with
  | f :: rest => !rest.isEmpty || decide (minSize ≤ fileBytes f)
  | [] => false

/-! ## What `flush_one` leaves -/

/-- `flush_one` adds to the flushed files only when it reports an enactable record. -/
theorem Log.flushOne_enactable (l : Log) (m : Nat) :
    (l.flushOne m).1.enactable = l.enactable ∨ (l.flushOne m).2.2.1 = true := by
  unfold Log.flushOne
  split
  · split
    · exact .inr rfl
    · exact .inl rfl
  · exact .inl rfl

/-- When `flush_one` reports nothing more to flush, nothing is left that it would flush. -/
theorem Log.flushable_flushOne (l : Log) (m : Nat) (h : (l.flushOne m).2.1 = false) :
    (l.flushOne m).1.flushable m = false := by
  unfold Log.flushOne at h ⊢
  rcases hp : l.pending with _ | ⟨f, rest⟩
  · simp [Log.flushable, hp]
  · simp only [hp] at h ⊢
    by_cases hc : rest ≠ [] ∨ m ≤ fileBytes f
    · -- the oldest file is flushed, and it was the last one
      rw [if_pos hc] at h ⊢
      simp only [Bool.not_eq_false', List.isEmpty_iff] at h
      simp [Log.flushable, h]
    · rw [if_neg hc]
      simp only [not_or, not_not, not_le] at hc
      simp [Log.flushable, hp, hc.1, hc.2]

variable {failing : Bool} {s s' : Db} {t : Thread}

/-! ## Frame lemmas -/

/-- Only worker `w` moves itself. -/
theorem Step.worker_of_ne {w : Worker} (h : Step failing s t s') (ht : t ≠ .worker w) :
    s'.workers w = s.workers w := by
  by_cases hw : ∃ w', t = .worker w'
  · obtain ⟨w', rfl⟩ := hw
    have hne : w ≠ w' := fun h' => ht (h' ▸ rfl)
    cases h <;> first
      | rfl
      | (split <;> rfl)
      | simp [Db.setWorker, Db.enterBody, Db.finishReindex, Db.signal, Db.signalIf,
          Db.cleanupLogs, Function.update_apply, hne]
  · rw [h.workers_eq fun w' h' => hw ⟨w', h'⟩]

/-- A flag that `signal` or `signalIf` on `w'` leaves down was down before. -/
theorem work_of_update {f : Worker → Bool} {w w' : Worker} {v : Bool}
    (hv : f w' = true → v = true) (h : Function.update f w' v w = false) : f w = false := by
  by_cases hw : w = w'
  · subst hw
    rw [Function.update_same] at h
    exact Bool.eq_false_iff.2 fun hf => by simp [hv hf] at h
  · rwa [Function.update_noteq hw] at h

/-- Only worker `w`'s own `wait` takes its flag down. -/
theorem Step.work_of_ne {w : Worker} (h : Step failing s t s') (ht : t ≠ .worker w)
    (hw : s'.work w = false) : s.work w = false := by
  have hne : ∀ {w' : Worker}, t = .worker w' → w ≠ w' := fun h hw => ht (hw ▸ h)
  have signalled : ∀ {w'}, Function.update s.work w' true w = false → s.work w = false :=
    work_of_update fun _ => rfl
  cases h with
  | wake => simpa [Db.enterBody, Db.setWorker, Function.update_apply, hne rfl] using hw
  | storeErr => unfold Db.storeErr at hw; split at hw <;> first | exact hw | nomatch hw
  | dropStart => split at hw <;> first | exact hw | nomatch hw
  | signalLog | accountCommit | reindexSignal => exact signalled hw
  | scanRecord => simpa using hw
  | killCommitSome => exact signalled (by rwa [← Db.processCommit_work])
  | enactRecord => simpa using hw
  | killEnactSome => simpa [Db.debitLog] using hw
  | trigger => split at hw <;> exact hw
  | flushSignalCommit | flushSignalCleanup => exact work_of_update (fun h => by rw [h, Bool.or_true]) hw
  | killFlush =>
    simp only [Db.flushLogs, Db.signalIf] at hw
    exact work_of_update (fun h => by rw [h, Bool.or_true])
      (work_of_update (fun h => by rw [h, Bool.or_true]) hw)
  | _ => exact hw

/-- Other threads do not change whether worker `w` can wait. -/
theorem Step.mayWait_of_ne {w : Worker} (h : Step failing s t s') (ht : t ≠ .worker w) :
    s'.mayWait w = s.mayWait w := by
  simp only [Db.mayWait, h.worker_of_ne ht]

@[simp] theorem Db.enactRecord_flushBody (s : Db) (r : LogRecord) (l : Log) :
    (s.enactRecord r l).flushBody = s.flushBody := by
  unfold Db.enactRecord; split <;> rfl

/-- Other threads do not move the flush worker. -/
theorem Step.flushBody_of_ne (h : Step failing s t s') (ht : t ≠ .worker .flush) :
    s'.workers .flush = s.workers .flush ∧ s'.flushBody = s.flushBody := by
  refine ⟨h.worker_of_ne ht, ?_⟩
  have hne : ∀ {w : Worker}, t = .worker w → w ≠ .flush := fun h hw => ht (hw ▸ h)
  cases h with
  | loopRun | wake => simp [Db.enterBody, hne rfl]
  | storeErr => unfold Db.storeErr; split <;> rfl
  | enactRecord | killEnactSome => simp [Db.debitLog]
  | killCommitSome => unfold Db.processCommit; split <;> rfl
  | scanRecord => simp only [Db.reindexRecord]; split <;> rfl
  | _ => first | exact absurd rfl ht | rfl | (split <;> rfl)

/-- Other threads do not change whether the flush worker can wait. -/
theorem Step.flushMayWait_of_ne (h : Step failing s t s') (ht : t ≠ .worker .flush) :
    s'.flushMayWait = s.flushMayWait := by
  obtain ⟨hw, hb⟩ := h.flushBody_of_ne ht
  simp only [Db.flushMayWait, hw, hb]

/-- Once `Db::drop` has joined the workers, none of them can wait any more. -/
theorem Reachable.mayWait_of_kill (hr : Reachable failing s) {ph : KillPhase}
    (hd : s.drop = .kill ph) (w : Worker) : s.mayWait w = false := by
  unfold Db.mayWait
  rcases workers_done_of_kill hr hd w with h | h <;> simp [h]

theorem Reachable.flushMayWait_of_kill (hr : Reachable failing s) {ph : KillPhase}
    (hd : s.drop = .kill ph) : s.flushMayWait = false := by
  unfold Db.flushMayWait
  rcases workers_done_of_kill hr hd .flush with h | h <;> simp [h]

theorem Log.readNext_pending {l l' : Log} {r : LogRecord} (h : l.readNext = some (r, l')) :
    l'.pending = l.pending := by
  unfold Log.readNext at h
  rcases ht : takeRecord l.enactable with _ | ⟨r0, fs, done⟩ <;> simp [ht] at h
  rw [← h.2]

/-! ## `commit_worker_wait` -/

/-- Where the commit worker can sleep with its flag down, no flushed record awaits enactment,
or the flush worker is between the `flush_one` that made one enactable and its signal. -/
def Db.CommitWaitOk (s : Db) : Prop :=
  s.mayWait .commit = true → s.work .commit = false →
    s.log.enactable.flatten = [] ∨
      s.workers .flush = .running ∧ ∃ more cleanup, s.flushBody = .signalCommit more true cleanup

/-- What one section does to the flushed files: nothing, or it is the commit worker's own, or the
flush worker's `flush_one`, which then reports an enactable record, or `kill_logs`'. -/
theorem Step.enactable_cases (h : Step failing s t s') :
    s'.log.enactable = s.log.enactable ∨ t = .worker .commit ∨
      (s'.workers .flush = .running ∧
        ∃ more cleanup, s'.flushBody = .signalCommit more true cleanup) ∨
      ∃ ph, s.drop = .kill ph := by
  cases h with
  | flush hw =>
    rcases Log.flushOne_enactable s.log s.setup.stages.flushMinLogSize with he | he
    · exact .inl (by simp [Db.flushOne, he])
    · exact .inr (.inr (.inl ⟨hw, _, _, congrArg (fun b => FlushBody.signalCommit _ b _) he⟩))
  | enactRecord | enactNone | enactFail | enactAccount => exact .inr (.inl rfl)
  | killEnactSome hd | killFlush hd | killCommitSome _ _ _ hd | killCommitFail _ _ hd
  | killLogs hd => exact .inr (.inr (.inr ⟨_, hd⟩))
  | scanRecord => refine .inl ?_; simp only [Db.reindexRecord]; split <;> rfl
  | scanFail _ begun => exact .inl (by cases begun <;> rfl)
  | storeErr => exact .inl (by unfold Db.storeErr; split <;> rfl)
  | cleanupRun => exact .inl (by simp [Db.cleanupLogs, Db.setWorker, apply_ite Log.enactable,
      Log.cleanLogs])
  | _ => first | exact .inl rfl | (split <;> exact .inl rfl)

/-- **Step lemma for `CommitWaitOk`.** -/
theorem Db.CommitWaitOk.step (hr : Reachable failing s) (hi : s.CommitWaitOk)
    (h : Step failing s t s') : s'.CommitWaitOk := by
  intro hm hw
  by_cases hc : t = .worker .commit
  · subst hc
    have hfl := h.flushBody_of_ne (by simp)
    cases h with
    | enactNone _ _ hn => exact .inl (Log.enactable_of_readNext_eq_none hn)
    | loopWait hl =>
      rw [hfl.1, hfl.2]
      exact hi (by simp [Db.mayWait, hl]) hw
    | _ => simp_all [Db.mayWait, Db.setWorker, Db.enterBody, Db.debitLog]
  · have hm' : s.mayWait .commit = true := h.mayWait_of_ne hc ▸ hm
    have hw' := h.work_of_ne hc hw
    rcases h.enactable_cases with he | he | hwin | ⟨ph, hd⟩
    · rw [he]
      rcases hi hm' hw' with hn | ⟨hfr, m, c, hfb⟩
      · exact .inl hn
      · by_cases htf : t = .worker .flush
        · -- the flush worker's next section is the commit signal
          subst htf
          cases h with
          | flushSignalCommit _ hb =>
            rw [hfb] at hb
            cases hb
            simp [Db.signalIf] at hw
          | _ => simp_all
        · obtain ⟨hfw, hfb'⟩ := h.flushBody_of_ne htf
          exact .inr ⟨hfw ▸ hfr, m, c, hfb' ▸ hfb⟩
    · exact absurd he hc
    · exact .inr hwin
    · simp [hr.mayWait_of_kill hd] at hm'

/-- **Run lemma for `CommitWaitOk`.** -/
theorem Reachable.commitWaitOk (hr : Reachable failing s) : s.CommitWaitOk := by
  induction hr with
  | init σ => exact fun _ _ => .inl rfl
  | step hr hs ih => exact ih.step hr hs

theorem Log.flushable_congr {l l' : Log} (h : l'.pending = l.pending) (m : Nat) :
    l'.flushable m = l.flushable m := by
  simp only [Log.flushable, h]

/-- Where the flush worker can sleep with its flag down, `flush_one` has no file to make
durable, or the log worker is between an `end_record` and the signal that follows it. -/
def Db.FlushWaitOk (s : Db) : Prop :=
  s.flushMayWait = true → s.work .flush = false →
    s.log.flushable s.setup.stages.flushMinLogSize = false ∨
      s.workers .log = .running ∧
        ((∃ c rid bytes x, s.logBody = .commits (.account c rid bytes x)) ∨
          ∃ m, s.logBody = .reindex m .signal)

/-- What one section does to the unflushed files: nothing, or it is the flush worker's own, or
the log worker's `end_record`, before its signal, or `kill_logs`'. -/
theorem Step.pending_cases (h : Step failing s t s') :
    s'.log.pending = s.log.pending ∨ t = .worker .flush ∨
      (s'.workers .log = .running ∧
        ((∃ c rid bytes x, s'.logBody = .commits (.account c rid bytes x)) ∨
          ∃ m, s'.logBody = .reindex m .signal)) ∨
      ∃ ph, s.drop = .kill ph := by
  cases h with
  | writeOk _ _ _ hw => exact .inr (.inr (.inl ⟨hw, .inl ⟨_, _, _, _, rfl⟩⟩))
  | scanRecord _ _ _ _ hw => exact .inr (.inr (.inl ⟨by simpa using hw, .inr ⟨_, rfl⟩⟩))
  | scanFail _ begun => exact .inl (by cases begun <;> rfl)
  | flush => exact .inr (.inl rfl)
  | enactRecord _ _ hr => exact .inl (by simp [Log.readNext_pending hr])
  | killEnactSome hd | killFlush hd | killCommitSome _ _ _ hd | killCommitFail _ _ hd
  | killLogs hd => exact .inr (.inr (.inr ⟨_, hd⟩))
  | storeErr => exact .inl (by unfold Db.storeErr; split <;> rfl)
  | cleanupRun => exact .inl (by simp [Db.cleanupLogs, Db.setWorker, apply_ite Log.pending,
      Log.cleanLogs])
  | _ => first | exact .inl rfl | (split <;> exact .inl rfl)

/-- **Step lemma for `FlushWaitOk`.** -/
theorem Db.FlushWaitOk.step (hr : Reachable failing s) (hi : s.FlushWaitOk)
    (h : Step failing s t s') : s'.FlushWaitOk := by
  intro hm hw
  rw [h.setup_eq]
  by_cases hf : t = .worker .flush
  · subst hf
    cases h with
    | flush hfw =>
      -- `flush_one` reported nothing more to flush
      simp only [Db.flushMayWait, Db.flushOne, hfw, Bool.not_eq_true'] at hm
      exact .inl (Log.flushable_flushOne _ _ hm)
    | flushSignalCommit hfw hb | flushSignalCleanup hfw hb =>
      exact hi (by simpa [Db.flushMayWait, hfw, hb, Db.signalIf, Db.setWorker] using hm)
        (by simpa [Db.signalIf, Db.setWorker] using hw)
    | loopWait hl => exact hi (by simp [Db.flushMayWait, hl]) hw
    | _ => simp_all [Db.flushMayWait, Db.setWorker, Db.enterBody]
  · have hm' : s.flushMayWait = true := h.flushMayWait_of_ne hf ▸ hm
    have hw' := h.work_of_ne hf hw
    rcases h.pending_cases with hp | hff | hwin | ⟨ph, hd⟩
    · rw [Log.flushable_congr hp]
      rcases hi hm' hw' with hn | ⟨hl, hwin⟩
      · exact .inl hn
      · -- the log worker's next section is the signal
        by_cases htl : t = .worker .log
        · subst htl
          cases h with
          | accountCommit => simp [Db.creditLog, Db.signal] at hw
          | reindexSignal => simp [Db.finishReindex, Db.setWorker, Db.signal] at hw
          | _ => simp_all
        · obtain ⟨hl', hb' | hb'⟩ := h.logBody_of_ne htl
          · exact .inr ⟨hl' ▸ hl, hb' ▸ hwin⟩
          · refine .inr ⟨hl' ▸ hl, ?_⟩
            rcases hwin with ⟨c, rid, bytes, x, hb⟩ | ⟨m, hb⟩
            · exact .inl ⟨c, rid, bytes, x, by simp [hb', hb, LogBody.notifyLogQueue]⟩
            · exact .inr ⟨m, by simp [hb', hb, LogBody.notifyLogQueue]⟩
    · exact absurd hff hf
    · exact .inr hwin
    · simp [hr.flushMayWait_of_kill hd] at hm'

/-- **Run lemma for `FlushWaitOk`.** -/
theorem Reachable.flushWaitOk (hr : Reachable failing s) : s.FlushWaitOk := by
  induction hr with
  | init σ => exact fun _ _ => .inl rfl
  | step hr hs ih => exact ih.step hr hs

/-- `flush_one(min_size)` has nothing to flush exactly when at most one file is unflushed and it
is smaller than `min_size`. -/
theorem Log.flushable_eq_false {l : Log} {m : Nat} (h : l.flushable m = false) :
    l.pending = [] ∨ ∃ f, l.pending = [f] ∧ fileBytes f < m := by
  unfold Log.flushable at h
  split at h
  · rename_i f rest hp
    simp only [Bool.or_eq_false_iff, Bool.not_eq_false', List.isEmpty_iff,
      decide_eq_false_iff_not, not_le] at h
    exact .inr ⟨f, by rw [hp, h.1], h.2⟩
  · exact .inl ‹_›

/-- **An idle pipeline is drained.** In every reachable state, failures included, where the log,
flush and commit workers all sleep in their `WaitCondvar::wait` with their flags down and no
client is between its push and its signal: the commit queue is empty, every flushed record is
enacted, and the records closed in this run and not enacted are exactly those of at most one
unflushed log file, smaller than the flush worker's `min_log_size`. -/
theorem idle_pipeline_is_drained (hr : Reachable failing s)
    (hw : ∀ w, w ≠ .cleanup → s.workers w = .waiting)
    (hf : ∀ w, w ≠ .cleanup → s.work w = false)
    (hc : ∀ i : Nat, s.clients[i]? ≠ some .pushed) :
    s.queue.commits = [] ∧ s.log.enactable.flatten = [] ∧
      (s.log.pending = [] ∨
        ∃ f, s.log.pending = [f] ∧ fileBytes f < s.setup.stages.flushMinLogSize) ∧
      s.closed = s.ghost.enacted ++ s.log.pending.flatten := by
  have hlog : s.workers .log = .waiting := hw .log nofun
  have hq : s.queue.commits = [] :=
    (hr.logWaitOk (by simp [Db.logMayWait, hlog]) (hf .log nofun)).resolve_right
      fun ⟨i, hi⟩ => hc i hi
  -- the flush worker sleeps, so it is not between its `flush_one` and its signal
  have he : s.log.enactable.flatten = [] :=
    (hr.commitWaitOk (by simp [Db.mayWait, hw .commit nofun]) (hf .commit nofun)).resolve_right
      fun ⟨hfl, _⟩ => by simp [hw .flush nofun] at hfl
  -- the log worker sleeps, so it is not between its `end_record` and its signal
  have hp : s.log.flushable s.setup.stages.flushMinLogSize = false :=
    (hr.flushWaitOk (by simp [Db.flushMayWait, hw .flush nofun]) (hf .flush nofun)).resolve_right
      fun ⟨hl, _⟩ => by simp [hlog] at hl
  refine ⟨hq, he, Log.flushable_eq_false hp, ?_⟩
  rcases hr.enactedPrefix with hcl | ⟨-, hdone, -⟩
  · rw [hcl, Log.records, he, List.nil_append]
  · rcases hdone .log with h' | h' <;> simp [hlog] at h'

/-- A run without failures. The client commits; the log worker writes the commit's record, of
`32` bytes, signals the flush worker, finds the queue empty and goes back to sleep; the flush
worker wakes, leaves the file, smaller than `MIN_LOG_SIZE`, unflushed, and sleeps; the commit
worker sleeps. The pipeline is idle with the record closed and not enacted. -/
theorem idle_pipeline_is_drained_small_file :
    ∃ s, Reachable false s ∧ s.queue.commits = [] ∧ s.log.enactable.flatten = [] ∧
      s.ghost.enacted = [] ∧ s.closed ≠ [] ∧
        s.closed = s.ghost.enacted ++ s.log.pending.flatten := by
  have h0 : Reachable false (Db.init (Setup.oneColumn 0 1)) := .init _
  have h1 := (h0.step (Step.guardLoad rfl rfl (by decide))).step (Step.guardSkip rfl rfl (by decide))
  have h2 := h1.step (Step.loopWait (w := .log) rfl rfl)
  have h3 := h2.step (@Step.commitPush _ _ 0 none (Change.zeroKey [1]) rfl rfl
    (by decide) rfl (by decide) rfl rfl)
  have h4 := h3.step (@Step.signalLog _ _ 0 rfl)
  -- the log worker writes the record, credits it and cleans the overlay
  have h5 := h4.step (Step.wake (w := .log) rfl rfl)
  have h6 := h5.step (Step.lqCheckPass rfl rfl (.inr (by show (0 : Int) ≤ _; decide)))
  have h7 := h6.step (@Step.popSome _ _ _ _ none rfl rfl rfl rfl (PopWakeOk.none
    (by show ∀ p ∈ [ClientPc.idle (some .committed)], p.isWaitFull = false; decide)))
  have h8 := h7.step (Step.writeOk false 32 false rfl rfl)
  have h9 := h8.step (Step.accountCommit rfl rfl)
  have h10 := (h9.step (Step.cleanup rfl rfl rfl rfl)).step (Step.trigger rfl rfl)
  -- its next pass finds the queue empty, and it sleeps
  have h11 := (h10.step (Step.guardLoad rfl rfl (by decide))).step
    (Step.guardSkip rfl rfl (by decide))
  have h12 := h11.step (Step.loopRun (w := .log) rfl rfl)
  have h13 := h12.step (Step.lqCheckPass rfl rfl (.inr (by show (32 : Int) ≤ _; decide)))
  have h14 := h13.step (Step.popNone rfl rfl rfl rfl)
  have h15 := (h14.step (Step.guardLoad rfl rfl (by decide))).step
    (Step.guardSkip rfl rfl (by decide))
  have h16 := h15.step (Step.loopWait (w := .log) rfl rfl)
  -- the flush worker finds the file under `MIN_LOG_SIZE`
  have h17 := h16.step (Step.loopWait (w := .flush) rfl rfl)
  have h18 := h17.step (Step.wake (w := .flush) rfl rfl)
  have h19 := ((h18.step (Step.flush rfl rfl)).step (Step.flushSignalCommit rfl rfl)).step
    (Step.flushSignalCleanup rfl rfl)
  have h20 := h19.step (Step.loopWait (w := .flush) rfl rfl)
  have h21 := h20.step (Step.loopWait (w := .commit) rfl rfl)
  obtain ⟨hq, he, -, hc⟩ := idle_pipeline_is_drained h21
    (fun w hw => by cases w <;> first | rfl | exact absurd rfl hw) (fun w _ => by cases w <;> rfl)
    (fun i => show [ClientPc.idle (some .committed)][i]? ≠ some .pushed by
      rcases i with _ | i <;> simp)
  exact ⟨_, h21, hq, he, rfl, List.cons_ne_nil _ _, hc⟩

end AxiaDb

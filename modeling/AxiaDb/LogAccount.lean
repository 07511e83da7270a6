import AxiaDb.BackgroundError

/-!
# The log-queue account

`log_queue_wait.work` counts the bytes written to the log and not enacted yet. The log
worker adds a record's bytes after `end_record` in `process_commits`, in a section of its own,
and under the mutex, before `end_record`, in `process_reindex`. `enact_logs(false)` stores
`last_enacted` and calls `end_read`, and subtracts the record's bytes in a later section.

* `Reachable.logAccountOk`: the account is exactly conserved. With the bytes
  `process_commits` has not added yet and those `enact_logs` has not subtracted yet, it is the
  bytes of the records closed in this run less those enacted.
* `log_queue_account_lags_enact`: so the account alone is not the bytes of the records not
  enacted yet. After the commit worker enacts the one record closed in this run, and before
  its subtraction, the account still holds the record's bytes.
* `log_queue_account_conserved`: the records not enacted yet are a suffix of those closed, and
  the account is negative only while `process_commits` has not added a record the commit
  worker has already enacted.
-/

namespace AxiaDb

variable {failing : Bool} {s s' : Db} {t : Thread}

/-! ## Bytes in flight -/

/-- The bytes of the record `process_commits` has closed and not added to the account yet. -/
def LogBody.unaddedBytes : LogBody → Nat
  | .commits (.account _ _ bytes _) => bytes
  | _ => 0

/-- The bytes of the record `enact_logs` has enacted and not subtracted from the account yet. -/
def CommitBody.unsubtractedBytes : CommitBody → Nat
  | .enact => 0
  | .account _ bytes => bytes

/-- What the log worker has closed and not added, while it runs. -/
def Db.pendingCredit (s : Db) : Nat :=
  if s.workers .log = .running then s.logBody.unaddedBytes else 0

/-- What the commit worker has enacted and not subtracted, while it runs. -/
def Db.pendingDebit (s : Db) : Nat :=
  if s.workers .commit = .running then s.commitBody.unsubtractedBytes else 0

/-- The account counts the records closed in this run and not enacted yet, less the record
`process_commits` has not added, plus the record `enact_logs` has not subtracted. -/
def Db.LogAccountOk (s : Db) : Prop :=
  s.logQueue + s.pendingCredit + fileBytes s.ghost.enacted = fileBytes s.closed + s.pendingDebit

@[simp] theorem fileBytes_append (f g : List LogRecord) :
    fileBytes (f ++ g) = fileBytes f + fileBytes g := by
  simp [fileBytes]

@[simp] theorem fileBytes_singleton (r : LogRecord) : fileBytes [r] = r.bytes := by
  simp [fileBytes]

@[simp] theorem LogBody.unaddedBytes_notifyLogQueue (b : LogBody) :
    b.notifyLogQueue.unaddedBytes = b.unaddedBytes := by
  rcases b with (_ | _ | _ | _ | _ | _ | _) | _ <;> rfl

/-- Sections of other threads leave the log worker's addition in flight alone. -/
theorem Step.pendingCredit_eq (h : Step failing s t s') (ht : t ≠ .worker .log) :
    s'.pendingCredit = s.pendingCredit := by
  obtain ⟨hw, hb | hb⟩ := h.logBody_of_ne ht <;> simp [Db.pendingCredit, hw, hb]

/-- Other threads do not move the commit worker. -/
theorem Step.commitBody_of_ne (h : Step failing s t s') (ht : t ≠ .worker .commit) :
    s'.workers .commit = s.workers .commit ∧ s'.commitBody = s.commitBody := by
  have hw : ∀ {w : Worker}, t = .worker w → Worker.commit ≠ w := fun h hw => ht (hw ▸ h)
  cases h with
  | loopExit | loopWait | loopRun | wake =>
    simp [Db.setWorker, Db.enterBody, Function.update_apply, hw rfl, (hw rfl).symm]
  | storeErr =>
    unfold Db.storeErr; split <;> simp [Db.setWorker, Db.shutdownDb, Function.update_apply, hw rfl]
  | flushSignalCleanup | cleanupRun | flushFail | cleanupFail =>
    simp [Db.setWorker, Db.signalIf, Db.cleanupLogs, Function.update_apply]
  | enactRecord | enactNone | enactFail | enactAccount => exact absurd rfl ht
  | killEnactSome => unfold Db.debitLog Db.enactRecord; split <;> exact ⟨rfl, rfl⟩
  | killCommitSome => unfold Db.processCommit; split <;> exact ⟨rfl, rfl⟩
  | scanRecord => unfold Db.reindexRecord; split <;> exact ⟨rfl, rfl⟩
  | _ => first | exact absurd rfl ht | exact ⟨rfl, rfl⟩ | (split <;> exact ⟨rfl, rfl⟩)

theorem Step.pendingDebit_eq (h : Step failing s t s') (ht : t ≠ .worker .commit) :
    s'.pendingDebit = s.pendingDebit := by
  obtain ⟨hw, hb⟩ := h.commitBody_of_ne ht
  simp [Db.pendingDebit, hw, hb]

@[simp] theorem Db.storeErr_logQueue (s : Db) (e : Error) (w : Option Nat) :
    (s.storeErr e w).logQueue = s.logQueue := by
  unfold Db.storeErr; split <;> rfl

@[simp] theorem Db.storeErr_closed (s : Db) (e : Error) (w : Option Nat) :
    (s.storeErr e w).closed = s.closed := by
  unfold Db.storeErr; split <;> rfl

@[simp] theorem Db.enactRecord_logQueue (s : Db) (r : LogRecord) (l : Log) :
    (s.enactRecord r l).logQueue = s.logQueue := by
  unfold Db.enactRecord; split <;> rfl

/-- **Step lemma for `LogAccountOk`.** -/
theorem Db.LogAccountOk.step (hi : s.LogAccountOk) (h : Step failing s t s') :
    s'.LogAccountOk := by
  unfold Db.LogAccountOk at *
  by_cases hl : t = .worker .log
  · subst hl
    rw [h.pendingDebit_eq (by simp)]
    cases h with
    | writeOk _ bytes _ hw hb =>
      simp [Db.pendingCredit, Db.closeRecord, hw, hb, LogBody.unaddedBytes] at hi ⊢
      omega
    | accountCommit hw hb =>
      simp [Db.pendingCredit, Db.creditLog, Db.signal, hw, hb, LogBody.unaddedBytes] at hi ⊢
      omega
    | scanRecord _ _ bytes _ hw hb =>
      simp [Db.pendingCredit, Db.reindexRecord, Db.closeRecord, Db.triggerReindex,
        Db.startReindex, apply_ite Db.logQueue, apply_ite Db.closed, apply_ite Db.ghost,
        apply_ite Ghost.enacted, hw, hb, LogBody.unaddedBytes] at hi ⊢
      omega
    | cleanup hw hb => simp_all [Db.pendingCredit, LogBody.unaddedBytes, Db.cleanupOverlay]
    | trigger hw hb =>
      split <;> simp_all [Db.pendingCredit, LogBody.unaddedBytes, Db.triggerReindex,
        Db.startReindex]
    | _ =>
      simp_all [Db.pendingCredit, LogBody.unaddedBytes, Db.setWorker, Db.enterBody,
        Db.finishReindex, Db.popCommit, Db.signal]
  by_cases hc : t = .worker .commit
  · subst hc
    rw [h.pendingCredit_eq (by simp)]
    cases h with
    | enactRecord hw hb =>
      simp [Db.pendingDebit, hw, hb, CommitBody.unsubtractedBytes] at hi ⊢
      omega
    | enactAccount hw hb =>
      simp [Db.pendingDebit, Db.debitLog, Db.setWorker, hw, hb,
        CommitBody.unsubtractedBytes] at hi ⊢
      omega
    | _ =>
      simp_all [Db.pendingDebit, CommitBody.unsubtractedBytes, Db.setWorker, Db.enterBody]
  rw [h.pendingCredit_eq hl, h.pendingDebit_eq hc]
  cases h with
  | killEnactSome =>
    simp [Db.debitLog] at hi ⊢
    omega
  | killCommitSome =>
    unfold Db.processCommit
    split <;> simp [Db.startReindex, Db.cleanupOverlay, Db.creditLog, Db.signal, Db.closeRecord,
      Db.popCommit] at hi ⊢ <;> omega
  | killFlush => exact hi
  | _ =>
    first
    | exact absurd rfl hl
    | exact absurd rfl hc
    | exact hi
    | (split <;> exact hi)
    | simpa [Db.setWorker] using hi

/-- **Run lemma for `LogAccountOk`.** -/
theorem Reachable.logAccountOk (hr : Reachable failing s) : s.LogAccountOk := by
  induction hr with
  | init σ =>
    simp [Db.LogAccountOk, Db.init, Db.pendingCredit, Db.pendingDebit, LogBody.unaddedBytes,
      CommitBody.unsubtractedBytes, fileBytes]
  | step _ hs ih => exact ih.step hs

/-! ## Enacted in the order closed -/

/-- The records enacted are the first of those closed in this run: the log holds the rest, or
`Log::kill_logs` has deleted the files and no thread moves again. -/
def Db.EnactedPrefix (s : Db) : Prop :=
  s.closed = s.ghost.enacted ++ s.log.records ∨
    (s.drop = .finished ∧ (∀ w, s.workers w = .absent ∨ s.workers w = .exited) ∧
      ∃ pending, s.closed = s.ghost.enacted ++ pending)

/-- Once `Db::drop` has finished after joining the workers, no thread moves. -/
theorem Reachable.no_step_of_finished (hr : Reachable failing s) (hd : s.drop = .finished)
    (hw : ∀ w, s.workers w = .absent ∨ s.workers w = .exited) (h : Step failing s t s') :
    False := by
  rcases t with i | w | _
  · exact absurd (h.live_of_idle (hr.clients_idle (by simp [hd]) i)) (by simp [hd])
  · have := h.worker_alive
    rcases hw w with h' | h' <;> simp [h'] at this
  · cases h <;> simp_all

/-- **Step lemma for `EnactedPrefix`.** -/
theorem Db.EnactedPrefix.step (hr : Reachable failing s) (hi : s.EnactedPrefix)
    (h : Step failing s t s') : s'.EnactedPrefix := by
  rcases hi with he | ⟨hd, hw, -⟩
  · by_cases hk : t = .dropper ∧ s.drop = .kill .killLogs
    · obtain ⟨rfl, hk⟩ := hk
      have hw := workers_done_of_kill hr hk
      cases h with
      | killLogs | killLogsFail => exact .inr ⟨rfl, hw, _, he⟩
      | _ => simp_all [KillPhase.isEnact, KillPhase.isFlush]
    · exact .inl (h.records_conserved (fun ht hd => hk ⟨ht, hd⟩) he)
  · exact (hr.no_step_of_finished hd hw h).elim

/-- **Run lemma for `EnactedPrefix`.** -/
theorem Reachable.enactedPrefix (hr : Reachable failing s) : s.EnactedPrefix := by
  induction hr with
  | init σ => exact .inl rfl
  | step hr hs ih => exact ih.step hr hs

theorem Db.EnactedPrefix.exists_pending (hi : s.EnactedPrefix) :
    ∃ pending, s.closed = s.ghost.enacted ++ pending := by
  rcases hi with he | ⟨-, -, hp⟩
  · exact ⟨_, he⟩
  · exact hp

/-! ## The record in flight -/

/-- While `process_commits` holds a closed record's bytes, that record is the last one closed. -/
def Db.CreditRecordOk (s : Db) : Prop :=
  ∀ c rid bytes x, s.workers .log = .running → s.logBody = .commits (.account c rid bytes x) →
    s.closed.getLast? = some ⟨rid, bytes, .commit c⟩

/-- Only the log worker closes records, and `kill_logs` in its `process_commits` loop. -/
theorem Step.closed_of_ne (h : Step failing s t s') (ht : t ≠ .worker .log)
    (hk : s.drop ≠ .kill .commits) : s'.closed = s.closed := by
  cases h with
  | killCommitSome _ _ _ hd => exact absurd hd hk
  | storeErr => simp [Db.setWorker]
  | enactRecord | killEnactSome => simp [Db.debitLog]
  | killFlush | cleanupRun => rfl
  | _ => first | exact absurd rfl ht | rfl | (split <;> rfl)

theorem LogBody.eq_of_notifyLogQueue_eq_account {b : LogBody} {c : Commit} {rid bytes : Nat}
    {x : Bool} (h : b.notifyLogQueue = .commits (.account c rid bytes x)) :
    b = .commits (.account c rid bytes x) := by
  rcases b with (_ | _ | _ | _ | _ | _ | _) | _ <;> simp_all [LogBody.notifyLogQueue]

/-- **Step lemma for `CreditRecordOk`.** -/
theorem Db.CreditRecordOk.step (hr : Reachable failing s) (hi : s.CreditRecordOk)
    (h : Step failing s t s') : s'.CreditRecordOk := by
  intro c rid bytes x hw hb
  by_cases hl : t = .worker .log
  · subst hl
    cases h with
    | writeOk => simp_all [Db.closeRecord]
    | _ =>
      simp_all [Db.setWorker, Db.enterBody, Db.finishReindex, Db.popCommit, Db.creditLog,
        Db.signal, Db.cleanupOverlay, Db.triggerReindex, Db.startReindex, apply_ite Db.logBody]
  · obtain ⟨hw', hb'⟩ := h.logBody_of_ne hl
    have hb0 : s.logBody = .commits (.account c rid bytes x) := by
      rcases hb' with hb' | hb' <;> rw [hb'] at hb
      · exact hb
      · exact LogBody.eq_of_notifyLogQueue_eq_account hb
    have hk : s.drop ≠ .kill .commits := fun hd => by
      rcases workers_done_of_kill hr hd .log with h' | h' <;> simp [h', hw'] at hw
    rw [h.closed_of_ne hl hk]
    exact hi c rid bytes x (hw' ▸ hw) hb0

/-- **Run lemma for `CreditRecordOk`.** -/
theorem Reachable.creditRecordOk (hr : Reachable failing s) : s.CreditRecordOk := by
  induction hr with
  | init σ => intro _ _ _ _ _ hb; simp [Db.init] at hb
  | step hr hs ih => exact ih.step hr hs

theorem Db.pendingCredit_pos (h : 0 < s.pendingCredit) :
    ∃ c rid bytes x, s.workers .log = .running ∧
      s.logBody = .commits (.account c rid bytes x) ∧ s.pendingCredit = bytes := by
  unfold Db.pendingCredit at h ⊢
  split at h
  · rcases hb : s.logBody with (_ | _ | _ | _ | _ | _ | ⟨c, rid, bytes, x⟩) | _ <;>
      simp_all [LogBody.unaddedBytes]
  · exact absurd h (Nat.lt_irrefl 0)

/-! ## Conservation -/

/-- **Log-queue account conservation.** In every reachable state, failures included, the
records not enacted yet are a suffix `pending` of those closed in this run, and the account
plus the bytes `process_commits` has not added yet is their bytes plus those `enact_logs` has
not subtracted yet. The account is `0` once every record is enacted and neither addition nor
subtraction is in flight, and it is negative only while `process_commits` has not added a
record the commit worker has already enacted. -/
theorem log_queue_account_conserved (hr : Reachable failing s) :
    ∃ pending, s.closed = s.ghost.enacted ++ pending ∧
      s.logQueue + s.pendingCredit = fileBytes pending + s.pendingDebit ∧
      (pending = [] → s.pendingCredit = 0 → s.pendingDebit = 0 → s.logQueue = 0) ∧
      (s.logQueue < 0 → ∃ c rid bytes x, s.workers .log = .running ∧
        s.logBody = .commits (.account c rid bytes x) ∧
        (⟨rid, bytes, .commit c⟩ : LogRecord) ∈ s.ghost.enacted) := by
  obtain ⟨pending, hp⟩ := hr.enactedPrefix.exists_pending
  have ha : s.LogAccountOk := hr.logAccountOk
  rw [Db.LogAccountOk, hp, fileBytes_append, Nat.cast_add] at ha
  have heq : s.logQueue + s.pendingCredit = fileBytes pending + s.pendingDebit := by omega
  refine ⟨pending, hp, heq, fun h0 hc hd => by simpa [h0, hc, hd, fileBytes] using heq,
    fun hneg => ?_⟩
  -- a negative account needs a record in flight on the log worker's side
  obtain ⟨c, rid, bytes, x, hw, hb, hc⟩ := Db.pendingCredit_pos (s := s) (by omega)
  refine ⟨c, rid, bytes, x, hw, hb, ?_⟩
  have hl := hr.creditRecordOk c rid bytes x hw hb
  rw [hp] at hl
  -- and that record is no longer among those not enacted
  by_cases h0 : pending = []
  · rw [h0, List.append_nil] at hl
    exact List.mem_of_mem_getLast? hl
  · rw [List.getLast?_append_of_ne_nil _ h0] at hl
    have : bytes ≤ fileBytes pending :=
      List.le_sum_of_mem (List.mem_map_of_mem LogRecord.bytes (List.mem_of_mem_getLast? hl))
    omega

/-! ## The subtraction in flight -/

/-- A run without failures. The client commits; the log worker writes the commit's record, for
which `end_record` returns `MIN_LOG_SIZE` bytes, and adds them to the account; the flush
worker flushes the file; the commit worker enacts the record and has not subtracted its bytes
yet. -/
theorem Reachable.exists_enacted_before_debit :
    ∃ s, Reachable false s ∧ s.closed = s.ghost.enacted ∧ s.pendingCredit = 0 ∧
      s.logQueue = minLogSize ∧ s.setup = Setup.oneColumn 0 1 := by
  have h0 : Reachable false (Db.init (Setup.oneColumn 0 1)) := .init _
  have h1 := (h0.step (Step.guardLoad rfl rfl (by decide))).step (Step.guardSkip rfl rfl (by decide))
  have h2 := h1.step (Step.loopWait (w := .log) rfl rfl)
  have h3 := h2.step (@Step.commitPush _ _ 0 none (Change.zeroKey [1]) rfl rfl
    (by decide) rfl (by decide) rfl rfl)
  have h4 := h3.step (@Step.signalLog _ _ 0 rfl)
  -- the log worker writes the record and adds its bytes
  have h5 := h4.step (Step.wake (w := .log) rfl rfl)
  have h6 := h5.step (Step.lqCheckPass rfl rfl (.inr (by show (0 : Int) ≤ _; decide)))
  have h7 := h6.step (@Step.popSome _ _ _ _ none rfl rfl rfl rfl (PopWakeOk.none
    (by show ∀ p ∈ [ClientPc.idle (some .committed)], p.isWaitFull = false; decide)))
  have h8 := h7.step (Step.writeOk false minLogSize false rfl rfl)
  have h9 := h8.step (Step.accountCommit rfl rfl)
  -- the flush worker makes the file durable
  have h10 := h9.step (Step.loopWait (w := .flush) rfl rfl)
  have h11 := h10.step (Step.wake (w := .flush) rfl rfl)
  have h12 := ((h11.step (Step.flush rfl rfl)).step (Step.flushSignalCommit rfl rfl)).step
    (Step.flushSignalCleanup rfl rfl)
  -- the commit worker enacts the record
  have h13 := h12.step (Step.loopWait (w := .commit) rfl rfl)
  have h14 := h13.step (Step.wake (w := .commit) rfl rfl)
  have h15 := h14.step (Step.enactRecord rfl rfl rfl)
  exact ⟨_, h15, rfl, rfl, show (0 : Int) + (minLogSize : Nat) = _ from Int.zero_add _, rfl⟩

/-- **The account lags `enact_logs`.** Every record closed in this run is enacted and the log
worker has no record in flight, yet the account is not `0`: `enact_logs` subtracts a record's
bytes in a section after the one that enacts it. -/
theorem log_queue_account_lags_enact :
    ∃ s, Reachable false s ∧ s.closed = s.ghost.enacted ∧ s.pendingCredit = 0 ∧
      0 < s.logQueue := by
  obtain ⟨s, hr, hc, hp, hq, -⟩ := Reachable.exists_enacted_before_debit
  exact ⟨s, hr, hc, hp, by rw [hq]; decide⟩

/-- In the run of `exists_enacted_before_debit`, the account is the bytes the commit worker has
still to subtract. -/
theorem log_queue_account_conserved_before_debit :
    ∃ s, Reachable false s ∧ ∃ pending, s.closed = s.ghost.enacted ++ pending ∧
      s.logQueue + s.pendingCredit = fileBytes pending + s.pendingDebit ∧
      (pending = [] → s.pendingCredit = 0 → s.pendingDebit = 0 → s.logQueue = 0) ∧
      (s.logQueue < 0 → ∃ c rid bytes x, s.workers .log = .running ∧
        s.logBody = .commits (.account c rid bytes x) ∧
        (⟨rid, bytes, .commit c⟩ : LogRecord) ∈ s.ghost.enacted) := by
  obtain ⟨s, hr, -⟩ := Reachable.exists_enacted_before_debit
  exact ⟨s, hr, log_queue_account_conserved hr⟩

end AxiaDb

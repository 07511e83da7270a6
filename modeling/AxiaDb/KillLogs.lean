import AxiaDb.LogWorker

/-!
# `kill_logs`

Once `Db::drop` has joined the workers, `kill_logs` finishes the pipeline on the dropping
thread: it enacts what is enactable, calls `flush_logs(0)` once, logs the commits left in the
queue, enacts, calls `flush_logs(0)` once more, enacts, and then `clean_all_logs` and
`Log::kill_logs` delete the log files.

* `Reachable.logConserved`: the log loses no record on its own. Until the drop is finished,
  the records closed in this run are those enacted, in order, followed by those the log still
  holds, flushed or not.
* `kill_logs_leaves_unflushed`: what `kill_logs` gets right. In a run without failures, when it
  reaches `clean_all_logs` the commit queue and the commit overlay are empty, and every record
  closed in this run is enacted except those of the files neither flush reached.
* `kill_logs_drops_unflushed_record`: those files need not be empty. Each `flush_logs(0)`
  flushes one file and `kill_logs` ignores its `has_more_to_flush`, where `flush_worker` loops
  on it. Two commits `kill_logs` logs into two files leave the second file pending at
  `clean_all_logs`, and its record is never enacted.
-/

namespace AxiaDb

variable {failing : Bool} {s s' : Db} {t : Thread}

/-! ## Every closed record is enacted or still in the log -/

/-- Until `Db::drop` is finished, the records closed in this run are the records enacted, in
order, followed by the records the log still holds. -/
def Db.LogConserved (s : Db) : Prop :=
  s.drop ≠ .finished → s.closed = s.ghost.enacted ++ s.log.records

/-- No section leaves a finished drop. -/
theorem Step.drop_ne_finished (h : Step failing s t s') (hd : s'.drop ≠ .finished) :
    s.drop ≠ .finished := by
  by_cases ht : t = .dropper
  · subst ht
    cases h <;> simp_all
  · rwa [← h.drop_eq ht]

@[simp] theorem Db.enactRecord_closed (s : Db) (r : LogRecord) (l : Log) :
    (s.enactRecord r l).closed = s.closed := by
  unfold Db.enactRecord; split <;> rfl

@[simp] theorem Db.enactRecord_ghost_enacted (s : Db) (r : LogRecord) (l : Log) :
    (s.enactRecord r l).ghost.enacted = s.ghost.enacted ++ [r] := by
  unfold Db.enactRecord; split <;> rfl

@[simp] theorem Db.enactRecord_log (s : Db) (r : LogRecord) (l : Log) :
    (s.enactRecord r l).log = l := by
  unfold Db.enactRecord; split <;> rfl

/-- Every section but `Log::kill_logs` keeps the records closed in this run as those enacted,
in order, followed by those the log still holds. -/
theorem Step.records_conserved (h : Step failing s t s')
    (hk : t = .dropper → s.drop ≠ .kill .killLogs)
    (he : s.closed = s.ghost.enacted ++ s.log.records) :
    s'.closed = s'.ghost.enacted ++ s'.log.records := by
  cases h with
  | writeOk => simp [Db.closeRecord, he]
  | scanRecord =>
    simp only [Db.reindexRecord]
    split <;> simp [Db.triggerReindex, Db.startReindex, Db.closeRecord, he]
  | scanFail _ begun => cases begun <;> exact he
  | killCommitSome =>
    unfold Db.processCommit
    split <;> simp [Db.startReindex, Db.cleanupOverlay, Db.creditLog, Db.signal, Db.closeRecord,
      Db.popCommit, he]
  | enactRecord _ _ hr | killEnactSome _ _ hr => simp [Db.debitLog, he, Log.records_readNext hr]
  | flush => simp [Db.flushOne, he]
  | killFlush => simp [Db.flushLogs, Db.signalIf, he]
  | cleanupRun => simp [Db.cleanupLogs, Db.setWorker, apply_ite Log.records, he]
  | storeErr => unfold Db.storeErr; split <;> exact he
  | trigger | dropStart => split <;> exact he
  | killLogs hd => exact absurd hd (hk rfl)
  | _ => exact he

/-- **Step lemma for `LogConserved`.** Only `Log::kill_logs` loses records, and it finishes the
drop. -/
theorem Db.LogConserved.step (hi : s.LogConserved) (h : Step failing s t s') :
    s'.LogConserved := fun hd =>
  h.records_conserved
    (fun ht hk => by subst ht; cases h <;> simp_all [KillPhase.isEnact, KillPhase.isFlush])
    (hi (h.drop_ne_finished hd))

/-- **Run lemma for `LogConserved`.** -/
theorem Reachable.logConserved (hr : Reachable failing s) : s.LogConserved := by
  induction hr with
  | init σ => intro; rfl
  | step _ hs ih => exact ih.step hs

/-! ## `kill_logs` runs alone -/

/-- Once the workers are joined only `Db::drop` moves: every client has returned and may not
call in again, and every worker has exited. -/
theorem Reachable.dropper_of_kill (hr : Reachable failing s) {ph : KillPhase}
    (hd : s.drop = .kill ph) (h : Step failing s t s') : t = .dropper := by
  rcases t with i | w | _
  · exact absurd (h.live_of_idle (hr.clients_idle (by simp [hd]) i)) (by simp [hd])
  · have := h.worker_alive
    rcases workers_done_of_kill hr hd w with h' | h' <;> simp [h'] at this
  · rfl

/-- The steps of `kill_logs` after its `process_commits` loop has returned `false`. -/
def KillPhase.pastCommits : KillPhase → Bool
  | .enact2 | .flush2 | .enact3 | .cleanAll | .killLogs => true
  | _ => false

theorem KillPhase.pastCommits_of_next {ph ph' : KillPhase} (h : ph.next = .kill ph')
    (hp : ph'.pastCommits = true) (hne : ph ≠ .commits) : ph.pastCommits = true := by
  cases ph <;> simp_all [KillPhase.next] <;> subst h <;> simp_all [KillPhase.pastCommits]

/-- What `kill_logs` has finished at the step it is at: past its `process_commits` loop the
commit queue is empty, and at `clean_all_logs` its last enact loop has read every flushed
record. -/
structure Db.KillDrained (s : Db) : Prop where
  queue : ∀ ph, s.drop = .kill ph → ph.pastCommits = true → s.queue.commits = []
  enactable : s.drop = .kill .cleanAll → s.log.enactable.flatten = []

@[simp] theorem Db.enactRecord_queue (s : Db) (r : LogRecord) (l : Log) :
    (s.enactRecord r l).queue = s.queue := by
  unfold Db.enactRecord; split <;> rfl

/-- **Step lemma for `KillDrained`.** -/
theorem Db.KillDrained.step (hr : Reachable failing s) (hi : s.KillDrained)
    (h : Step failing s t s') : s'.KillDrained := by
  by_cases ht : t = .dropper
  · subst ht
    cases h with
    | killEnactSome hd hph =>
      refine ⟨fun ph hd' hp => ?_, fun hd' => ?_⟩
      · simpa [Db.debitLog, Db.enactRecord_queue] using hi.queue ph (by simpa using hd') hp
      simp [hd] at hd'
      simp [hd', KillPhase.isEnact] at hph
    | @killEnactNone ph hd hph hrn =>
      refine ⟨fun ph' hd' hp => hi.queue ph hd (KillPhase.pastCommits_of_next hd' hp ?_), fun hd' => ?_⟩
      · rintro rfl; simp [KillPhase.isEnact] at hph
      · cases ph <;> simp [KillPhase.next, KillPhase.isEnact] at hd' hph
        exact Log.enactable_of_readNext_eq_none hrn
    | @killFlush ph hd hph =>
      refine ⟨fun ph' hd' hp => hi.queue ph hd (KillPhase.pastCommits_of_next hd' hp ?_), fun hd' => ?_⟩
      · rintro rfl; simp [KillPhase.isFlush] at hph
      · cases ph <;> simp_all [KillPhase.next, KillPhase.isFlush]
    | killCommitNone hd hc => exact ⟨fun _ _ _ => hc, fun hd' => by simp at hd'⟩
    | cleanAll hd =>
      exact ⟨fun _ _ _ => hi.queue _ hd rfl, fun hd' => by simp at hd'⟩
    | dropStart => split <;> exact ⟨fun _ h => by simp at h, fun h => by simp at h⟩
    | _ => exact ⟨fun ph _ hp => by cases ph <;> simp_all [KillPhase.pastCommits], fun _ => by simp_all⟩
  · have hd0 := h.drop_eq ht
    exact ⟨fun _ hd _ => absurd (hr.dropper_of_kill (hd0 ▸ hd) h) ht,
      fun hd => absurd (hr.dropper_of_kill (hd0 ▸ hd) h) ht⟩

/-- **Run lemma for `KillDrained`.** -/
theorem Reachable.killDrained (hr : Reachable failing s) : s.KillDrained := by
  induction hr with
  | init σ => exact ⟨fun _ h => by simp [Db.init] at h, fun h => by simp [Db.init] at h⟩
  | step hr hs ih => exact ih.step hr hs

/-! ## What reaches `clean_all_logs` -/

/-- **What `kill_logs` drains.** At `clean_all_logs`, in a run without failures, the queue
and the overlay are empty and every closed record is enacted but those still pending. -/
theorem kill_logs_leaves_unflushed (hr : Reachable false s) (hd : s.drop = .kill .cleanAll) :
    s.queue.commits = [] ∧ s.overlay = Overlay.empty ∧
      s.closed = s.ghost.enacted ++ s.log.pending.flatten := by
  have hq : s.queue.commits = [] := hr.killDrained.queue _ hd rfl
  have hlog : s.workers .log ≠ .running := by
    rcases workers_done_of_kill hr hd .log with h | h <;> simp [h]
  refine ⟨hq, ?_, ?_⟩
  · rw [show s.overlay = s.pipeline.overlay from rfl, hr.pipeline_exact.overlay_eq]
    simp [Pipeline.pending, Db.pipeline, hlog, hq]
  · rw [hr.logConserved (by simp [hd]), Log.records, hr.killDrained.enactable hd,
      List.nil_append]

/-- Two commits are queued when `Db::drop` starts; the workers exit without logging them.
`kill_logs` logs them into two log files, and its second `flush_logs(0)` flushes only the
first: the second file reaches `clean_all_logs` unflushed. -/
theorem Reachable.exists_cleanAll_pending :
    ∃ s, Reachable false s ∧ s.drop = .kill .cleanAll ∧
      ∃ c ∈ s.ghost.accepted, ∃ r ∈ s.log.pending.flatten,
        r.body = .commit c ∧ r ∉ s.ghost.enacted := by
  have h0 : Reachable false (Db.init (Setup.oneColumn 0 1)) := .init _
  have h1 := (h0.step (Step.guardLoad rfl rfl (by decide))).step (Step.guardSkip rfl rfl (by decide))
  -- the client commits twice
  have h2 := h1.step (@Step.commitPush _ _ 0 none (Change.zeroKey [1]) rfl rfl
    (by decide) rfl (by decide) rfl rfl)
  have h3 := h2.step (@Step.signalLog _ _ 0 rfl)
  have h4 := h3.step (@Step.commitPush _ _ 0 _ (Change.zeroKey [2]) rfl rfl
    (by decide) rfl (by decide) rfl rfl)
  have h5 := h4.step (@Step.signalLog _ _ 0 rfl)
  -- `Db::drop` shuts down; every worker leaves its loop
  have h6 := h5.step (Step.dropStart rfl (by decide))
  have h7 := h6.step (Step.loopExit (w := .log) rfl rfl)
  have h8 := h7.step (Step.loopExit (w := .flush) rfl rfl)
  have h9 := h8.step (Step.loopExit (w := .commit) rfl rfl)
  have h10 := h9.step (Step.loopRun (w := .cleanup) rfl rfl)
  have h11 := h10.step (Step.cleanupRun false rfl)
  have h12 := h11.step (Step.loopExit (w := .cleanup) rfl rfl)
  have h13 := h12.step (Step.dropJoin rfl fun w => by cases w <;> exact .inr rfl)
  -- `kill_logs`: nothing to enact or flush; the two commits go to two files
  have h14 := h13.step (Step.killEnactNone rfl rfl rfl)
  have h15 := h14.step (Step.killFlush rfl rfl)
  have h16 := h15.step (Step.killCommitSome false 10 false rfl rfl)
  have h17 := h16.step (Step.killCommitSome false 10 true rfl rfl)
  have h18 := h17.step (Step.killCommitNone rfl rfl)
  have h19 := h18.step (Step.killEnactNone rfl rfl rfl)
  -- one `flush_logs(0)` flushes the first file only
  have h20 := h19.step (Step.killFlush rfl rfl)
  have h21 := h20.step (Step.killEnactSome rfl rfl rfl)
  have h22 := h21.step (Step.killEnactNone rfl rfl rfl)
  exact ⟨_, h22, rfl, _, List.mem_cons_of_mem _ (List.mem_singleton_self _), _,
    List.mem_singleton_self _, rfl, by decide⟩

/-- In the run of `exists_cleanAll_pending`, the state at `clean_all_logs`: drained, with the
second file's record pending. -/
theorem kill_logs_leaves_unflushed_two_files :
    ∃ s, Reachable false s ∧ s.drop = .kill .cleanAll ∧ s.queue.commits = [] ∧
      s.overlay = Overlay.empty ∧ s.closed = s.ghost.enacted ++ s.log.pending.flatten := by
  obtain ⟨s, hr, hd, -⟩ := Reachable.exists_cleanAll_pending
  exact ⟨s, hr, hd, kill_logs_leaves_unflushed hr hd⟩

/-! ## A pending file reaches `clean_all_logs` -/

/-- **`kill_logs` can leave a logged commit unenacted.** -/
theorem kill_logs_drops_unflushed_record :
    ∃ s, Reachable false s ∧ s.drop = .kill .cleanAll ∧
      ∃ c ∈ s.ghost.accepted, ∃ r ∈ s.closed, r.body = .commit c ∧ r ∉ s.ghost.enacted := by
  obtain ⟨s, hr, hd, c, hc, r, hp, hb, he⟩ := Reachable.exists_cleanAll_pending
  refine ⟨s, hr, hd, c, hc, r, ?_, hb, he⟩
  rw [hr.logConserved (by simp [hd]), Log.records]
  simp [hp]

end AxiaDb

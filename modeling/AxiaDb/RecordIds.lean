import AxiaDb.Wakeups

/-!
# Record ids, `last_enacted` and the reindex guard

`begin_record` stamps each record with the log's next record id, which only counts up.
`enact_logs` stores the id of each record it enacts into `last_enacted`. The guard of
`process_reindex` loads `next_reindex`, then `last_enacted`, and compares the two to learn
whether the record that asked for a reindex is enacted.

`next_reindex` is one atomic cell with three writers: `start_reindex` after a plan returned
`NeedReindex` (in `process_commits` and in `process_reindex`, both run by the log worker),
`start_reindex` after `enact_logs` dropped an index table (run by the commit worker), and the
store of `0` that ends a `process_reindex` pass in which no column had work.

* `Db.IdsOk`: on a log whose first record id is above the `last_enacted` the replay left, the
  records closed in this run carry increasing ids, above `last_enacted` at open and below the
  log's next id, and `last_enacted` is the id of the newest record enacted (`Reachable.idsOk`).
* `enacted_iff_id_le_last_enacted`: so, since the records are enacted in the order they were
  closed (`Reachable.enactedPrefix`), a closed record is enacted exactly when its id is at most
  `last_enacted`, and `last_enacted` never decreases along a run.
  `fresh_open_counts_first_record_enacted`: the hypothesis is needed. On an empty log
  `DbInner::open` reads `last_enacted = 1`, and a façade that numbers its first record `1`
  has that record count as enacted before it is.
* `reindex_runs_ahead_of_enact`: the commit worker's store overwrites a pending trigger with
  the id of the `DropTable` record it just enacted, and the guard then passes while the
  trigger's record is not enacted.
* `reindex_trigger_lost_by_clear`: the clear stores `0` without looking at what was stored
  since the guard's load, and wipes out the commit worker's `start_reindex`.
-/

namespace AxiaDb

/-! ## Record ids only grow -/

@[simp] theorem Db.closeRecord_nextRecordId (s : Db) (b : RecordBody) (n : Nat) (f : Bool) :
    (s.closeRecord b n f).log.nextRecordId = s.log.nextRecordId + 1 := rfl

theorem Log.flushOne_nextRecordId (l : Log) (m : Nat) :
    (l.flushOne m).1.nextRecordId = l.nextRecordId := by
  unfold Log.flushOne; split <;> (try split) <;> rfl

theorem Log.readNext_nextRecordId {l l' : Log} {r : LogRecord} (h : l.readNext = some (r, l')) :
    l'.nextRecordId = l.nextRecordId := by
  unfold Log.readNext at h
  rcases ht : takeRecord l.enactable with _ | ⟨r0, fs, done⟩ <;> simp [ht] at h
  rw [← h.2]

@[simp] theorem Db.enactRecord_lastEnacted (s : Db) (r : LogRecord) (l : Log) :
    (s.enactRecord r l).lastEnacted = r.id := by
  unfold Db.enactRecord; split <;> rfl

/-- In a list of records with increasing ids, no id is above the last one's. -/
theorem id_le_getLast {rs : List LogRecord} (hp : rs.Pairwise fun a b => a.id < b.id)
    {r a : LogRecord} (hr : r ∈ rs) (ha : rs.getLast? = some a) : r.id ≤ a.id := by
  obtain ⟨ys, rfl⟩ := List.getLast?_eq_some_iff.1 ha
  rcases List.mem_append.1 hr with hr | hr
  · exact le_of_lt ((List.pairwise_append.1 hp).2.2 r hr a (List.mem_singleton_self a))
  · rw [List.mem_singleton.1 hr]

variable {failing : Bool} {s s' : Db} {t : Thread}

/-- `begin_record` is the only change to the next record id, and it counts up. -/
theorem Step.nextRecordId_le (h : Step failing s t s') :
    s.log.nextRecordId ≤ s'.log.nextRecordId := by
  cases h with
  | writeOk | writeFail | killCommitFail =>
    simp [Db.closeRecord, Db.setWorker, Log.beginRecord, Log.endRecord]
  | scanFail _ begun => cases begun <;> simp [Db.setWorker, Log.beginRecord]
  | trigger => split <;> simp [Db.triggerReindex, Db.startReindex]
  | scanRecord =>
    simp only [Db.reindexRecord]
    split <;> simp [Db.triggerReindex, Db.startReindex, Db.closeRecord, Log.beginRecord,
      Log.endRecord]
  | enactRecord _ _ hr | killEnactSome _ _ hr =>
    simp [Db.enactRecord, Db.debitLog, apply_ite Db.log, Db.startReindex,
      Log.readNext_nextRecordId hr]
  | flush => simp [Db.flushOne, Log.flushOne_nextRecordId]
  | killFlush => simp [Db.flushLogs, Db.signalIf, Log.flushOne_nextRecordId]
  | storeErr => unfold Db.storeErr; split <;> simp [Db.setWorker, Db.shutdownDb]
  | cleanupRun => simp [Db.cleanupLogs, Db.setWorker, Log.cleanLogs, apply_ite Log.nextRecordId]
  | dropStart => split <;> simp [Db.shutdownDb]
  | killCommitSome =>
    unfold Db.processCommit; split <;> simp [Db.startReindex, Db.cleanupOverlay, Db.creditLog,
      Db.signal, Db.closeRecord, Db.popCommit, Log.beginRecord, Log.endRecord]
  | _ => exact Nat.le_refl _

/-! ## What a section does to the ids -/

/-- What one section does to the records closed in this run: nothing, or it closes one under
the log's next record id, which it advances. -/
theorem Step.closed_cases (h : Step failing s t s') :
    s'.closed = s.closed ∨
      ∃ r : LogRecord, r.id = s.log.nextRecordId ∧ s'.closed = s.closed ++ [r] ∧
        s'.log.nextRecordId = s.log.nextRecordId + 1 := by
  cases h with
  | writeOk => exact .inr ⟨_, rfl, rfl, rfl⟩
  | scanRecord =>
    simp only [Db.reindexRecord]
    split <;> exact .inr ⟨_, rfl, rfl, rfl⟩
  | killCommitSome =>
    unfold Db.processCommit
    split <;> exact .inr ⟨_, rfl, rfl, rfl⟩
  | storeErr => exact .inl (by simp [Db.setWorker])
  | enactRecord => exact .inl (by simp)
  | killEnactSome => exact .inl (by simp [Db.debitLog])
  | killFlush => exact .inl (by simp [Db.flushLogs, Db.signalIf])
  | _ => first | exact .inl rfl | (split <;> exact .inl rfl)

/-- What one section does to `last_enacted` and the records enacted: nothing, or the commit
worker or `kill_logs` enacts the record `read_next` hands over. -/
theorem Step.enacted_cases (h : Step failing s t s') :
    (s'.lastEnacted = s.lastEnacted ∧ s'.ghost.enacted = s.ghost.enacted) ∨
      ∃ r l, s.log.readNext = some (r, l) ∧ s'.lastEnacted = r.id ∧
        s'.ghost.enacted = s.ghost.enacted ++ [r] ∧
        (t = .worker .commit ∨ ∃ ph, s.drop = .kill ph) := by
  cases h with
  | enactRecord _ _ hr => exact .inr ⟨_, _, hr, by simp, by simp, .inl rfl⟩
  | killEnactSome hd _ hr =>
    exact .inr ⟨_, _, hr, by simp [Db.debitLog], by simp [Db.debitLog], .inr ⟨_, hd⟩⟩
  | storeErr => exact .inl (by unfold Db.storeErr; split <;> exact ⟨rfl, rfl⟩)
  | trigger => exact .inl (by split <;> exact ⟨rfl, rfl⟩)
  | scanRecord =>
    simp only [Db.reindexRecord]
    split <;> exact .inl ⟨rfl, rfl⟩
  | killCommitSome =>
    unfold Db.processCommit
    split <;> exact .inl ⟨rfl, rfl⟩
  | killFlush => exact .inl (by simp [Db.flushLogs, Db.signalIf])
  | _ => first | exact .inl ⟨rfl, rfl⟩ | (split <;> exact .inl ⟨rfl, rfl⟩)

/-! ## The invariant -/

/-- The ids `begin_record` hands out, and `last_enacted`: the records closed in this run carry
increasing ids, above `last_enacted` at open and below the log's next id, and `last_enacted` is
the id of the newest record enacted in this run, or its value at open. -/
structure Db.IdsOk (s : Db) : Prop where
  increasing : s.closed.Pairwise fun a b => a.id < b.id
  above : ∀ r ∈ s.closed, s.setup.lastEnacted < r.id
  below : ∀ r ∈ s.closed, r.id < s.log.nextRecordId
  start : s.setup.lastEnacted < s.log.nextRecordId
  newest : s.lastEnacted = (s.ghost.enacted.getLast?.map LogRecord.id).getD s.setup.lastEnacted

/-- **Step lemma for `IdsOk`.** -/
theorem Db.IdsOk.step (hi : s.IdsOk) (h : Step failing s t s') : s'.IdsOk := by
  have hσ := h.setup_eq
  have hn := h.nextRecordId_le
  have newest : s'.lastEnacted =
      (s'.ghost.enacted.getLast?.map LogRecord.id).getD s'.setup.lastEnacted := by
    rcases h.enacted_cases with ⟨hl, he⟩ | ⟨r, l, -, hl, he, -⟩
    · rw [hl, he, hσ, hi.newest]
    · simp [hl, he]
  rcases h.closed_cases with hc | ⟨r, hr, hc, hn'⟩
  · refine ⟨hc ▸ hi.increasing, ?_, ?_, hσ ▸ lt_of_lt_of_le hi.start hn, newest⟩
    · rw [hc, hσ]; exact hi.above
    · rw [hc]; exact fun r h' => lt_of_lt_of_le (hi.below r h') hn
  · -- the new record takes the next id, above every id handed out before
    refine ⟨?_, ?_, ?_, by rw [hσ]; have := hi.start; omega, newest⟩
    · rw [hc]
      refine List.pairwise_append.2 ⟨hi.increasing, List.pairwise_singleton _ _, ?_⟩
      intro a ha b hb
      rw [List.mem_singleton.1 hb, hr]
      exact hi.below a ha
    · rw [hc, hσ]
      intro a ha
      rcases List.mem_append.1 ha with ha | ha
      · exact hi.above a ha
      · rw [List.mem_singleton.1 ha, hr]; exact hi.start
    · rw [hc]
      intro a ha
      rcases List.mem_append.1 ha with ha | ha
      · have := hi.below a ha; omega
      · rw [List.mem_singleton.1 ha, hr]; omega

/-- **Run lemma for `IdsOk`**, on a log that numbers its first record above the `last_enacted`
the replay left. -/
theorem Reachable.idsOk (hr : Reachable failing s)
    (hσ : s.setup.lastEnacted < s.setup.firstRecordId) : s.IdsOk := by
  induction hr with
  | init σ => exact ⟨List.Pairwise.nil, nofun, nofun, hσ, rfl⟩
  | step _ hs ih => exact (ih (hs.setup_eq ▸ hσ)).step hs

/-! ## `last_enacted` tells which records are enacted -/

/-- A closed record is enacted exactly when its id is at most `last_enacted`. -/
theorem Reachable.enacted_iff (hr : Reachable failing s)
    (hσ : s.setup.lastEnacted < s.setup.firstRecordId) {r : LogRecord} (hc : r ∈ s.closed) :
    r ∈ s.ghost.enacted ↔ r.id ≤ s.lastEnacted := by
  have hi := hr.idsOk hσ
  obtain ⟨pending, hp⟩ := hr.enactedPrefix.exists_pending
  have hinc := hi.increasing
  rw [hp] at hinc hc
  have hpe := (List.pairwise_append.1 hinc).1
  rw [hi.newest]
  constructor
  · intro he
    cases hl : s.ghost.enacted.getLast? with
    | none => simp [List.getLast?_eq_none_iff.1 hl] at he
    | some a => exact id_le_getLast hpe he hl
  · intro hle
    rcases List.mem_append.1 hc with he | hq
    · exact he
    · -- a pending record's id is above every enacted one's and above `last_enacted` at open
      exfalso
      cases hl : s.ghost.enacted.getLast? with
      | none =>
        have := hi.above r (hp ▸ List.mem_append_right _ hq)
        simp only [hl, Option.map_none', Option.getD_none] at hle
        omega
      | some a =>
        have := (List.pairwise_append.1 hinc).2.2 a (List.mem_of_mem_getLast? hl) r hq
        simp only [hl, Option.map_some', Option.getD_some] at hle
        omega

/-- A section never lowers `last_enacted`: the record it enacts is the next one closed. -/
theorem Reachable.lastEnacted_le (hr : Reachable failing s)
    (hσ : s.setup.lastEnacted < s.setup.firstRecordId) (h : Step failing s t s') :
    s.lastEnacted ≤ s'.lastEnacted := by
  rcases h.enacted_cases with ⟨hl, -⟩ | ⟨r, l, hn, hl, -, -⟩
  · rw [hl]
  · rw [hl]
    rcases hr.enactedPrefix with he | ⟨hd, hw, -⟩
    · -- `r` is the first record the log still holds, closed after every enacted one
      have hc : r ∈ s.closed := by rw [he, Log.records_readNext hn]; simp
      have hinc := (hr.idsOk hσ).increasing
      rw [he, Log.records_readNext hn] at hinc
      have hne : r ∉ s.ghost.enacted := fun hm =>
        lt_irrefl r.id ((List.pairwise_append.1 hinc).2.2 r hm r (List.mem_cons_self _ _))
      exact le_of_lt (not_le.1 (mt (hr.enacted_iff hσ hc).2 hne))
    · exact (hr.no_step_of_finished hd hw h).elim

/-- **A closed record is enacted exactly when its id is at most `last_enacted`.** In every
reachable state, failures included, of a database whose log numbers its first record above the
`last_enacted` the replay left, the records closed in this run carry strictly increasing ids, a
closed record is enacted exactly when its id is at most `last_enacted`, and no continuation
lowers `last_enacted`. -/
theorem enacted_iff_id_le_last_enacted (hr : Reachable failing s)
    (hσ : s.setup.lastEnacted < s.setup.firstRecordId) :
    s.closed.Pairwise (fun a b => a.id < b.id) ∧
      (∀ r ∈ s.closed, r ∈ s.ghost.enacted ↔ r.id ≤ s.lastEnacted) ∧
      ∀ s', Relation.ReflTransGen (fun a b => ∃ t, Step failing a t b) s s' →
        s.lastEnacted ≤ s'.lastEnacted := by
  refine ⟨(hr.idsOk hσ).increasing, fun r hc => hr.enacted_iff hσ hc, fun s' h => ?_⟩
  have run : Reachable failing s' ∧ s'.setup = s.setup ∧ s.lastEnacted ≤ s'.lastEnacted := by
    induction h with
    | refl => exact ⟨hr, rfl, le_refl _⟩
    | tail _ hst ih =>
      obtain ⟨t, hst⟩ := hst
      obtain ⟨hr', hs', hle⟩ := ih
      exact ⟨hr'.step hst, hst.setup_eq.trans hs',
        le_trans hle (hr'.lastEnacted_le (hs' ▸ hσ) hst)⟩
  exact run.2.2

/-- In the run of `exists_enacted_before_debit`, every record closed is enacted, and each id is
at most `last_enacted`. -/
theorem enacted_iff_id_le_last_enacted_after_enact :
    ∃ s, Reachable false s ∧ s.closed = s.ghost.enacted ∧
      ∀ r ∈ s.closed, r.id ≤ s.lastEnacted := by
  obtain ⟨s, hr, he, -, -, hσ⟩ := Reachable.exists_enacted_before_debit
  exact ⟨s, hr, he, fun r hc =>
    ((enacted_iff_id_le_last_enacted hr (by rw [hσ]; decide)).2.1 r hc).1 (he ▸ hc)⟩

/-- On an empty log `DbInner::open` reads `last_enacted = 1`. With a façade that numbers its
first record `1`, the log worker's first `process_reindex` passes its guard and writes record
`1`, which the id test then counts as enacted though the commit worker has not enacted it. -/
theorem fresh_open_counts_first_record_enacted :
    ∃ s, Reachable false s ∧ s.setup.lastEnacted = openLastEnacted none ∧
      s.setup.firstRecordId = 1 ∧ ∃ r ∈ s.closed, r ∉ s.ghost.enacted ∧ r.id ≤ s.lastEnacted := by
  have h0 : Reachable false (Db.init { Setup.oneColumn 1 0 with firstRecordId := 1 }) := .init _
  have h1 := ((h0.step (Step.guardLoad rfl rfl (by decide))).step
    (Step.guardPass rfl rfl (by decide))).step (Step.scanRecord none false 10 false rfl rfl)
  exact ⟨_, h1, rfl, rfl, _, List.mem_singleton_self _, List.not_mem_nil _, le_refl _⟩

/-! ## The guard and the clear of `process_reindex` -/

/-- The pass before the loop writes a `DropTable` record, record `2`. A commit follows whose
plan returns `NeedReindex`: its record `3` goes into a new file and the log worker calls
`start_reindex(3)`. The flush worker makes record `2` enactable and the commit worker enacts
it, calling `start_reindex(2)` and storing `last_enacted = 2`. The log worker's next guard loads
`next_reindex = 2`, then `last_enacted = 2`, and passes, with the trigger `3` not enacted. -/
theorem reindex_runs_ahead_of_enact :
    ∃ s s', Reachable false s ∧ Step false s (.worker .log) s' ∧
      (∃ m n, s.logBody = .reindex m (.compare n) ∧ s'.logBody = .reindex m .scan) ∧
      ∃ r ∈ s.ghost.triggers, s.lastEnacted < r := by
  have h0 : Reachable false (Db.init (Setup.oneColumn 1 1)) := .init _
  have h1 := (h0.step (Step.guardLoad rfl rfl (by decide))).step (Step.guardPass rfl rfl (by decide))
  have h2 := (h1.step (Step.scanRecord (some 0) false 10 false rfl rfl)).step
    (Step.reindexSignal rfl rfl)
  -- the commit whose plan asks for a reindex
  have h3 := h2.step (@Step.commitPush _ _ 0 none (Change.zeroKey [1]) rfl rfl
    (by decide) rfl (by decide) rfl rfl)
  have h4 := h3.step (@Step.signalLog _ _ 0 rfl)
  have h5 := h4.step (Step.loopRun (w := .log) rfl rfl)
  have h6 := h5.step (Step.lqCheckPass rfl rfl (by decide))
  have h7 := h6.step (@Step.popSome _ _ _ _ none rfl rfl rfl rfl
    (PopWakeOk.none (by unfold NotifyOneOk; decide)))
  have h8 := h7.step (Step.writeOk true 10 true rfl rfl)
  have h9 := h8.step (Step.accountCommit rfl rfl)
  have h10 := (h9.step (Step.cleanup rfl rfl rfl rfl)).step (Step.trigger rfl rfl)
  -- record 2 is flushed and enacted
  have h11 := h10.step (Step.loopWait (w := .flush) rfl rfl)
  have h12 := h11.step (Step.wake (w := .flush) rfl rfl)
  have h13 := ((h12.step (Step.flush rfl rfl)).step (Step.flushSignalCommit rfl rfl)).step
    (Step.flushSignalCleanup rfl rfl)
  have h14 := h13.step (Step.loopWait (w := .commit) rfl rfl)
  have h15 := h14.step (Step.wake (w := .commit) rfl rfl)
  have h16 := (h15.step (Step.enactRecord rfl rfl rfl)).step (Step.guardLoad rfl rfl (by decide))
  exact ⟨_, _, h16, Step.guardPass rfl rfl (by decide), ⟨_, _, rfl, rfl⟩, 3, by decide,
    by decide⟩

/-- The pass before the loop writes a `DropTable` record, record `2`, and the next pass writes
record `3` into a new file. The third pass loads `next_reindex = 1` at its guard and finds no
column with work. Before it stores `0`, the flush worker makes record `2` enactable and the
commit worker enacts it, calling `start_reindex(2)`. The store of `0` then wipes that out. -/
theorem reindex_trigger_lost_by_clear :
    ∃ s s', Reachable false s ∧ Step false s (.worker .log) s' ∧
      (∃ m, s.logBody = .reindex m .clear) ∧ s.ghost.storedSinceGuard = true ∧
      s.nextReindex ≠ 0 ∧ s'.nextReindex = 0 := by
  have h0 : Reachable false (Db.init (Setup.oneColumn 1 0)) := .init _
  have h1 := (h0.step (Step.guardLoad rfl rfl (by decide))).step (Step.guardPass rfl rfl (by decide))
  have h2 := (h1.step (Step.scanRecord (some 0) false 10 false rfl rfl)).step
    (Step.reindexSignal rfl rfl)
  -- the second pass: record 3, in a new file
  have h3 := h2.step (Step.loopRun (w := .log) rfl rfl)
  have h4 := h3.step (Step.lqCheckPass rfl rfl (by decide))
  have h5 := h4.step (Step.popNone rfl rfl rfl rfl)
  have h6 := (h5.step (Step.guardLoad rfl rfl (by decide))).step (Step.guardPass rfl rfl (by decide))
  have h7 := (h6.step (Step.scanRecord none false 10 true rfl rfl)).step
    (Step.reindexSignal rfl rfl)
  -- the third pass loads `next_reindex` and finds nothing to do
  have h8 := h7.step (Step.loopRun (w := .log) rfl rfl)
  have h9 := h8.step (Step.lqCheckPass rfl rfl (by decide))
  have h10 := h9.step (Step.popNone rfl rfl rfl rfl)
  have h11 := (h10.step (Step.guardLoad rfl rfl (by decide))).step
    (Step.guardPass rfl rfl (by decide))
  have h12 := h11.step (Step.scanEmpty rfl rfl)
  -- record 2 is flushed and enacted: `start_reindex(2)`
  have h13 := h12.step (Step.loopWait (w := .flush) rfl rfl)
  have h14 := h13.step (Step.wake (w := .flush) rfl rfl)
  have h15 := ((h14.step (Step.flush rfl rfl)).step (Step.flushSignalCommit rfl rfl)).step
    (Step.flushSignalCleanup rfl rfl)
  have h16 := h15.step (Step.loopWait (w := .commit) rfl rfl)
  have h17 := h16.step (Step.wake (w := .commit) rfl rfl)
  have h18 := h17.step (Step.enactRecord rfl rfl rfl)
  exact ⟨_, _, h18, Step.clear rfl rfl, ⟨_, rfl⟩, rfl, by decide, rfl⟩

end AxiaDb

import AxiaDb.KillLogs

/-!
# `commit_queue_full_cv`

`commit_raw` tests `queue.bytes > MAX_COMMIT_QUEUE_BYTES` once, under the queue lock, and then
waits on `commit_queue_full_cv`. When the wait returns it looks at `bg_err` and pushes without
testing the size again. The pop of `process_commits` calls `notify_one` when it takes the queue
from over the bound to at most it; `store_err` calls `notify_one` after every background error.

* `commit_queue_over_bound_only_by_waited`: in every reachable state the queue holds at most
  `MAX_COMMIT_QUEUE_BYTES`, plus the bytes of the queued commits pushed after a wait, plus those
  of the newest queued commit pushed without one. A producer that did not wait pushes only
  at most at the bound (`CommitQueue.BoundOk.pushFresh`).
* `commit_raw_pushes_over_bound`: the `if` of `commit_raw` is not a `while`. A producer woken
  by the pop loses the queue lock to a newcomer that fills the queue again, and then pushes
  over the bound by more than its own commit.
* `single_producer_waits_only_over_bound`: a pop that crosses the bound wakes a waiting
  producer, so while only one producer waits, it waits over the bound (`Db.FullWaitOk.step`).
* `commit_queue_bytes_exact`: `queue.bytes` is the sum of the queued commits' bytes, each the
  bytes of its changeset, so the pop of `process_commits` never subtracts more than it holds
  (`Step.queue_cases`, `CommitQueue.BytesOk`).
* `producer_left_asleep_on_full_queue`: with two producers waiting, the pop wakes one and
  leaves the other asleep under the bound. And `commit_raw` waits before it looks at `bg_err`:
  a producer that comes after the error and its one `notify_one` sleeps for good.
-/

namespace AxiaDb

/-! ## Over the bound only after a wait -/

/-- The bytes of the commits of `cms` whose ids are in `waited`: those pushed after a wait. -/
def waitedBytes (waited : List Nat) (cms : List Commit) : Nat :=
  ((cms.filter fun c => c.id ∈ waited).map Commit.bytes).sum

/-- The bytes of the newest commit of `cms` pushed without a wait. -/
def lastFreshBytes (waited : List Nat) (cms : List Commit) : Nat :=
  ((cms.filter fun c => c.id ∉ waited).getLast?.map Commit.bytes).getD 0

/-- What the size test of `commit_raw` keeps of the queue, given the ids of the commits pushed
after a wait. -/
structure CommitQueue.BoundOk (q : CommitQueue) (waited : List Nat) : Prop where
  /-- The queued commits have ids already handed out. -/
  queued : ∀ c ∈ q.commits, c.id ≤ q.recordId + 1
  /-- So have the commits pushed after a wait. -/
  noted : ∀ n ∈ waited, n ≤ q.recordId + 1
  bound : q.bytes ≤ maxCommitQueueBytes + waitedBytes waited q.commits +
    lastFreshBytes waited q.commits

/-- The queue after `commit_raw` pushes `cm`, the commit with the next id. -/
def CommitQueue.pushed (q : CommitQueue) (cm : Commit) : CommitQueue :=
  ⟨q.recordId + 1, q.bytes + cm.bytes, q.commits ++ [cm]⟩

theorem waitedBytes_append_fresh (waited : List Nat) (cms : List Commit) {cm : Commit}
    (h : cm.id ∉ waited) : waitedBytes waited (cms ++ [cm]) = waitedBytes waited cms := by
  simp [waitedBytes, List.filter_append, h]

theorem lastFreshBytes_append_fresh (waited : List Nat) (cms : List Commit) {cm : Commit}
    (h : cm.id ∉ waited) : lastFreshBytes waited (cms ++ [cm]) = cm.bytes := by
  simp [lastFreshBytes, List.filter_append, h]

/-- Noting a new id changes nothing for the commits with older ids. -/
theorem filter_mem_append_new (waited : List Nat) {cms : List Commit} {n : Nat}
    (h : ∀ c ∈ cms, c.id < n) (p : Bool → Bool) :
    cms.filter (fun c => p (decide (c.id ∈ waited ++ [n]))) =
      cms.filter (fun c => p (decide (c.id ∈ waited))) := by
  refine List.filter_congr fun c hc => ?_
  have : c.id ≠ n := Nat.ne_of_lt (h c hc)
  simp [this]

theorem waitedBytes_append_waited (waited : List Nat) {cms : List Commit} {cm : Commit}
    (h : ∀ c ∈ cms, c.id < cm.id) :
    waitedBytes (waited ++ [cm.id]) (cms ++ [cm]) = waitedBytes waited cms + cm.bytes := by
  have := filter_mem_append_new waited h id
  simp only [id] at this
  simp only [waitedBytes, List.filter_append, this]
  simp [List.sum_append]

theorem lastFreshBytes_append_waited (waited : List Nat) {cms : List Commit} {cm : Commit}
    (h : ∀ c ∈ cms, c.id < cm.id) :
    lastFreshBytes (waited ++ [cm.id]) (cms ++ [cm]) = lastFreshBytes waited cms := by
  have := filter_mem_append_new waited h not
  simp only [decide_not] at this
  simp only [lastFreshBytes, decide_not, List.filter_append, this]
  simp

/-- The pop takes the head's bytes off at most what the bound allows for it. -/
theorem bytes_le_pop (waited : List Nat) (c : Commit) (rest : List Commit) :
    waitedBytes waited (c :: rest) + lastFreshBytes waited (c :: rest) ≤
      c.bytes + waitedBytes waited rest + lastFreshBytes waited rest := by
  by_cases hc : c.id ∈ waited
  · simp [waitedBytes, lastFreshBytes, List.filter_cons, hc]
  · have hw : waitedBytes waited (c :: rest) = waitedBytes waited rest := by
      simp [waitedBytes, List.filter_cons, hc]
    rw [hw, lastFreshBytes, lastFreshBytes, List.filter_cons_of_pos (by simpa using hc),
      List.getLast?_cons]
    cases (rest.filter fun c => c.id ∉ waited).getLast? <;> simp [Nat.add_comm]

namespace CommitQueue.BoundOk

variable {q : CommitQueue} {waited : List Nat}

theorem id_lt (h : q.BoundOk waited) : ∀ c ∈ q.commits, c.id < q.recordId + 2 :=
  fun c hc => Nat.lt_succ_of_le (h.queued c hc)

/-- **A producer that did not wait** pushes at most at the bound: its commit may take the
queue over by its own bytes. -/
theorem pushFresh (h : q.BoundOk waited) (hb : q.bytes ≤ maxCommitQueueBytes) {cm : Commit}
    (hid : cm.id = q.recordId + 2) : (q.pushed cm).BoundOk waited where
  queued c hc := by
    rcases List.mem_append.1 hc with hc | hc
    · exact Nat.le_succ_of_le (h.queued c hc)
    · simp [List.mem_singleton.1 hc, hid, CommitQueue.pushed]
  noted n hn := Nat.le_succ_of_le (h.noted n hn)
  bound := by
    have hnew : cm.id ∉ waited := fun hm => by have := h.noted _ hm; omega
    simp only [CommitQueue.pushed, waitedBytes_append_fresh _ _ hnew,
      lastFreshBytes_append_fresh _ _ hnew]
    omega

/-- **A producer that waited** pushes whatever the queue holds: its commit counts with the
commits pushed after a wait. -/
theorem pushWaited (h : q.BoundOk waited) {cm : Commit} (hid : cm.id = q.recordId + 2) :
    (q.pushed cm).BoundOk (waited ++ [cm.id]) where
  queued c hc := by
    rcases List.mem_append.1 hc with hc | hc
    · exact Nat.le_succ_of_le (h.queued c hc)
    · simp [List.mem_singleton.1 hc, hid, CommitQueue.pushed]
  noted n hn := by
    rcases List.mem_append.1 hn with hn | hn
    · exact Nat.le_succ_of_le (h.noted n hn)
    · simp [List.mem_singleton.1 hn, hid, CommitQueue.pushed]
  bound := by
    have hlt : ∀ c ∈ q.commits, c.id < cm.id := hid ▸ h.id_lt
    simp only [CommitQueue.pushed, waitedBytes_append_waited _ hlt,
      lastFreshBytes_append_waited _ hlt]
    have := h.bound
    omega

/-- The pop of the head keeps the bound. -/
theorem pop (h : q.BoundOk waited) {c : Commit} {rest : List Commit}
    (hc : q.commits = c :: rest) :
    ({ q with bytes := q.bytes - c.bytes, commits := rest } : CommitQueue).BoundOk waited where
  queued c' hc' := h.queued c' (by simp [hc, hc'])
  noted := h.noted
  bound := by
    have := h.bound
    have := bytes_le_pop waited c rest
    rw [hc] at *
    dsimp only
    omega

end CommitQueue.BoundOk

/-! ## Two runs

Both runs commit a changeset `Change.zeroKey v` over the bound. They are stated for any such
`v`, so that no proof step has to compute the size of a concrete value. -/

/-- Three clients, the log worker asleep. Client `0` commits; clients `1` and `2` find the
queue over the bound and wait. The log worker pops the commit: the queue crosses back to the
bound and `notify_one` wakes client `1` only, which leaves client `2` asleep under the bound.
Client `0` commits again before client `1` takes the queue lock back, and client `1` then
pushes without testing the size. -/
theorem Reachable.exists_notify_one_race (v : Value)
    (hv : maxCommitQueueBytes < changesetBytes (Change.zeroKey v)) :
    (∃ s, Reachable false s ∧ s.clients[2]? = some (.waitFull (Change.zeroKey v)) ∧
      s.queue.bytes ≤ maxCommitQueueBytes) ∧
    ∃ s s' c, Reachable false s ∧ Step false s (.client 1) s' ∧
      s'.queue.commits = s.queue.commits ++ [c] ∧ maxCommitQueueBytes < s.queue.bytes ∧
      maxCommitQueueBytes + c.bytes < s'.queue.bytes := by
  have hcs := Change.zeroKey_validCol v 0 3
  have h0 : Reachable false (Db.init (Setup.oneColumn 0 3)) := .init _
  have h1 := (h0.step (Step.guardLoad rfl rfl (by decide))).step (Step.guardSkip rfl rfl (by decide))
  have h2 := h1.step (Step.loopWait (w := .log) rfl rfl)
  -- client `0` fills the queue; clients `1` and `2` wait
  have h3 := h2.step (@Step.commitPush _ _ 0 none _ rfl rfl hcs rfl (by decide) rfl rfl)
  have h4 := h3.step (@Step.signalLog _ _ 0 rfl)
  have h5 := h4.step (@Step.commitWait _ _ 1 none _ rfl rfl hcs rfl
    (by show _ < 0 + _; dsimp only; omega))
  have h6 := h5.step (@Step.commitWait _ _ 2 none _ rfl rfl hcs rfl
    (by show _ < 0 + _; dsimp only; omega))
  -- the log worker pops it: `notify_one` wakes client `1`
  have h7 := h6.step (Step.wake (w := .log) rfl rfl)
  have h8 := h7.step (Step.lqCheckPass rfl rfl (.inr (by show (0 : Int) ≤ _; decide)))
  have h9 := h8.step (@Step.popSome _ _ _ _ (some 1) rfl rfl rfl rfl
    (PopWakeOk.some
      (by show crossesBound (0 + _ - _) _; unfold crossesBound; dsimp only; omega) rfl))
  refine ⟨⟨_, h9, rfl, by show 0 + _ - _ ≤ _; dsimp only; omega⟩, ?_⟩
  -- client `0` commits again, then client `1` pushes
  have h10 := h9.step (@Step.commitPush _ _ 0 _ _ rfl rfl hcs rfl
    (by show 0 + _ - _ ≤ _; dsimp only; omega) rfl rfl)
  have h11 := h10.step (@Step.signalLog _ _ 0 rfl)
  exact ⟨_, _, _, h11, @Step.retryPush _ _ 1 _ rfl rfl rfl rfl, rfl,
    by show _ < 0 + _ - _ + _; dsimp only; omega,
    by show _ + _ < 0 + _ - _ + _ + _; dsimp only; omega⟩

/-- One client. It commits a changeset over the bound. The log worker's first
`process_reindex` fails in `Column::reindex` before anything is popped, and `store_err` stores
the error, shuts down and notifies nobody. The other workers leave their loops. The client
commits again: `commit_raw` finds the queue over the bound and waits, before it looks at
`bg_err`. -/
theorem Reachable.exists_wait_after_error (v : Value)
    (hv : maxCommitQueueBytes < changesetBytes (Change.zeroKey v)) :
    ∃ s, Reachable true s ∧ s.setup.clients = 1 ∧
      s.clients[0]? = some (.waitFull (Change.zeroKey v)) ∧ s.bgErr ≠ none ∧
      (∀ w, s.workers w = .exited) ∧ s.drop = .live := by
  have hcs := Change.zeroKey_validCol v 1 1
  have h0 : Reachable true (Db.init (Setup.oneColumn 1 1)) := .init _
  have h1 := h0.step (@Step.commitPush _ _ 0 none _ rfl rfl hcs rfl (by decide) rfl rfl)
  have h2 := h1.step (@Step.signalLog _ _ 0 rfl)
  -- the log worker fails in its first `process_reindex`
  have h3 := (h2.step (Step.guardLoad rfl rfl Nat.one_ne_zero)).step
    (Step.guardPass rfl rfl (Nat.le_refl 1))
  have h4 := h3.step (Step.scanFail .io false rfl rfl rfl)
  have h5 := h4.step (@Step.storeErr _ _ .log .io none rfl
    (by show ∀ p ∈ [ClientPc.idle (some .committed)], p.isWaitFull = false; decide))
  -- the other workers leave their loops
  have h6 := h5.step (Step.loopExit (w := .flush) rfl rfl)
  have h7 := h6.step (Step.loopExit (w := .commit) rfl rfl)
  have h8 := h7.step (Step.loopRun (w := .cleanup) rfl rfl)
  have h9 := h8.step (Step.cleanupRun false rfl)
  have h10 := h9.step (Step.loopExit (w := .cleanup) rfl rfl)
  -- the client commits again and waits
  have h11 := h10.step (@Step.commitWait _ _ 0 _ _ rfl rfl hcs rfl (by show _ < 0 + _; dsimp only; omega))
  exact ⟨_, h11, rfl, rfl, by show some Error.io ≠ none; exact Option.some_ne_none _,
    fun w => by cases w <;> rfl, rfl⟩

/-! ## Every section keeps the bound -/

variable {failing : Bool} {s s' : Db} {t : Thread}

/-- The queue's bound, with the ids of the commits pushed after a wait. -/
def Db.QueueBoundOk (s : Db) : Prop := s.queue.BoundOk s.ghost.waited

/-- `kill_logs` changes the queue only by its pop. -/
@[simp] theorem Db.processCommit_queue (s : Db) (c : Commit) (rest : List Commit) (x : Bool)
    (b : Nat) (f : Bool) :
    (s.processCommit c rest x b f).queue = (s.popCommit c rest none).queue := by
  unfold Db.processCommit; split <;> rfl

@[simp] theorem Db.processCommit_ghost_waited (s : Db) (c : Commit) (rest : List Commit)
    (x : Bool) (b : Nat) (f : Bool) :
    (s.processCommit c rest x b f).ghost.waited = s.ghost.waited := by
  unfold Db.processCommit; split <;> rfl

@[simp] theorem Db.storeErr_queue (s : Db) (e : Error) (w : Option Nat) :
    (s.storeErr e w).queue = s.queue := by
  unfold Db.storeErr; split <;> rfl

@[simp] theorem Db.reindexRecord_ghost_waited (s : Db) (d : Option ColId) (n : Bool) (b : Nat)
    (f : Bool) : (s.reindexRecord d n b f).ghost.waited = s.ghost.waited := by
  unfold Db.reindexRecord; split <;> rfl

@[simp] theorem Db.enactRecord_ghost_waited (s : Db) (r : LogRecord) (l : Log) :
    (s.enactRecord r l).ghost.waited = s.ghost.waited := by
  unfold Db.enactRecord; split <;> rfl

/-- The bound reads only the queue and the ids of the commits pushed after a wait. -/
theorem Db.QueueBoundOk.of_eq (hi : s.QueueBoundOk) (hq : s'.queue = s.queue)
    (hw : s'.ghost.waited = s.ghost.waited) : s'.QueueBoundOk := by
  unfold Db.QueueBoundOk; rw [hq, hw]; exact hi

/-- **Step lemma for `QueueBoundOk`.** -/
theorem Db.QueueBoundOk.step (hi : s.QueueBoundOk) (h : Step failing s t s') :
    s'.QueueBoundOk := by
  cases h with
  | commitPush _ _ _ _ hnf => exact CommitQueue.BoundOk.pushFresh hi hnf rfl
  | retryPush => exact CommitQueue.BoundOk.pushWaited hi rfl
  | popSome _ _ _ hc => exact CommitQueue.BoundOk.pop hi hc
  | killCommitFail _ _ _ hc => exact CommitQueue.BoundOk.pop hi hc
  | killCommitSome _ _ _ _ hc =>
    unfold Db.QueueBoundOk
    rw [Db.processCommit_queue, Db.processCommit_ghost_waited]
    exact CommitQueue.BoundOk.pop hi hc
  | storeErr => exact hi.of_eq (by simp [Db.setWorker]) (by simp [Db.setWorker])
  | scanRecord => exact hi.of_eq (Db.reindexRecord_queue ..) (Db.reindexRecord_ghost_waited ..)
  | enactRecord => exact hi.of_eq (by simp) (by simp)
  | killEnactSome => exact hi.of_eq (by simp [Db.debitLog]) (by simp [Db.debitLog])
  | _ => first | exact hi | (split <;> exact hi)

/-- **Run lemma for `QueueBoundOk`.** -/
theorem Reachable.queueBoundOk (hr : Reachable failing s) : s.QueueBoundOk := by
  induction hr with
  | init σ => exact ⟨nofun, nofun, Nat.zero_le _⟩
  | step _ hs ih => exact ih.step hs

/-- **Over the bound only after a wait.** In every reachable state, failures included, the
queue holds at most `MAX_COMMIT_QUEUE_BYTES`, plus the commits pushed after a wait, plus the
newest commit pushed without one. -/
theorem commit_queue_over_bound_only_by_waited (hr : Reachable failing s) :
    s.queue.bytes ≤ maxCommitQueueBytes + waitedBytes s.ghost.waited s.queue.commits +
      lastFreshBytes s.ghost.waited s.queue.commits :=
  CommitQueue.BoundOk.bound hr.queueBoundOk

/-- In the run of `exists_notify_one_race`, after client `1` pushed: the queue is over the
bound by more than its newest commit, and within what the commits pushed after a wait allow. -/
theorem commit_queue_over_bound_only_by_waited_after_retry :
    ∃ s, Reachable false s ∧
      maxCommitQueueBytes + (s.queue.commits.getLast?.map Commit.bytes).getD 0 < s.queue.bytes ∧
      s.queue.bytes ≤ maxCommitQueueBytes + waitedBytes s.ghost.waited s.queue.commits +
        lastFreshBytes s.ghost.waited s.queue.commits := by
  obtain ⟨-, s, s', c, hr, h, hq, -, hb⟩ :=
    Reachable.exists_notify_one_race _ changesetBytes_zeros_over_bound
  exact ⟨s', hr.step h, by simpa [hq] using hb, commit_queue_over_bound_only_by_waited (hr.step h)⟩

/-- **`commit_raw` pushes over the bound.** A producer woken from `commit_queue_full_cv`
pushes into a queue over the bound, which then exceeds it by more than the commit pushed
last. -/
theorem commit_raw_pushes_over_bound :
    ∃ s s' i c, Reachable false s ∧ Step false s (.client i) s' ∧
      s'.queue.commits = s.queue.commits ++ [c] ∧ maxCommitQueueBytes < s.queue.bytes ∧
      maxCommitQueueBytes + c.bytes < s'.queue.bytes := by
  obtain ⟨-, s, s', c, h⟩ := Reachable.exists_notify_one_race _ changesetBytes_zeros_over_bound
  exact ⟨s, s', 1, c, h⟩

/-! ## Byte accounting -/

/-- What `commit_raw` and the pops keep of `queue.bytes`: it is the sum of the queued commits'
bytes, and each commit's bytes are what `commit_raw` summed over its changeset. -/
structure CommitQueue.BytesOk (q : CommitQueue) : Prop where
  sum : q.bytes = (q.commits.map Commit.bytes).sum
  sized : ∀ c ∈ q.commits, c.bytes = changesetBytes c.changeset

namespace CommitQueue.BytesOk

variable {q : CommitQueue}

theorem push (h : q.BytesOk) (id : Nat) (cs : List Change) :
    (q.pushed ⟨id, changesetBytes cs, cs⟩).BytesOk where
  sum := by simp [CommitQueue.pushed, h.sum]
  sized c hc := by
    rcases List.mem_append.1 hc with hc | hc
    · exact h.sized c hc
    · rw [List.mem_singleton.1 hc]

/-- The head's bytes are part of the sum, so the pop's subtraction does not underflow. -/
theorem head_le (h : q.BytesOk) {c : Commit} {rest : List Commit}
    (hc : q.commits = c :: rest) : c.bytes ≤ q.bytes := by
  rw [h.sum, hc, List.map_cons, List.sum_cons]
  exact Nat.le_add_right _ _

theorem pop (h : q.BytesOk) {c : Commit} {rest : List Commit} (hc : q.commits = c :: rest) :
    ({ q with bytes := q.bytes - c.bytes, commits := rest } : CommitQueue).BytesOk where
  sum := by
    have := h.sum
    rw [hc, List.map_cons, List.sum_cons] at this
    dsimp only
    omega
  sized c' hc' := h.sized c' (hc ▸ List.mem_cons_of_mem c hc')

end CommitQueue.BytesOk

/-- What one section does to the commit queue: nothing, a push of the commit with the next id,
or a pop of the head. -/
theorem Step.queue_cases (h : Step failing s t s') :
    s'.queue = s.queue ∨
      (∃ cs, s'.queue = s.queue.pushed ⟨s.queue.recordId + 2, changesetBytes cs, cs⟩) ∨
      ∃ c rest, s.queue.commits = c :: rest ∧
        s'.queue = { s.queue with bytes := s.queue.bytes - c.bytes, commits := rest } := by
  cases h with
  | commitPush | retryPush => exact .inr (.inl ⟨_, rfl⟩)
  | popSome _ _ _ hc | killCommitFail _ _ _ hc => exact .inr (.inr ⟨_, _, hc, rfl⟩)
  | killCommitSome _ _ _ _ hc => exact .inr (.inr ⟨_, _, hc, Db.processCommit_queue ..⟩)
  | storeErr => exact .inl (by simp [Db.setWorker])
  | scanRecord => exact .inl (Db.reindexRecord_queue ..)
  | enactRecord => exact .inl (by simp)
  | killEnactSome => exact .inl (by simp [Db.debitLog])
  | _ => first | exact .inl rfl | (split <;> exact .inl rfl)

/-- **Step lemma for `BytesOk`.** -/
theorem CommitQueue.BytesOk.step (hi : s.queue.BytesOk) (h : Step failing s t s') :
    s'.queue.BytesOk := by
  rcases h.queue_cases with hq | ⟨cs, hq⟩ | ⟨c, rest, hc, hq⟩ <;> rw [hq]
  · exact hi
  · exact hi.push _ cs
  · exact hi.pop hc

/-- **Run lemma for `BytesOk`.** -/
theorem Reachable.queueBytesOk (hr : Reachable failing s) : s.queue.BytesOk := by
  induction hr with
  | init σ => exact ⟨rfl, nofun⟩
  | step _ hs ih => exact ih.step hs

/-- **Commit-queue byte accounting.** In every reachable state, failures included,
`queue.bytes` is the sum of the queued commits' bytes, and each commit's bytes are the key and
value lengths of its changeset. So the head's bytes are at most `queue.bytes`, and the sum the
pop's crossing test forms after the subtraction is the `queue.bytes` the queue held before. -/
theorem commit_queue_bytes_exact (hr : Reachable failing s) :
    s.queue.bytes = (s.queue.commits.map Commit.bytes).sum ∧
      (∀ c ∈ s.queue.commits, c.bytes = changesetBytes c.changeset) ∧
      ∀ c rest, s.queue.commits = c :: rest →
        c.bytes ≤ s.queue.bytes ∧ s.queue.bytes - c.bytes + c.bytes = s.queue.bytes := by
  have h := hr.queueBytesOk
  exact ⟨h.sum, h.sized, fun c rest hc => ⟨h.head_le hc, Nat.sub_add_cancel (h.head_le hc)⟩⟩

/-- The accounting in the state after one commit of `[1]`, whose commit is still queued. -/
theorem commit_queue_bytes_exact_after_commit :
    Db.committedOne.queue.bytes = (Db.committedOne.queue.commits.map Commit.bytes).sum ∧
      (∀ c ∈ Db.committedOne.queue.commits, c.bytes = changesetBytes c.changeset) ∧
      ∀ c rest, Db.committedOne.queue.commits = c :: rest →
        c.bytes ≤ Db.committedOne.queue.bytes ∧
          Db.committedOne.queue.bytes - c.bytes + c.bytes = Db.committedOne.queue.bytes :=
  commit_queue_bytes_exact Reachable.committedOne

/-! ## Producers asleep on `commit_queue_full_cv` -/

/-- Every producer asleep on `commit_queue_full_cv` sees the queue over the bound. -/
def Db.FullWaitOk (s : Db) : Prop :=
  ∀ (i : Nat) (cs : List Change), s.clients[i]? = some (.waitFull cs) →
    maxCommitQueueBytes < s.queue.bytes

/-- At most one producer is asleep on `commit_queue_full_cv`. -/
def Db.OneWaiter (s : Db) : Prop :=
  ∀ (i j : Nat) (cs cs' : List Change), s.clients[i]? = some (.waitFull cs) →
    s.clients[j]? = some (.waitFull cs') → i = j

@[simp] theorem notifyOne_length (cl : List ClientPc) (w : Option Nat) :
    (notifyOne cl w).length = cl.length := by
  unfold notifyOne; split <;> (try split) <;> simp

/-- No section adds or removes a client. -/
theorem Step.clients_length (h : Step failing s t s') : s'.clients.length = s.clients.length := by
  cases h <;> first | rfl | (split <;> rfl) |
    simp [Db.setClient, Db.setWorker, Db.popCommit, Db.finishReindex, Db.debitLog,
      Db.pushCommit, Db.noteWaited, Db.signal]

theorem Reachable.clients_length (hr : Reachable failing s) :
    s.clients.length = s.setup.clients := by
  induction hr with
  | init σ => simp [Db.init]
  | step _ hs ih => rw [hs.clients_length, hs.setup_eq, ih]

theorem Db.oneWaiter_of_length (h : s.clients.length ≤ 1) : s.OneWaiter := by
  unfold Db.OneWaiter
  intro i j cs cs' hi hj
  have := (List.getElem?_eq_some_iff.1 hi).1
  have := (List.getElem?_eq_some_iff.1 hj).1
  omega

/-- A producer asleep after a step was asleep before it, or the step is its own wait, which
it takes over the bound. -/
theorem Step.waitFull_cases {i : Nat} {cs : List Change} (h : Step failing s t s')
    (hw : s'.clients[i]? = some (.waitFull cs)) :
    s.clients[i]? = some (.waitFull cs) ∨
      maxCommitQueueBytes < s.queue.bytes ∧ s'.queue = s.queue := by
  by_cases ht : t = .client i
  · subst ht
    cases h with
    | commitWait _ _ _ _ hfull => exact .inr ⟨hfull, rfl⟩
    | _ => simp_all [Db.setClient, Db.pushCommit, Db.noteWaited, Db.signal,
      List.getElem?_set_self']
  · rcases h.client_frame ht with h' | ⟨cs', _, h'⟩
    · exact .inl (h' ▸ hw)
    · simp [hw] at h'

/-- **Step lemma for `FullWaitOk`**, while at most one producer waits: a pop that crosses the
bound must wake the one producer asleep, and a pop that does not cross it leaves the queue
over it. -/
theorem Db.FullWaitOk.step (hr : Reachable failing s) (hi : s.FullWaitOk) (h1 : s.OneWaiter)
    (h : Step failing s t s') : s'.FullWaitOk := by
  intro i cs hw'
  rcases h.waitFull_cases hw' with hw | ⟨hb, hq⟩
  · have hb := hi i cs hw
    cases h with
    | @popSome c rest wake _ _ _ _ hn =>
      show maxCommitQueueBytes < s.queue.bytes - c.bytes
      by_cases hx : crossesBound (s.queue.bytes - c.bytes) c.bytes
      · -- the `notify_one` wakes the one producer asleep: client `i`
        exfalso
        cases wake with
        | none =>
          simpa [ClientPc.isWaitFull] using hn.1 hx _ (List.mem_iff_getElem?.2 ⟨i, hw⟩)
        | some j =>
          obtain ⟨cs', hj⟩ := hn.1 hx
          obtain rfl := h1 i j cs cs' hw hj
          simp [Db.popCommit, notifyOne, hw, ClientPc.wake, List.getElem?_set_self'] at hw'
      · simp only [crossesBound] at hx; omega
    | killCommitSome _ _ _ hd | killCommitFail _ _ hd =>
      simpa [ClientPc.isIdle] using hr.clients_idle (by simp [hd]) i _ hw
    | storeErr => simpa [Db.setWorker] using hb
    | scanRecord => simpa [Db.finishReindex, Db.setWorker] using hb
    | enactRecord => simpa using hb
    | killEnactSome => simpa [Db.debitLog] using hb
    | _ => first | exact hb | (split <;> exact hb) | exact Nat.lt_of_lt_of_le hb (Nat.le_add_right _ _)
  · rw [hq]; exact hb

/-- **Run lemma for `FullWaitOk`** with one client. -/
theorem Reachable.fullWaitOk_of_single (hr : Reachable failing s) (h1 : s.setup.clients ≤ 1) :
    s.FullWaitOk := by
  induction hr with
  | init σ =>
    intro i cs hw
    simp [Db.init, List.getElem?_replicate] at hw
  | step hr hs ih =>
    rw [hs.setup_eq] at h1
    exact (ih h1).step hr (Db.oneWaiter_of_length (hr.clients_length ▸ h1)) hs

/-- **One producer is never left asleep under the bound.** With one client thread, a producer
asleep on `commit_queue_full_cv` sees the queue over the bound. -/
theorem single_producer_waits_only_over_bound (hr : Reachable failing s)
    (h1 : s.setup.clients ≤ 1) {i : Nat} {cs : List Change}
    (hw : s.clients[i]? = some (.waitFull cs)) : maxCommitQueueBytes < s.queue.bytes :=
  hr.fullWaitOk_of_single h1 i cs hw

/-- In the run of `exists_wait_after_error`, the one client asleep sees the queue over the
bound. -/
theorem single_producer_waits_only_over_bound_after_error :
    ∃ s cs, Reachable true s ∧ s.setup.clients ≤ 1 ∧ s.clients[0]? = some (.waitFull cs) ∧
      maxCommitQueueBytes < s.queue.bytes := by
  obtain ⟨s, hr, h1, hw, -⟩ := Reachable.exists_wait_after_error _ changesetBytes_zeros_over_bound
  exact ⟨s, _, hr, h1.le, hw, single_producer_waits_only_over_bound hr h1.le hw⟩

/-! ### Asleep for good -/

/-- Client `i` asleep on `commit_queue_full_cv` after a background error, with nothing left
that could notify it: every worker has exited, so no pop and no `store_err` is to come, and
`Db::drop` cannot start while the client is inside `commit_raw`. -/
structure Db.FullStranded (s : Db) (i : Nat) (cs : List Change) : Prop where
  waiting : s.clients[i]? = some (.waitFull cs)
  error : s.bgErr ≠ none
  exited : ∀ w, s.workers w = .exited
  live : s.drop = .live

/-- **Step lemma for `FullStranded`.** Only the other clients move, and none of them
notifies. -/
theorem Db.FullStranded.step {i : Nat} {cs : List Change} (hs : s.FullStranded i cs)
    (h : Step failing s t s') : s'.FullStranded i cs := by
  have hw := hs.waiting
  rcases t with j | w | _
  · have hj : j ≠ i := by
      rintro rfl
      cases h <;> simp_all
    cases h <;> exact ⟨(List.getElem?_set_ne hj).trans hw, hs.error, hs.exited, hs.live⟩
  · exact absurd (hs.exited w) h.worker_alive.2
  · have hl := hs.live
    cases h with
    | dropStart _ hidle =>
      simpa [ClientPc.isIdle] using List.all_eq_true.1 hidle _ (List.mem_iff_getElem?.2 ⟨i, hw⟩)
    | _ => simp_all

/-- **Run lemma for `FullStranded`.** -/
theorem Db.FullStranded.run {i : Nat} {cs : List Change} (hs : s.FullStranded i cs)
    (h : Relation.ReflTransGen (fun a b => ∃ t, Step failing a t b) s s') :
    s'.FullStranded i cs := by
  induction h with
  | refl => exact hs
  | tail _ hst ih => obtain ⟨t, hst⟩ := hst; exact ih.step hst

/-- **Producers left asleep.** With two producers waiting, the pop that crosses the bound wakes
one and leaves the other asleep under the bound. And a producer that comes after a background
error and its one `notify_one` waits on a full queue that nothing drains, and is never woken. -/
theorem producer_left_asleep_on_full_queue :
    (∃ (s : Db) (i : Nat) (cs : List Change), Reachable false s ∧
      s.clients[i]? = some (.waitFull cs) ∧ s.queue.bytes ≤ maxCommitQueueBytes) ∧
    ∃ (s : Db) (i : Nat) (cs : List Change), Reachable true s ∧
      s.clients[i]? = some (.waitFull cs) ∧ s.bgErr ≠ none ∧
      ∀ s', Relation.ReflTransGen (fun a b => ∃ t, Step true a t b) s s' →
        s'.clients[i]? = some (.waitFull cs) ∧ s'.bgErr ≠ none := by
  obtain ⟨⟨s, hr, hw, hb⟩, -⟩ := Reachable.exists_notify_one_race _ changesetBytes_zeros_over_bound
  obtain ⟨s', hr', -, hw', he, hx, hl⟩ :=
    Reachable.exists_wait_after_error _ changesetBytes_zeros_over_bound
  have hs : s'.FullStranded 0 _ := ⟨hw', he, hx, hl⟩
  exact ⟨⟨s, 2, _, hr, hw, hb⟩, s', 0, _, hr', hw', he,
    fun _ h => ⟨(hs.run h).waiting, (hs.run h).error⟩⟩

end AxiaDb

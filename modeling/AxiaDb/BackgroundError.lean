import AxiaDb.CommitQueue

/-!
# `bg_err`

`store_err` is the one writer of `bg_err`: a worker whose body returned `Err(e)` stores `e`
only while the slot is empty. `commit_raw` reads the slot under the queue lock, before it
advances `queue.record_id` or touches the queue or the overlay.

* `Step.bgErr_cases`: a section leaves `bg_err` alone, or is the `store_err` of a failed
  worker, which keeps the error already stored (`Db.storeErr_bgErr`).
* `Step.client_after_error`: once the error is stored, no client section changes the queue or
  the overlay, and a `commit` that returns then returns `Err(Background(e))`, unless it had
  queued its commit before.
* `first_background_error_wins` assembles these over every run.
-/

namespace AxiaDb

variable {failing : Bool} {s s' : Db} {t : Thread}

/-! ## The one writer -/

/-- `store_err` keeps the first error. -/
@[simp] theorem Db.storeErr_bgErr (s : Db) (e : Error) (w : Option Nat) :
    (s.storeErr e w).bgErr = s.bgErr.or (some e) := by
  cases h : s.bgErr <;> simp [Db.storeErr, h]

@[simp] theorem Db.reindexRecord_bgErr (s : Db) (d : Option ColId) (n : Bool) (b : Nat)
    (f : Bool) : (s.reindexRecord d n b f).bgErr = s.bgErr := by
  unfold Db.reindexRecord; split <;> rfl

@[simp] theorem Db.enactRecord_bgErr (s : Db) (r : LogRecord) (l : Log) :
    (s.enactRecord r l).bgErr = s.bgErr := by
  unfold Db.enactRecord; split <;> rfl

@[simp] theorem Db.processCommit_bgErr (s : Db) (c : Commit) (rest : List Commit) (x : Bool)
    (b : Nat) (f : Bool) : (s.processCommit c rest x b f).bgErr = s.bgErr := by
  unfold Db.processCommit; split <;> rfl

/-- What one section does to `bg_err`: nothing, or the `store_err` of a failed worker. -/
theorem Step.bgErr_cases (h : Step failing s t s') :
    s'.bgErr = s.bgErr ∨
      ∃ w e, t = .worker w ∧ s.workers w = .failed e ∧ s'.bgErr = s.bgErr.or (some e) := by
  cases h with
  | storeErr hw => exact .inr ⟨_, _, rfl, hw, by simp [Db.setWorker]⟩
  | scanRecord => exact .inl (by simp)
  | enactRecord => exact .inl (by simp)
  | killEnactSome => exact .inl (by simp [Db.debitLog])
  | killCommitSome => exact .inl (by simp)
  | _ => first | exact .inl rfl | (split <;> exact .inl rfl)

/-- A stored error stays. -/
theorem Step.bgErr_of_some {e : Error} (h : Step failing s t s') (he : s.bgErr = some e) :
    s'.bgErr = some e := by
  rcases h.bgErr_cases with h' | ⟨_, _, _, _, h'⟩ <;> simp [h', he]

/-- **Run lemma**: no continuation replaces a stored error. -/
theorem Db.bgErr_run {e : Error}
    (h : Relation.ReflTransGen (fun a b => ∃ t, Step failing a t b) s s')
    (he : s.bgErr = some e) : s'.bgErr = some e := by
  induction h with
  | refl => exact he
  | tail _ hst ih => obtain ⟨t, hst⟩ := hst; exact hst.bgErr_of_some ih

/-- The one section of a failed worker is its `store_err`, which fills an empty slot with its
error. -/
theorem Step.bgErr_of_failed {w : Worker} {e : Error} (h : Step failing s (.worker w) s')
    (hw : s.workers w = .failed e) (hn : s.bgErr = none) : s'.bgErr = some e := by
  cases h with
  | storeErr hw' =>
    rw [hw] at hw'
    cases hw'
    simp [Db.setWorker, hn]
  | _ => simp_all

/-! ## `commit_raw` after the error -/

/-- **A client section after the error** leaves the queue and the overlay as they were. A call
it ends returns what `get` or `get_size` read, `Ok` for a commit queued before the error, or
`Err(Background(e))`: the `commit_raw` that finds the error returns it before touching
anything. -/
theorem Step.client_after_error {i : Nat} {e : Error} (h : Step failing s (.client i) s')
    (he : s.bgErr = some e) :
    s'.queue = s.queue ∧ s'.overlay = s.overlay ∧
      ∀ r, s'.clients[i]? = some (.idle (some r)) →
        ((∃ c k v, r = .got c k v) ∨ ∃ c k n, r = .gotSize c k n) ∨
          (s.clients[i]? = some .pushed ∧ r = .committed) ∨ r = .failed (.background e) := by
  cases h with
  | commitPush _ _ _ _ _ he' | retryPush _ _ he' => simp [he] at he'
  | commitErr hi _ _ _ _ he' | retryErr hi _ he' =>
    rw [he] at he'
    cases he'
    refine ⟨rfl, rfl, fun r hr => .inr (.inr ?_)⟩
    rw [Db.setClient_getElem?_self hi] at hr
    cases hr
    rfl
  | signalLog hi =>
    refine ⟨rfl, rfl, fun r hr => .inr (.inl ⟨hi, ?_⟩)⟩
    rw [Db.setClient_getElem?_self (s := s.signal .log) hi] at hr
    cases hr
    rfl
  | getHit hi | columnGet hi =>
    refine ⟨rfl, rfl, fun r hr => .inl (.inl ?_)⟩
    rw [Db.setClient_getElem?_self hi] at hr
    cases hr
    exact ⟨_, _, _, rfl⟩
  | getSizeHit hi | columnGetSize hi =>
    refine ⟨rfl, rfl, fun r hr => .inl (.inr ?_)⟩
    rw [Db.setClient_getElem?_self hi] at hr
    cases hr
    exact ⟨_, _, _, rfl⟩
  | commitWait hi | getMiss hi | getSizeMiss hi =>
    refine ⟨rfl, rfl, fun r hr => ?_⟩
    rw [Db.setClient_getElem?_self hi] at hr
    cases hr

/-- **First background error wins, and failed commits leave no trace.** A section changes
`bg_err` only from `None`, to the error of the failed worker's `store_err`; the first such
`store_err` stores its error, and no continuation replaces it. After it, no client section
changes `queue.record_id`, `queue.bytes`, `queue.commits` or the overlay, and a `commit` that
had not queued its commit returns `Err(Background(e))`; a `get` or `get_size` returns what it
read. -/
theorem first_background_error_wins :
    (∀ (s s' : Db) (t : Thread), Step failing s t s' → s'.bgErr ≠ s.bgErr →
      s.bgErr = none ∧ ∃ w e, t = .worker w ∧ s.workers w = .failed e ∧ s'.bgErr = some e) ∧
    (∀ (s s' : Db) (w : Worker) (e : Error), Step failing s (.worker w) s' →
      s.workers w = .failed e → s.bgErr = none → s'.bgErr = some e) ∧
    (∀ (s s' : Db) (e : Error), Relation.ReflTransGen (fun a b => ∃ t, Step failing a t b) s s' →
      s.bgErr = some e → s'.bgErr = some e) ∧
    (∀ (s s' : Db) (i : Nat) (e : Error), Step failing s (.client i) s' → s.bgErr = some e →
      s'.queue = s.queue ∧ s'.overlay = s.overlay ∧
        ∀ r, s'.clients[i]? = some (.idle (some r)) →
          ((∃ c k v, r = .got c k v) ∨ ∃ c k n, r = .gotSize c k n) ∨
            (s.clients[i]? = some .pushed ∧ r = .committed) ∨ r = .failed (.background e)) := by
  refine ⟨fun s s' t h hne => ?_, fun _ _ _ _ h hw hn => h.bgErr_of_failed hw hn,
    fun _ _ _ h he => Db.bgErr_run h he, fun _ _ _ _ h he => h.client_after_error he⟩
  rcases h.bgErr_cases with h' | ⟨w, e, rfl, hw, h'⟩
  · exact absurd h' hne
  · cases hs : s.bgErr with
    | none => exact ⟨rfl, w, e, rfl, hw, by simp [h', hs]⟩
    | some e' => simp [h', hs] at hne

/-- A commit on the database of `Db.committedOne` with an I/O error stored returns the error and
leaves the queue and the overlay alone. -/
theorem first_background_error_wins_on_commit :
    ∃ s s' : Db, Step true s (.client 0) s' ∧ s.bgErr = some .io ∧
      s'.queue = s.queue ∧ s'.overlay = s.overlay ∧
      s'.clients[0]? = some (.idle (some (.failed (.background .io)))) := by
  have h : Step true { Db.committedOne with bgErr := some .io } (.client 0) _ :=
    @Step.commitErr _ _ 0 _ (Change.zeroKey [2]) .io rfl rfl (by decide) rfl (by decide) rfl
  obtain ⟨hq, ho, -⟩ := (@first_background_error_wins true).2.2.2 _ _ 0 .io h rfl
  exact ⟨_, _, h, rfl, hq, ho, rfl⟩

end AxiaDb

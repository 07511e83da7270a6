import AxiaDb.Step

/-!
# What each thread can touch

Frame facts about `Step`, each proved once by going through the sections: only `Db::drop`
moves `drop`, only the workers move `workers`, a worker moves only while it is alive, and
after `Db::drop` has joined the workers none of them runs again
(`workers_done_of_kill`), so `kill_logs` has the database to itself.
-/

namespace AxiaDb

variable {failing : Bool} {s s' : Db} {t : Thread}

@[simp] theorem Db.setClient_workers (s : Db) (i : Nat) (p : ClientPc) :
    (s.setClient i p).workers = s.workers := rfl

@[simp] theorem Db.setClient_drop (s : Db) (i : Nat) (p : ClientPc) :
    (s.setClient i p).drop = s.drop := rfl

@[simp] theorem Db.setWorker_drop (s : Db) (w : Worker) (p : WorkerPc) :
    (s.setWorker w p).drop = s.drop := rfl

@[simp] theorem Db.setWorker_workers (s : Db) (w : Worker) (p : WorkerPc) :
    (s.setWorker w p).workers = Function.update s.workers w p := rfl

@[simp] theorem Db.storeErr_drop (s : Db) (e : Error) (w : Option Nat) :
    (s.storeErr e w).drop = s.drop := by
  unfold Db.storeErr; split <;> rfl

@[simp] theorem Db.storeErr_workers (s : Db) (e : Error) (w : Option Nat) :
    (s.storeErr e w).workers = s.workers := by
  unfold Db.storeErr; split <;> rfl

@[simp] theorem Db.storeErr_ghost (s : Db) (e : Error) (w : Option Nat) :
    (s.storeErr e w).ghost = s.ghost := by
  unfold Db.storeErr; split <;> rfl

@[simp] theorem Db.reindexRecord_drop (s : Db) (d : Option ColId) (n : Bool) (b : Nat) (f : Bool) :
    (s.reindexRecord d n b f).drop = s.drop := by
  unfold Db.reindexRecord; split <;> rfl

@[simp] theorem Db.reindexRecord_workers (s : Db) (d : Option ColId) (n : Bool) (b : Nat)
    (f : Bool) : (s.reindexRecord d n b f).workers = s.workers := by
  unfold Db.reindexRecord; split <;> rfl

@[simp] theorem Db.reindexRecord_queue (s : Db) (d : Option ColId) (n : Bool) (b : Nat)
    (f : Bool) : (s.reindexRecord d n b f).queue = s.queue := by
  unfold Db.reindexRecord; split <;> rfl

/-- The flush signal of `process_reindex` is a section of its own. -/
@[simp] theorem Db.reindexRecord_work (s : Db) (d : Option ColId) (n : Bool) (b : Nat)
    (f : Bool) : (s.reindexRecord d n b f).work = s.work := by
  unfold Db.reindexRecord; split <;> rfl

@[simp] theorem Db.enactRecord_workers (s : Db) (r : LogRecord) (l : Log) :
    (s.enactRecord r l).workers = s.workers := by
  unfold Db.enactRecord; split <;> rfl

@[simp] theorem Db.enactRecord_drop (s : Db) (r : LogRecord) (l : Log) :
    (s.enactRecord r l).drop = s.drop := by
  unfold Db.enactRecord; split <;> rfl

@[simp] theorem Db.finishReindex_drop (s : Db) (m : Option Bool) (r : Bool) :
    (s.finishReindex m r).drop = s.drop := rfl

@[simp] theorem Db.finishReindex_workers (s : Db) (m : Option Bool) (r : Bool) :
    (s.finishReindex m r).workers = Function.update s.workers .log
      (.loop (match m with | none => r | some b => b || r)) := rfl

@[simp] theorem Db.debitLog_drop (s : Db) (b : Nat) : (s.debitLog b).drop = s.drop := rfl

@[simp] theorem Db.debitLog_workers (s : Db) (b : Nat) : (s.debitLog b).workers = s.workers :=
  rfl

@[simp] theorem Db.processCommit_workers (s : Db) (c : Commit) (rest : List Commit) (x : Bool)
    (b : Nat) (f : Bool) : (s.processCommit c rest x b f).workers = s.workers := by
  unfold Db.processCommit; split <;> rfl

@[simp] theorem Db.processCommit_drop (s : Db) (c : Commit) (rest : List Commit) (x : Bool)
    (b : Nat) (f : Bool) : (s.processCommit c rest x b f).drop = s.drop := by
  unfold Db.processCommit; split <;> rfl

@[simp] theorem Db.storeErr_setup (s : Db) (e : Error) (w : Option Nat) :
    (s.storeErr e w).setup = s.setup := by
  unfold Db.storeErr; split <;> rfl

@[simp] theorem Db.reindexRecord_setup (s : Db) (d : Option ColId) (n : Bool) (b : Nat)
    (f : Bool) : (s.reindexRecord d n b f).setup = s.setup := by
  unfold Db.reindexRecord; split <;> rfl

@[simp] theorem Db.enactRecord_setup (s : Db) (r : LogRecord) (l : Log) :
    (s.enactRecord r l).setup = s.setup := by
  unfold Db.enactRecord; split <;> rfl

@[simp] theorem Db.processCommit_setup (s : Db) (c : Commit) (rest : List Commit) (x : Bool)
    (b : Nat) (f : Bool) : (s.processCommit c rest x b f).setup = s.setup := by
  unfold Db.processCommit; split <;> rfl

/-! ## Who moves what -/

/-- Nothing moves the setup. -/
theorem Step.setup_eq (h : Step failing s t s') : s'.setup = s.setup := by
  cases h <;> first | rfl | (split <;> rfl) | simp [Db.setWorker, Db.finishReindex, Db.debitLog]

/-- Only `Db::drop` moves `drop`. -/
theorem Step.drop_eq (h : Step failing s t s') (ht : t ≠ .dropper) : s'.drop = s.drop := by
  cases h <;> first | exact absurd rfl ht | rfl | (split <;> rfl) | simp

/-- Clients and `Db::drop` leave the workers where they are. -/
theorem Step.workers_eq (h : Step failing s t s') (ht : ∀ w, t ≠ .worker w) :
    s'.workers = s.workers := by
  cases h <;> first | exact absurd rfl (ht _) | rfl | (split <;> rfl) | simp

/-- A worker moves only while it is alive. -/
theorem Step.worker_alive {w : Worker} (h : Step failing s (.worker w) s') :
    s.workers w ≠ .absent ∧ s.workers w ≠ .exited := by
  cases h <;> simp_all

/-- **`kill_logs` runs alone.** Once `Db::drop` has joined the workers, none of them is
alive again. -/
theorem workers_done_of_kill (hr : Reachable failing s) {ph : KillPhase}
    (hd : s.drop = .kill ph) (w : Worker) : s.workers w = .absent ∨ s.workers w = .exited := by
  induction hr generalizing ph w with
  | init σ => simp [Db.init] at hd
  | @step s₀ s₁ t _ hs ih =>
    rcases t with i | w' | _
    · rw [hs.workers_eq (by simp)]
      exact ih ((hs.drop_eq (by simp)).symm.trans hd) w
    · have := hs.worker_alive
      rcases ih ((hs.drop_eq (by simp)).symm.trans hd) w' with h | h <;> simp [h] at this
    · rw [hs.workers_eq (by simp)]
      cases hs
      case dropStart => split at hd <;> simp at hd
      case dropJoin _ hj => exact hj w
      all_goals exact ih ‹_› w


/-! ## Clients -/

/-- `notify_one` moves at most one waiting client, to `woken`. -/
theorem notifyOne_getElem? (cl : List ClientPc) (w : Option Nat) (i : Nat) :
    (notifyOne cl w)[i]? = cl[i]? ∨
      ∃ cs, cl[i]? = some (.waitFull cs) ∧ (notifyOne cl w)[i]? = some (.woken cs) := by
  rcases w with _ | j
  · exact .inl rfl
  · cases hp : cl[j]? with
    | none => simp [notifyOne, hp]
    | some p =>
      simp only [notifyOne, hp]
      by_cases hij : j = i
      · subst hij
        cases p <;> simp [List.getElem?_set_self', hp, ClientPc.wake]
      · exact .inl (List.getElem?_set_ne hij)

@[simp] theorem Db.storeErr_clients (s : Db) (e : Error) (w : Option Nat) :
    (s.storeErr e w).clients = notifyOne s.clients w := by
  unfold Db.storeErr; split <;> rfl

@[simp] theorem Db.reindexRecord_clients (s : Db) (d : Option ColId) (n : Bool) (b : Nat)
    (f : Bool) : (s.reindexRecord d n b f).clients = s.clients := by
  unfold Db.reindexRecord; split <;> rfl

@[simp] theorem Db.enactRecord_clients (s : Db) (r : LogRecord) (l : Log) :
    (s.enactRecord r l).clients = s.clients := by
  unfold Db.enactRecord; split <;> rfl

/-- `kill_logs` pops with nobody to notify. -/
@[simp] theorem Db.processCommit_clients (s : Db) (c : Commit) (rest : List Commit) (x : Bool)
    (b : Nat) (f : Bool) : (s.processCommit c rest x b f).clients = s.clients := by
  unfold Db.processCommit; split <;> rfl

/-- Another thread moves client `i` at most from `waitFull` to `woken`. -/
theorem Step.client_frame {i : Nat} (h : Step failing s t s') (ht : t ≠ .client i) :
    s'.clients[i]? = s.clients[i]? ∨
      ∃ cs, s.clients[i]? = some (.waitFull cs) ∧ s'.clients[i]? = some (.woken cs) := by
  cases h
  case storeErr =>
    simp only [Db.setWorker, Db.storeErr_clients]; exact notifyOne_getElem? _ _ _
  case popSome => exact notifyOne_getElem? _ _ _
  case killCommitFail => exact .inl rfl
  case killCommitSome => exact .inl (by simp)
  all_goals first
    | exact .inl rfl
    | exact .inl (List.getElem?_set_ne fun h => ht (congrArg Thread.client h))
    | (split <;> exact .inl rfl)
    | exact .inl (by simp [Db.setWorker, Db.finishReindex, Db.debitLog])

/-- A client starts a call only while the handle is alive. -/
theorem Step.live_of_idle {i : Nat} (h : Step failing s (.client i) s')
    (hi : ∀ p : ClientPc, s.clients[i]? = some p → p.isIdle = true) : s.drop = .live := by
  cases h <;> first | assumption | simp_all [ClientPc.isIdle]

/-- **Clients are done once `Db::drop` runs.** `Db::drop` starts when every client is idle,
and then no client can start a call. -/
theorem Reachable.clients_idle (hr : Reachable failing s) (hd : s.drop ≠ .live) :
    ∀ (i : Nat) (p : ClientPc), s.clients[i]? = some p → p.isIdle = true := by
  induction hr with
  | init σ => simp [Db.init] at hd
  | @step s₀ s₁ t _ hs ih =>
    by_cases h0 : s₀.drop = .live
    · -- the step leaving `live` is the start of `Db::drop`
      rcases t with j | w | _
      · exact absurd ((hs.drop_eq (by simp)).trans h0) hd
      · exact absurd ((hs.drop_eq (by simp)).trans h0) hd
      · cases hs with
        | dropStart _ hidle =>
          intro i p hp
          split at hp <;> exact List.all_eq_true.1 hidle p (List.mem_iff_getElem?.2 ⟨i, hp⟩)
        | _ => simp_all
    · replace ih := ih h0
      rcases t with j | w | _
      · exact absurd (hs.live_of_idle (ih j)) h0
      all_goals
        intro i p hp
        rcases hs.client_frame (i := i) (by simp) with h | ⟨cs, h, -⟩
        · exact ih i p (h ▸ hp)
        · exact absurd (ih i _ h) (by simp [ClientPc.isIdle])

end AxiaDb

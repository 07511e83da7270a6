import AxiaDb.Threads
import AxiaDb.Pipeline

/-!
# `DbInner` implements the commit pipeline

`Db.pipeline` reads the abstract pipeline off a state of the threaded model: the queue, the
commit the log worker's `process_commits` holds, the commits of the closed records, the
overlay and the accepted commits. The main result is the refinement `Step.pipeline`: every
section of `src/db.rs`, run by any thread, is one `Pipeline.Step` (most of them `stay`). The
pipeline's invariants then hold of every reachable state (`Reachable.pipeline_ordered`,
and `Reachable.pipeline_exact` for runs without failures).
-/

namespace AxiaDb

/-! ## The abstraction -/

namespace LogBody

/-- The commit `process_commits` popped and has not closed a record for yet. -/
def writing : LogBody → Option Commit
  | .commits (.write c) => some c
  | _ => none

/-- The commit `process_commits` popped and has not cleaned out of the overlay yet. -/
def popped : LogBody → Option Commit
  | .commits (.write c) | .commits (.account c ..) | .commits (.cleanup c ..) => some c
  | _ => none

@[simp] theorem writing_notifyLogQueue (b : LogBody) : b.notifyLogQueue.writing = b.writing := by
  cases b with
  | commits p => cases p <;> rfl
  | reindex => rfl

@[simp] theorem popped_notifyLogQueue (b : LogBody) : b.notifyLogQueue.popped = b.popped := by
  cases b with
  | commits p => cases p <;> rfl
  | reindex => rfl

end LogBody

/-- The pipeline state `s` implements. The log worker holds a commit only while it runs. -/
def Db.pipeline (s : Db) : Pipeline where
  recordId := s.queue.recordId
  queue := s.queue.commits
  writing := if s.workers .log = .running then s.logBody.writing else none
  uncleaned := if s.workers .log = .running then s.logBody.popped else none
  logged := commitsOf s.closed
  overlay := s.overlay
  accepted := s.ghost.accepted

/-- The commits `process_commits` has popped and not yet cleaned out of the overlay, then the
queue: those whose overlay entries may still be in the overlay. -/
def Db.pending (s : Db) : List Commit := s.pipeline.pending

/-- The commit the log worker popped and has not closed a record for yet. -/
def Db.writing (s : Db) : Option Commit := s.pipeline.writing

/-! ## What each section does to the pipeline -/

namespace Db

/-- The pipeline reads only the queue, the log worker's position, the closed records' commits,
the overlay and the accepted commits. -/
theorem pipeline_congr {s s' : Db} (hq : s'.queue = s.queue)
    (hw : s'.workers .log = s.workers .log) (hwr : s'.logBody.writing = s.logBody.writing)
    (hp : s'.logBody.popped = s.logBody.popped) (hc : commitsOf s'.closed = commitsOf s.closed)
    (ho : s'.overlay = s.overlay) (ha : s'.ghost.accepted = s.ghost.accepted) :
    s'.pipeline = s.pipeline := by
  simp [pipeline, *]

variable (s : Db)

@[simp] theorem pipeline_setClient (i : Nat) (p : ClientPc) :
    (s.setClient i p).pipeline = s.pipeline := rfl

@[simp] theorem pipeline_signal (w : Worker) : (s.signal w).pipeline = s.pipeline := rfl

@[simp] theorem pipeline_signalIf (b : Bool) (w : Worker) :
    (s.signalIf b w).pipeline = s.pipeline := rfl

@[simp] theorem pipeline_creditLog (b : Nat) : (s.creditLog b).pipeline = s.pipeline := rfl

@[simp] theorem pipeline_startReindex (r : Nat) : (s.startReindex r).pipeline = s.pipeline := rfl

@[simp] theorem pipeline_triggerReindex (r : Nat) :
    (s.triggerReindex r).pipeline = s.pipeline := rfl

@[simp] theorem pipeline_flushOne (m : Nat) : (s.flushOne m).pipeline = s.pipeline := rfl

@[simp] theorem pipeline_flushLogs (m : Nat) : (s.flushLogs m).1.pipeline = s.pipeline := rfl

@[simp] theorem pipeline_cleanupLogs (r : Bool) : (s.cleanupLogs r).1.pipeline = s.pipeline :=
  rfl

@[simp] theorem pipeline_enactRecord (r : LogRecord) (l : Log) :
    (s.enactRecord r l).pipeline = s.pipeline := by
  unfold enactRecord; split <;> rfl

@[simp] theorem pipeline_shutdownDb : s.shutdownDb.pipeline = s.pipeline := by
  simp [shutdownDb, pipeline]

@[simp] theorem pipeline_storeErr (e : Error) (w : Option Nat) :
    (s.storeErr e w).pipeline = s.pipeline := by
  unfold storeErr; split <;> simp [pipeline, shutdownDb]

@[simp] theorem pipeline_debitLog (b : Nat) : (s.debitLog b).pipeline = s.pipeline := by
  unfold debitLog; dsimp only; split <;> simp [pipeline]

theorem pipeline_closeRecord (body : RecordBody) (b : Nat) (f : Bool) :
    (s.closeRecord body b f).pipeline =
      { s.pipeline with logged := s.pipeline.logged ++ body.commit?.toList } := by
  simp [closeRecord, pipeline]

/-- A reindex record carries no commit. -/
@[simp] theorem pipeline_reindexRecord (d : Option ColId) (n : Bool) (b : Nat) (f : Bool) :
    (s.reindexRecord d n b f).pipeline = s.pipeline := by
  unfold reindexRecord
  split <;> simp [pipeline, closeRecord, triggerReindex, startReindex, RecordBody.commit?]

@[simp] theorem reindexRecord_logBody (d : Option ColId) (n : Bool) (b : Nat) (f : Bool) :
    (s.reindexRecord d n b f).logBody = s.logBody := by
  unfold reindexRecord; split <;> rfl

@[simp] theorem storeErr_overlay (e : Error) (w : Option Nat) :
    (s.storeErr e w).overlay = s.overlay := congrArg Pipeline.overlay (s.pipeline_storeErr e w)

@[simp] theorem storeErr_accepted (e : Error) (w : Option Nat) :
    (s.storeErr e w).ghost.accepted = s.ghost.accepted :=
  congrArg Pipeline.accepted (s.pipeline_storeErr e w)

@[simp] theorem enactRecord_overlay (r : LogRecord) (l : Log) :
    (s.enactRecord r l).overlay = s.overlay := congrArg Pipeline.overlay (s.pipeline_enactRecord r l)

@[simp] theorem enactRecord_accepted (r : LogRecord) (l : Log) :
    (s.enactRecord r l).ghost.accepted = s.ghost.accepted :=
  congrArg Pipeline.accepted (s.pipeline_enactRecord r l)

@[simp] theorem reindexRecord_overlay (d : Option ColId) (n : Bool) (b : Nat) (f : Bool) :
    (s.reindexRecord d n b f).overlay = s.overlay :=
  congrArg Pipeline.overlay (s.pipeline_reindexRecord d n b f)

@[simp] theorem reindexRecord_accepted (d : Option ColId) (n : Bool) (b : Nat) (f : Bool) :
    (s.reindexRecord d n b f).ghost.accepted = s.ghost.accepted :=
  congrArg Pipeline.accepted (s.pipeline_reindexRecord d n b f)

theorem pipeline_pushCommit (cs : List Change) :
    (s.pushCommit cs).pipeline = s.pipeline.push s.setup.refCounted cs := rfl

@[simp] theorem pipeline_noteWaited : s.noteWaited.pipeline = s.pipeline := rfl

/-- Only the log worker holds commits. -/
@[simp] theorem pipeline_setWorker_of_ne {w : Worker} (hw : w ≠ .log) (p : WorkerPc) :
    (s.setWorker w p).pipeline = s.pipeline := by
  simp [pipeline, setWorker, Function.update_noteq hw.symm]

/-- Moving a worker that does not run, to a place where it does not run. -/
theorem pipeline_setWorker {w : Worker} {p : WorkerPc} (hs : s.workers w ≠ .running)
    (hp : p ≠ .running) : (s.setWorker w p).pipeline = s.pipeline := by
  cases w <;> simp [pipeline, setWorker, hs, hp]

/-- A worker entering its loop body holds no commit yet. -/
theorem pipeline_enterBody {w : Worker} (hs : s.workers w ≠ .running) :
    (s.enterBody w).pipeline = s.pipeline := by
  cases w <;> simp [pipeline, enterBody, setWorker, hs, LogBody.writing, LogBody.popped]

/-- The end of `process_reindex`, where the log worker holds no commit. -/
theorem pipeline_finishReindex {m : Option Bool} {p : ReindexPc} (hb : s.logBody = .reindex m p)
    (m' : Option Bool) (r : Bool) : (s.finishReindex m' r).pipeline = s.pipeline := by
  simp [pipeline, finishReindex, setWorker, hb, LogBody.writing, LogBody.popped]

end Db

/-! ## The refinement -/

variable {failing : Bool} {s s' : Db} {t : Thread}

theorem Pipeline.Step.of_eq {rc : ColId → Bool} {p p' : Pipeline} (h : p' = p) :
    Pipeline.Step rc failing p p' := h ▸ .stay

/-- **Refinement.** Every section of `src/db.rs` makes one move of the commit pipeline. -/
theorem Step.pipeline (hr : Reachable failing s) (h : Step failing s t s') :
    Pipeline.Step s.setup.refCounted failing s.pipeline s'.pipeline := by
  cases h with
  | @commitPush i r cs =>
    rw [Db.pipeline_setClient, Db.pipeline_pushCommit]; exact .push cs
  | @retryPush i cs =>
    rw [Db.pipeline_setClient, Db.pipeline_noteWaited, Db.pipeline_pushCommit]; exact .push cs
  | @popSome c rest wake hw hb hq hc =>
    have : { s.popCommit c rest wake with logBody := .commits (.write c) }.pipeline =
        { s.pipeline with queue := rest, writing := some c, uncleaned := some c } := by
      simp [Db.pipeline, Db.popCommit, hw, LogBody.writing, LogBody.popped]
    rw [this]
    exact .pop hc (by simp [Db.pipeline, hw, hb, LogBody.writing])
      (by simp [Db.pipeline, hw, hb, LogBody.popped])
  | @writeOk c reindex bytes newFile hw hb =>
    have : { s.closeRecord (.commit c) bytes newFile with
        logBody := .commits (.account c s.log.nextRecordId bytes reindex) }.pipeline =
        { s.pipeline with writing := none, logged := s.pipeline.logged ++ [c] } := by
      simp [Db.pipeline, Db.closeRecord, hw, hb, LogBody.writing, LogBody.popped,
        RecordBody.commit?]
    rw [this]
    exact .close (by simp [Db.pipeline, hw, hb, LogBody.writing])
  | @writeFail c e hf hw hb =>
    have : ({ s with log := s.log.beginRecord }.setWorker .log (.failed e)).pipeline =
        { s.pipeline with writing := none, uncleaned := none } := by
      simp [Db.pipeline, Db.setWorker]
    rw [this]
    exact .abandon hf (show s.pipeline.writing = some c by simp [Db.pipeline, hw, hb, LogBody.writing])
  | @cleanup c rid reindex hw hb =>
    have : { s.cleanupOverlay c with logBody := .commits (.trigger rid reindex) }.pipeline =
        { s.pipeline with uncleaned := none, overlay := overlayCleanup s.pipeline.overlay c } := by
      simp [Db.pipeline, Db.cleanupOverlay, hb, LogBody.writing, LogBody.popped]
    rw [this]
    exact .cleanup (by simp [Db.pipeline, hw, hb, LogBody.writing])
      (by simp [Db.pipeline, hw, hb, LogBody.popped])
  | @killCommitSome c rest reindex bytes newFile hd hc =>
    have hl : s.workers .log ≠ .running := by
      rcases workers_done_of_kill hr hd .log with h | h <;> simp [h]
    have : (s.processCommit c rest reindex bytes newFile).pipeline =
        { s.pipeline with
          queue := rest
          logged := s.pipeline.logged ++ [c]
          overlay := overlayCleanup s.pipeline.overlay c } := by
      unfold Db.processCommit
      split <;> simp [Db.pipeline, Db.cleanupOverlay, Db.creditLog, Db.signal, Db.closeRecord,
        Db.popCommit, Db.startReindex, hl, RecordBody.commit?]
    rw [this]
    exact .drain hc (by simp [Db.pipeline, hl]) (by simp [Db.pipeline, hl])
  | @killCommitFail c rest e hf hd hc =>
    have : { s.popCommit c rest none with log := s.log.beginRecord, drop := .finished }.pipeline =
        { s.pipeline with queue := rest } := by
      simp [Db.pipeline, Db.popCommit]
    rw [this]
    exact .discard hf hc
  | loopExit hw => exact .of_eq (s.pipeline_setWorker (by simp [hw]) (by simp))
  | loopWait hw => exact .of_eq (s.pipeline_setWorker (by simp [hw]) (by simp))
  | loopRun hw => exact .of_eq (s.pipeline_enterBody (by simp [hw]))
  | wake hw => exact .of_eq (Db.pipeline_enterBody _ (by simp [hw]))
  | storeErr hw =>
    exact .of_eq ((Db.pipeline_setWorker _ (by simp [hw]) (by simp)).trans (s.pipeline_storeErr _ _))
  | @trigger rid reindex hw hb =>
    exact .of_eq (by cases reindex <;> simp [Db.pipeline, Db.triggerReindex, Db.startReindex, hb,
      LogBody.writing, LogBody.popped])
  | guardZero hw hb => exact .of_eq (s.pipeline_finishReindex hb _ _)
  | guardSkip hw hb => exact .of_eq (s.pipeline_finishReindex hb _ _)
  | scanRecord d n b f hw hb =>
    exact .of_eq (Eq.trans (by simp [Db.pipeline, LogBody.writing, LogBody.popped, hb])
      (s.pipeline_reindexRecord d n b f))
  | reindexSignal hw hb => exact .of_eq ((Db.pipeline_finishReindex _ hb _ _).trans (s.pipeline_signal .flush))
  | clear hw hb => exact .of_eq (Db.pipeline_finishReindex _ hb _ _)
  | @enactRecord r l =>
    exact .of_eq ((Db.pipeline_congr rfl rfl rfl rfl rfl rfl rfl).trans (s.pipeline_enactRecord r l))
  | dropStart =>
    exact .of_eq (by
      split <;> exact Db.pipeline_congr rfl rfl (by simp [Db.shutdownDb]) (by simp [Db.shutdownDb])
        rfl rfl rfl)
  | _ => exact .of_eq (by
      first
      | (simp; done)
      | exact Db.pipeline_congr rfl rfl (by first | rfl | simp [LogBody.writing, *])
          (by first | rfl | simp [LogBody.popped, *]) rfl rfl rfl
      | simp [Db.pipeline, Db.setWorker, LogBody.writing, LogBody.popped, *])

/-! ## Every reachable state -/

/-- `open_inner` starts with an empty pipeline. -/
theorem Db.pipeline_init (σ : Setup) :
    (Db.init σ).pipeline = ⟨0, [], none, none, [], Overlay.empty, []⟩ := by
  simp [Db.init, Db.pipeline, LogBody.writing, LogBody.popped]

theorem Pipeline.ordered_empty : (⟨0, [], none, none, [], Overlay.empty, []⟩ : Pipeline).Ordered :=
  ⟨by simp, by simp, by simp [Pipeline.flow], by simp [Pipeline.pending],
    by simp [Pipeline.pending], .inl rfl⟩

/-- **Run lemma for `Ordered`.** -/
theorem Reachable.pipeline_ordered (hr : Reachable failing s) : s.pipeline.Ordered := by
  induction hr with
  | init σ => rw [Db.pipeline_init]; exact Pipeline.ordered_empty
  | step hr hs ih => exact ih.step (hs.pipeline hr)

/-- **Run lemma for `Exact`.** -/
theorem Reachable.pipeline_exact (hr : Reachable false s) :
    s.pipeline.Exact s.setup.refCounted := by
  induction hr with
  | init σ =>
    rw [Db.pipeline_init]
    exact ⟨Pipeline.ordered_empty, rfl, List.suffix_refl _, rfl⟩
  | step hr hs ih =>
    rw [hs.setup_eq]
    exact ih.step (hs.pipeline hr)

end AxiaDb

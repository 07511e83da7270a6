import AxiaDb.GetSize

/-!
# Validation replay

At open, `replay_all_logs` asks the log for each replay file (`replay_next`) and drains it by
calling `enact_logs(true)` until that returns `false`. For each record `read_next(true)` hands
over, `enact_logs(true)` checks that its id is `last_enacted + 1`, reads it once calling
`validate_plan` on each insert, and only then resets the reader and reads it again, calling
`enact_plan` and `drop_index`. A bad header, a wrong id or a failed validation calls
`clear_replay_logs` and returns `false`; any other error is returned.

The log and the columns are not part of the modelled sources. A record is what its reader's
`next()` returns; the columns are any state with any `validate_plan`, `enact_plan` and
`drop_index` (`ReplayEnv`). As the spec has it, `clear_replay_logs` ends the replay, and a
reset reader reads the same actions again.

* `validPrefix`: the records the replay should enact, in the spec's words: the longest prefix
  of the stream with consecutive ids from `last_enacted + 1`, each read without error up to its
  `EndRecord`, with no `BeginRecord`, and every insert accepted by `validate_plan` in the
  columns the earlier records leave (`validateRecord_iff`), with the ids `last_enacted + 1, …`
  (`validPrefix_ids`).
* `replay_applies_valid_records`: the column calls of `replay_all_logs` are the first calls of
  that prefix's actions, none of a later record, and all of them, with `last_enacted` at the
  prefix's end, when it returns `Ok(())`.
* `replay_stops_at_failed_enact`: an error from `enact_plan` ends the replay inside the prefix.
* `replay_leaves_valid_records_applied`: a replay that returns `Ok(())` leaves the columns at the
  prefix's actions applied in order, and `next_reindex` at the id of the last record of the
  prefix that dropped an index table (`lastDropId`).
* `openInner_eq_ok`: so the database `open_inner` starts, `Db.init` of the `Setup` it returns,
  has those tables, that `next_reindex`, and `last_enacted` at the prefix's end.
-/

namespace AxiaDb

/-! ## The log and the columns -/

/-- `LogAction`: `InsertIndex` and `InsertValue` carry the column's plan `p`, with whatever
inline bytes the column reads after it; `DropTable` carries the table. -/
inductive LogAction (P T : Type) where
  | beginRecord
  | endRecord
  | insertIndex (p : P)
  | insertValue (p : P)
  | dropTable (t : T)
  deriving DecidableEq

/-- A record as `read_next(true)` hands it over: its `record_id`, and what the successive calls
of `reader.next()` return after the header. Reading past the end of the list fails. -/
structure ReplayRecord (P T : Type) where
  id : Nat
  actions : List (Except Error (LogAction P T))

/-- A call of the enact loop into a column. -/
inductive ColumnCall (P T : Type) where
  | enactPlan (a : LogAction P T)
  | dropIndex (t : T)
  deriving DecidableEq

/-- The columns, in state `σ`, and what the façade calls of the replay return. -/
structure ReplayEnv (σ P T : Type) where
  validatePlan : σ → LogAction P T → Except Error Unit
  enactPlan : σ → LogAction P T → Except Error σ
  dropIndex : σ → T → Except Error σ
  /-- What `clear_replay_logs` returns. -/
  clearReplayLogs : Except Error Unit
  /-- What `refresh_metadata` over every column returns. -/
  refreshMetadata : σ → Except Error Unit

/-- What the replay changes: the columns, `last_enacted`, `next_reindex` and whether
`clear_replay_logs` has run; and, as ghost, the column calls made so far, in order. -/
structure ReplayState (σ P T : Type) where
  columns : σ
  lastEnacted : Nat
  nextReindex : Nat
  cleared : Bool
  calls : List (ColumnCall P T)

/-- The state `open` starts the replay from. -/
def ReplayState.init {σ P T : Type} (c : σ) (lastEnacted nextReindex : Nat) :
    ReplayState σ P T :=
  ⟨c, lastEnacted, nextReindex, false, []⟩

section Replay

variable {σ P T : Type} (env : ReplayEnv σ P T)

/-! ## `enact_logs(true)` and `replay_all_logs` -/

/-- The validation loop of `enact_logs(true)`: `true` if it reaches `EndRecord`, `false` where
the source calls `clear_replay_logs`. Every `validate_plan` sees the columns `c` as they were
before the record. -/
def validateRecord (c : σ) : List (Except Error (LogAction P T)) → Bool
  | [] => false
  | .error _ :: _ => false
  | .ok .beginRecord :: _ => false
  | .ok .endRecord :: _ => true
  | .ok (.insertIndex p) :: rest =>
    match env.validatePlan c (.insertIndex p) with
    | .ok () => validateRecord c rest
    | .error _ => false
  | .ok (.insertValue p) :: rest =>
    match env.validatePlan c (.insertValue p) with
    | .ok () => validateRecord c rest
    | .error _ => false
  | .ok (.dropTable _) :: rest => validateRecord c rest

/-- One column call of the enact loop, noted before it is made: `enact_plan`, or `drop_index`
followed by `start_reindex(record_id)`. -/
def ReplayState.call (st : ReplayState σ P T) (rid : Nat) :
    ColumnCall P T → ReplayState σ P T × Option Error
  | .enactPlan a =>
    match env.enactPlan st.columns a with
    | .ok c => ({ st with columns := c, calls := st.calls ++ [.enactPlan a] }, none)
    | .error e => ({ st with calls := st.calls ++ [.enactPlan a] }, some e)
  | .dropIndex t =>
    match env.dropIndex st.columns t with
    | .ok c =>
      ({ st with columns := c, nextReindex := rid, calls := st.calls ++ [.dropIndex t] }, none)
    | .error e => ({ st with calls := st.calls ++ [.dropIndex t] }, some e)

/-- The enact loop of `enact_logs` for record `rid`, from the `reader.next()` after the reset:
the state where it stops, and the error it returns with. -/
def enactActions (rid : Nat) :
    ReplayState σ P T → List (Except Error (LogAction P T)) →
      ReplayState σ P T × Option Error
  | st, [] => (st, some .io)
  | st, .error e :: _ => (st, some e)
  | st, .ok .beginRecord :: _ => (st, some (.corruption "Bad log record"))
  | st, .ok .endRecord :: _ => (st, none)
  | st, .ok (.insertIndex p) :: rest =>
    match st.call env rid (.enactPlan (.insertIndex p)) with
    | (st', none) => enactActions rid st' rest
    | r => r
  | st, .ok (.insertValue p) :: rest =>
    match st.call env rid (.enactPlan (.insertValue p)) with
    | (st', none) => enactActions rid st' rest
    | r => r
  | st, .ok (.dropTable t) :: rest =>
    match st.call env rid (.dropIndex t) with
    | (st', none) => enactActions rid st' rest
    | r => r

/-- `self.log.clear_replay_logs()?; return Ok(false)`. -/
def ReplayState.clear (st : ReplayState σ P T) : ReplayState σ P T × Except Error Bool :=
  ({ st with cleared := true }, env.clearReplayLogs.map fun _ => false)

/-- `enact_logs(true)` on what `read_next(true)` returned, `Ok(Some(reader))` or an error.
(`Ok(None)`, the end of the file, is left to `replayFile`.) -/
def enactLogsValidation (st : ReplayState σ P T) :
    Except Error (ReplayRecord P T) → ReplayState σ P T × Except Error Bool
  | .error (.corruption _) => st.clear env
  | .error e => (st, .error e)
  | .ok r =>
    if r.id ≠ st.lastEnacted + 1 then st.clear env
    else if validateRecord env st.columns r.actions then
      match enactActions env r.id st r.actions with
      | (st', none) => ({ st' with lastEnacted := r.id }, .ok true)
      | (st', some e) => (st', .error e)
    else st.clear env

/-- `while self.enact_logs(true)? {}` over one replay file, given the results of the
`read_next(true)` calls before the one that returns `Ok(None)`. -/
def replayFile :
    ReplayState σ P T → List (Except Error (ReplayRecord P T)) →
      ReplayState σ P T × Except Error Unit
  | st, [] => (st, .ok ())
  | st, x :: xs =>
    match enactLogsValidation env st x with
    | (st', .ok true) => replayFile st' xs
    | (st', .ok false) => (st', .ok ())
    | (st', .error e) => (st', .error e)

/-- `replay_all_logs`: `replay_next` yields the files in order, `Err` where it fails, and nothing
once `clear_replay_logs` has run; then `refresh_metadata`. -/
def replayAllLogs :
    ReplayState σ P T → List (Except Error (List (Except Error (ReplayRecord P T)))) →
      ReplayState σ P T × Except Error Unit
  | st, [] => (st, env.refreshMetadata st.columns)
  | st, f :: fs =>
    if st.cleared then (st, env.refreshMetadata st.columns)
    else
      match f with
      | .error e => (st, .error e)
      | .ok xs =>
        match replayFile env st xs with
        | (st', .ok ()) => replayAllLogs st' fs
        | (st', .error e) => (st', .error e)

/-! ## What the spec asks for -/

/-- The column calls the actions of a record ask for, up to its `EndRecord`. -/
def callsOf : List (Except Error (LogAction P T)) → List (ColumnCall P T)
  | .ok (.insertIndex p) :: rest => .enactPlan (.insertIndex p) :: callsOf rest
  | .ok (.insertValue p) :: rest => .enactPlan (.insertValue p) :: callsOf rest
  | .ok (.dropTable t) :: rest => .dropIndex t :: callsOf rest
  | _ => []

/-- The column calls record `r` asks for. -/
def ReplayRecord.calls (r : ReplayRecord P T) : List (ColumnCall P T) := callsOf r.actions

/-- The columns after the calls `cs` from `c`, if none of them fails. -/
def applyCalls : σ → List (ColumnCall P T) → Option σ
  | c, [] => some c
  | c, .enactPlan a :: cs =>
    match env.enactPlan c a with
    | .ok c' => applyCalls c' cs
    | .error _ => none
  | c, .dropIndex t :: cs =>
    match env.dropIndex c t with
    | .ok c' => applyCalls c' cs
    | .error _ => none

/-- The spec's conditions on a record read against the columns `c`: its actions read without
error up to an `EndRecord`, no `BeginRecord` comes before that, and `validate_plan` accepts
every insert. -/
def RecordValid (c : σ) (acts : List (Except Error (LogAction P T))) : Prop :=
  ∃ (pre : List (LogAction P T)) (rest : List (Except Error (LogAction P T))),
    acts = pre.map .ok ++ .ok .endRecord :: rest ∧
    ∀ a ∈ pre, a ≠ .beginRecord ∧ a ≠ .endRecord ∧
      ∀ p, (a = .insertIndex p ∨ a = .insertValue p) → env.validatePlan c a = .ok ()

/-- The spec's prefix `R_1..R_m` of the stream `xs`, read from columns `c` with
`last_enacted = l`: each record has the next id and meets the spec's conditions
(`validateRecord_iff`) against the columns the records before it leave. -/
def validPrefix : σ → Nat → List (Except Error (ReplayRecord P T)) → List (ReplayRecord P T)
  | _, _, [] => []
  | _, _, .error _ :: _ => []
  | c, l, .ok r :: rs =>
    if r.id = l + 1 ∧ validateRecord env c r.actions = true then
      r :: match applyCalls env c r.calls with
        | some c' => validPrefix c' r.id rs
        | none => []
    else []

/-- The records of the valid prefix carry the ids `l + 1, l + 2, …`: `R_i`'s id is
`last_enacted_0 + i`. -/
theorem validPrefix_ids :
    ∀ (c : σ) (l : Nat) (xs : List (Except Error (ReplayRecord P T))),
      (validPrefix env c l xs).map ReplayRecord.id =
        List.range' (l + 1) (validPrefix env c l xs).length
  | _, _, [] => rfl
  | _, _, .error _ :: _ => rfl
  | c, l, .ok r :: xs => by
    simp only [validPrefix]
    split
    · rename_i h
      split
      · rw [List.map_cons, validPrefix_ids _ r.id xs, h.1, List.length_cons, List.range'_succ]
      · simp [h.1]
    · rfl

/-- The records of the replay files, in the order `read_next(true)` hands them over. -/
def replayStream (files : List (Except Error (List (Except Error (ReplayRecord P T))))) :
    List (Except Error (ReplayRecord P T)) :=
  files.flatMap fun
    | .ok xs => xs
    | .error _ => []

/-- Whether a column call is a `drop_index`, which `start_reindex` follows. -/
def ColumnCall.isDrop : ColumnCall P T → Bool
  | .dropIndex _ => true
  | .enactPlan _ => false

/-- The `next_reindex` the records `rs` leave when each is enacted in turn from `n`: the id of
the last one that drops an index table, else `n`. -/
def lastDropId : List (ReplayRecord P T) → Nat → Nat
  | [], n => n
  | r :: rs, n => lastDropId rs (if r.calls.any ColumnCall.isDrop then r.id else n)

/-! ## The validation loop checks the spec's conditions -/

theorem recordValid_nil (c : σ) :
    ¬RecordValid env c ([] : List (Except Error (LogAction P T))) := by
  rintro ⟨pre, rest, h, -⟩
  cases pre <;> simp at h

/-- A record whose next read is an action other than `EndRecord` is valid exactly when the
action is allowed and the rest is valid. -/
theorem recordValid_cons (c : σ) (a : LogAction P T)
    (rest : List (Except Error (LogAction P T))) (ha : a ≠ .endRecord) :
    RecordValid env c (.ok a :: rest) ↔
      (a ≠ .beginRecord ∧ ∀ p, (a = .insertIndex p ∨ a = .insertValue p) →
        env.validatePlan c a = .ok ()) ∧ RecordValid env c rest := by
  constructor
  · rintro ⟨_ | ⟨b, pre⟩, rest', h, hv⟩
    · simp only [List.map_nil, List.nil_append, List.cons.injEq, Except.ok.injEq] at h
      exact absurd h.1 ha
    · simp only [List.map_cons, List.cons_append, List.cons.injEq, Except.ok.injEq] at h
      obtain ⟨rfl, rfl⟩ := h
      obtain ⟨hb, -, hp⟩ := hv a (List.mem_cons_self _ _)
      exact ⟨⟨hb, hp⟩, pre, rest', rfl, fun x hx => hv x (List.mem_cons_of_mem _ hx)⟩
  · rintro ⟨⟨hb, hp⟩, pre, rest', rfl, hv⟩
    refine ⟨a :: pre, rest', rfl, fun x hx => ?_⟩
    rcases List.mem_cons.1 hx with rfl | hx
    · exact ⟨hb, ha, hp⟩
    · exact hv x hx

/-- **The validation loop checks the spec's conditions.** -/
theorem validateRecord_iff (c : σ) :
    ∀ acts : List (Except Error (LogAction P T)),
      validateRecord env c acts = true ↔ RecordValid env c acts
  | [] => by simp [validateRecord, recordValid_nil]
  | .error e :: rest => by
    simp only [validateRecord, Bool.false_eq_true, false_iff]
    rintro ⟨_ | ⟨b, pre⟩, rest', h, -⟩ <;> simp at h
  | .ok .beginRecord :: rest => by
    rw [recordValid_cons env c _ _ (by simp)]
    simp [validateRecord]
  | .ok .endRecord :: rest => by
    simp only [validateRecord, true_iff]
    exact ⟨[], rest, rfl, by simp⟩
  | .ok (.insertIndex p) :: rest => by
    rw [recordValid_cons env c _ _ (by simp), ← validateRecord_iff c rest]
    cases h : env.validatePlan c (.insertIndex p) <;> simp [validateRecord, h]
  | .ok (.insertValue p) :: rest => by
    rw [recordValid_cons env c _ _ (by simp), ← validateRecord_iff c rest]
    cases h : env.validatePlan c (.insertValue p) <;> simp [validateRecord, h]
  | .ok (.dropTable t) :: rest => by
    rw [recordValid_cons env c _ _ (by simp), ← validateRecord_iff c rest]
    simp [validateRecord]

/-! ## The enact loop after a validation -/

/-- The calls `cs` made one by one from `st`, stopping at the first that fails. -/
def ReplayState.runCalls (st : ReplayState σ P T) (rid : Nat) :
    List (ColumnCall P T) → ReplayState σ P T × Option Error
  | [] => (st, none)
  | k :: cs =>
    match st.call env rid k with
    | (st', none) => st'.runCalls rid cs
    | r => r

@[simp] theorem ReplayState.call_calls (st : ReplayState σ P T) (rid : Nat) (k : ColumnCall P T) :
    (st.call env rid k).1.calls = st.calls ++ [k] := by
  cases k <;> simp only [ReplayState.call] <;> split <;> rfl

@[simp] theorem ReplayState.call_lastEnacted (st : ReplayState σ P T) (rid : Nat)
    (k : ColumnCall P T) : (st.call env rid k).1.lastEnacted = st.lastEnacted := by
  cases k <;> simp only [ReplayState.call] <;> split <;> rfl

@[simp] theorem ReplayState.call_cleared (st : ReplayState σ P T) (rid : Nat)
    (k : ColumnCall P T) : (st.call env rid k).1.cleared = st.cleared := by
  cases k <;> simp only [ReplayState.call] <;> split <;> rfl

/-- A call that does not fail leaves the columns `applyCalls` computes. -/
theorem ReplayState.call_ok {st : ReplayState σ P T} {rid : Nat} {k : ColumnCall P T}
    {st' : ReplayState σ P T} (h : st.call env rid k = (st', none)) (cs : List (ColumnCall P T)) :
    applyCalls env st.columns (k :: cs) = applyCalls env st'.columns cs := by
  cases k with
  | enactPlan a =>
    simp only [ReplayState.call] at h
    split at h <;> rename_i he <;> simp only [Prod.mk.injEq] at h
    · obtain ⟨rfl, -⟩ := h; simp [applyCalls, he]
    · exact absurd h.2 (by simp)
  | dropIndex t =>
    simp only [ReplayState.call] at h
    split at h <;> rename_i he <;> simp only [Prod.mk.injEq] at h
    · obtain ⟨rfl, -⟩ := h; simp [applyCalls, he]
    · exact absurd h.2 (by simp)

/-- The calls made are a prefix of those asked for; `last_enacted` and the clearing stay. -/
theorem ReplayState.runCalls_calls (rid : Nat) :
    ∀ (st : ReplayState σ P T) (cs : List (ColumnCall P T)),
      (st.runCalls env rid cs).1.lastEnacted = st.lastEnacted ∧
      (st.runCalls env rid cs).1.cleared = st.cleared ∧
      ∃ cs', (st.runCalls env rid cs).1.calls = st.calls ++ cs' ∧ cs' <+: cs
  | st, [] => ⟨rfl, rfl, [], by simp [ReplayState.runCalls], List.nil_prefix⟩
  | st, k :: cs => by
    simp only [ReplayState.runCalls]
    rcases hk : st.call env rid k with ⟨st', _ | e⟩
    · obtain ⟨h1, h2, cs', h3, h4⟩ := ReplayState.runCalls_calls rid st' cs
      have := congrArg (fun r => r.1) hk
      simp only at this
      refine ⟨by rw [h1, ← this]; simp, by rw [h2, ← this]; simp, k :: cs', ?_,
        List.cons_prefix_cons.2 ⟨rfl, h4⟩⟩
      rw [h3, ← this]; simp
    · have := congrArg (fun r => r.1) hk
      simp only at this
      exact ⟨by rw [← this]; simp, by rw [← this]; simp, [k], by rw [← this]; simp,
        List.cons_prefix_cons.2 ⟨rfl, List.nil_prefix⟩⟩

/-- Calls that all succeed are all made, and leave the columns `applyCalls` computes. -/
theorem ReplayState.runCalls_ok (rid : Nat) :
    ∀ (st : ReplayState σ P T) (cs : List (ColumnCall P T)),
      (st.runCalls env rid cs).2 = none →
      (st.runCalls env rid cs).1.calls = st.calls ++ cs ∧
      applyCalls env st.columns cs = some (st.runCalls env rid cs).1.columns
  | st, [], _ => ⟨by simp [ReplayState.runCalls], rfl⟩
  | st, k :: cs, h => by
    simp only [ReplayState.runCalls] at h ⊢
    rcases hk : st.call env rid k with ⟨st', _ | e⟩
    · rw [hk] at h
      obtain ⟨h1, h2⟩ := ReplayState.runCalls_ok rid st' cs h
      have := congrArg (fun r => r.1) hk
      simp only at this
      refine ⟨by rw [h1, ← this]; simp, ?_⟩
      rw [ReplayState.call_ok env hk, h2]
    · rw [hk] at h; cases h

/-- After a validation, the enact loop fails only in a column call: it makes the record's calls
one by one. -/
theorem enactActions_eq_runCalls (c : σ) (rid : Nat) :
    ∀ (st : ReplayState σ P T) (acts : List (Except Error (LogAction P T))),
      validateRecord env c acts = true →
        enactActions env rid st acts = st.runCalls env rid (callsOf acts)
  | _, [], h | _, .error _ :: _, h | _, .ok .beginRecord :: _, h => by
    simp [validateRecord] at h
  | _, .ok .endRecord :: _, _ => rfl
  | st, .ok (.insertIndex p) :: rest, h | st, .ok (.insertValue p) :: rest, h => by
    simp only [validateRecord] at h
    split at h
    · simp only [enactActions, callsOf, ReplayState.runCalls]
      rcases st.call env rid _ with ⟨st', _ | e⟩
      · exact enactActions_eq_runCalls c rid st' rest h
      · rfl
    · cases h
  | st, .ok (.dropTable t) :: rest, h => by
    simp only [validateRecord] at h
    simp only [enactActions, callsOf, ReplayState.runCalls]
    rcases st.call env rid _ with ⟨st', _ | e⟩
    · exact enactActions_eq_runCalls c rid st' rest h
    · rfl

/-! ## One record, one file, every file -/

theorem validPrefix_cons_valid {c c' : σ} {l : Nat} {r : ReplayRecord P T}
    (h : r.id = l + 1 ∧ validateRecord env c r.actions = true)
    (ha : applyCalls env c r.calls = some c') (zs : List (Except Error (ReplayRecord P T))) :
    validPrefix env c l (.ok r :: zs) = r :: validPrefix env c' r.id zs := by
  simp [validPrefix, h, ha]

/-- The valid prefix stops at a record with the wrong id or failing validation, and at a
failed read. -/
theorem validPrefix_cons_stop {c : σ} {l : Nat} {x : Except Error (ReplayRecord P T)}
    (h : ∀ r, x = .ok r → ¬(r.id = l + 1 ∧ validateRecord env c r.actions = true))
    (zs : List (Except Error (ReplayRecord P T))) : validPrefix env c l (x :: zs) = [] := by
  rcases x with e | r
  · rfl
  · simp only [validPrefix, if_neg (h r rfl)]

/-- The valid prefix of a stream is a prefix of that of any longer stream. -/
theorem validPrefix_isPrefix_append :
    ∀ (c : σ) (l : Nat) (xs ys : List (Except Error (ReplayRecord P T))),
      validPrefix env c l xs <+: validPrefix env c l (xs ++ ys)
  | _, _, [], _ => List.nil_prefix
  | _, _, .error _ :: _, _ => List.nil_prefix
  | c, l, .ok r :: xs, ys => by
    simp only [validPrefix, List.cons_append]
    split
    · refine List.cons_prefix_cons.2 ⟨rfl, ?_⟩
      split
      · exact validPrefix_isPrefix_append _ _ xs ys
      · exact List.nil_prefix
    · exact List.nil_prefix

theorem isPrefix_flatMap {α β : Type} {l₁ l₂ : List α} (h : l₁ <+: l₂)
    (f : α → List β) :
    l₁.flatMap f <+: l₂.flatMap f := by
  obtain ⟨t, rfl⟩ := h
  exact ⟨t.flatMap f, by rw [List.flatMap_append]⟩

/-- `enact_logs(true)` on a record with the next id that passes validation makes the record's
calls one by one, and stores `last_enacted` if none fails. -/
theorem enactLogsValidation_valid (st : ReplayState σ P T) (r : ReplayRecord P T)
    (h : r.id = st.lastEnacted + 1 ∧ validateRecord env st.columns r.actions = true) :
    enactLogsValidation env st (.ok r) =
      match st.runCalls env r.id r.calls with
      | (st', none) => ({ st' with lastEnacted := r.id }, .ok true)
      | (st', some e) => (st', .error e) := by
  simp only [enactLogsValidation]
  rw [if_neg (not_not.2 h.1), if_pos h.2, enactActions_eq_runCalls env _ _ _ _ h.2]
  rfl

/-- Where `enact_logs(true)` clears the replay logs, the file's loop ends with what
`clear_replay_logs` returned. -/
theorem replayFile_of_clear {st : ReplayState σ P T} {x : Except Error (ReplayRecord P T)}
    (h : enactLogsValidation env st x = st.clear env)
    (xs : List (Except Error (ReplayRecord P T))) :
    replayFile env st (x :: xs) = ({ st with cleared := true }, env.clearReplayLogs) := by
  simp only [replayFile, h, ReplayState.clear]
  cases env.clearReplayLogs <;> rfl

/-- What `enact_logs(true)` does with what `read_next(true)` returned: it clears the replay
logs, returns the error, or enacts a valid record. -/
theorem enactLogsValidation_cases (st : ReplayState σ P T)
    (x : Except Error (ReplayRecord P T)) :
    ((∀ r, x = .ok r → ¬(r.id = st.lastEnacted + 1 ∧
        validateRecord env st.columns r.actions = true)) ∧
      (enactLogsValidation env st x = st.clear env ∨
        ∃ e, enactLogsValidation env st x = (st, .error e))) ∨
    ∃ r, x = .ok r ∧
      (r.id = st.lastEnacted + 1 ∧ validateRecord env st.columns r.actions = true) := by
  rcases x with e | r
  · refine .inl ⟨fun _ h => (by cases h), ?_⟩
    cases e with
    | corruption m => exact .inl rfl
    | io => exact .inr ⟨_, rfl⟩
    | background e => exact .inr ⟨_, rfl⟩
  · by_cases h : r.id = st.lastEnacted + 1 ∧ validateRecord env st.columns r.actions = true
    · exact .inr ⟨r, rfl, h⟩
    · refine .inl ⟨fun r' h' => by cases h'; exact h, .inl ?_⟩
      simp only [enactLogsValidation]
      by_cases hid : r.id = st.lastEnacted + 1
      · rw [if_neg (not_not.2 hid), if_neg (fun hv => h ⟨hid, hv⟩)]
      · rw [if_pos hid]

/-- **One replay file.** From a state that has not cleared, the calls made are a prefix of those
of the file's valid prefix `R`. When the file's loop ends without an error, they are all of
them and `last_enacted` is at `R`'s end; and the valid prefix of the file followed by any later
records is `R` followed, unless the loop cleared the replay logs, by the valid prefix of the
later records from where the loop stopped. -/
theorem replayFile_spec :
    ∀ (xs : List (Except Error (ReplayRecord P T))) (st : ReplayState σ P T),
      st.cleared = false →
      (∃ cs, (replayFile env st xs).1.calls = st.calls ++ cs ∧
        cs <+: (validPrefix env st.columns st.lastEnacted xs).flatMap ReplayRecord.calls) ∧
      ((replayFile env st xs).2 = .ok () →
        (replayFile env st xs).1.calls =
          st.calls ++ (validPrefix env st.columns st.lastEnacted xs).flatMap ReplayRecord.calls ∧
        (replayFile env st xs).1.lastEnacted =
          st.lastEnacted + (validPrefix env st.columns st.lastEnacted xs).length ∧
        ∀ ys, validPrefix env st.columns st.lastEnacted (xs ++ ys) =
          validPrefix env st.columns st.lastEnacted xs ++
            if (replayFile env st xs).1.cleared then [] else
              validPrefix env (replayFile env st xs).1.columns
                (replayFile env st xs).1.lastEnacted ys)
  | [], st, hc => ⟨⟨[], by simp [replayFile], List.nil_prefix⟩,
      fun _ => ⟨by simp [replayFile, validPrefix], by simp [replayFile, validPrefix],
        fun ys => by simp [replayFile, validPrefix, hc]⟩⟩
  | x :: xs, st, hc => by
    rcases enactLogsValidation_cases env st x with
      ⟨hstop, hclear | ⟨e, herr⟩⟩ | ⟨r, rfl, hv⟩
    · -- a bad header, a wrong id or a failed validation: the replay logs are cleared
      rw [replayFile_of_clear env hclear, validPrefix_cons_stop env hstop]
      exact ⟨⟨[], by simp, List.nil_prefix⟩,
        fun _ => ⟨by simp, by simp, fun ys => by simp [validPrefix_cons_stop env hstop]⟩⟩
    · -- another error from `read_next(true)` is returned
      simp only [replayFile, herr]
      exact ⟨⟨[], by simp, List.nil_prefix⟩, fun h => by cases h⟩
    · -- a valid record: its calls are made one by one
      obtain ⟨hl, hcl, cs, hcs, hpre⟩ := ReplayState.runCalls_calls env r.id st r.calls
      simp only [replayFile, enactLogsValidation_valid env st r hv]
      rcases hrun : st.runCalls env r.id r.calls with ⟨st₁, _ | e⟩
      · obtain ⟨h1, h2⟩ := ReplayState.runCalls_ok env r.id st r.calls (by rw [hrun])
        rw [hrun] at h1 h2 hl hcl
        simp only at h1 h2 hl hcl ⊢
        obtain ⟨ih1, ih2⟩ :=
          replayFile_spec xs { st₁ with lastEnacted := r.id } (hcl.trans hc)
        simp only at ih1 ih2
        rw [validPrefix_cons_valid env hv h2]
        refine ⟨?_, fun hok => ?_⟩
        · obtain ⟨cs', h, hp⟩ := ih1
          refine ⟨r.calls ++ cs', by rw [h, h1, List.append_assoc], ?_⟩
          rw [List.flatMap_cons]
          exact (List.prefix_append_right_inj _).2 hp
        · obtain ⟨i1, i2, i3⟩ := ih2 hok
          refine ⟨by rw [i1, h1, List.flatMap_cons, List.append_assoc], by
            rw [i2, hv.1, List.length_cons]; omega, fun ys => ?_⟩
          rw [List.cons_append, validPrefix_cons_valid env hv h2, i3 ys, List.cons_append]
      · -- a failed call ends the replay with its error
        rw [hrun] at hcs
        simp only at hcs ⊢
        refine ⟨⟨cs, hcs, ?_⟩, fun h => by cases h⟩
        simp only [validPrefix, if_pos hv, List.flatMap_cons]
        exact hpre.trans (List.prefix_append _ _)

theorem replayStream_cons_ok (xs : List (Except Error (ReplayRecord P T)))
    (fs : List (Except Error (List (Except Error (ReplayRecord P T))))) :
    replayStream (.ok xs :: fs) = xs ++ replayStream fs := by
  simp [replayStream]

/-- Once `clear_replay_logs` has run, `replay_next` yields nothing. -/
theorem replayAllLogs_of_cleared {st : ReplayState σ P T} (h : st.cleared = true)
    (fs : List (Except Error (List (Except Error (ReplayRecord P T))))) :
    replayAllLogs env st fs = (st, env.refreshMetadata st.columns) := by
  cases fs <;> simp [replayAllLogs, h]

/-- **Every replay file.** From a state that has not cleared, the calls `replay_all_logs` makes
are a prefix of those of the valid prefix of the stream of every file's records, and all of
them, with `last_enacted` at its end, when it returns `Ok(())`. -/
theorem replayAllLogs_spec :
    ∀ (files : List (Except Error (List (Except Error (ReplayRecord P T)))))
      (st : ReplayState σ P T), st.cleared = false →
      (∃ cs, (replayAllLogs env st files).1.calls = st.calls ++ cs ∧
        cs <+: (validPrefix env st.columns st.lastEnacted (replayStream files)).flatMap
          ReplayRecord.calls) ∧
      ((replayAllLogs env st files).2 = .ok () →
        (replayAllLogs env st files).1.calls = st.calls ++
          (validPrefix env st.columns st.lastEnacted (replayStream files)).flatMap
            ReplayRecord.calls ∧
        (replayAllLogs env st files).1.lastEnacted =
          st.lastEnacted +
            (validPrefix env st.columns st.lastEnacted (replayStream files)).length)
  | [], st, _ => ⟨⟨[], by simp [replayAllLogs], List.nil_prefix⟩,
      fun _ => ⟨by simp [replayAllLogs, replayStream, validPrefix],
        by simp [replayAllLogs, replayStream, validPrefix]⟩⟩
  | .error e :: fs, st, hc => by
    simp only [replayAllLogs, hc, Bool.false_eq_true, if_false]
    exact ⟨⟨[], by simp, List.nil_prefix⟩, fun h => by cases h⟩
  | .ok xs :: fs, st, hc => by
    obtain ⟨⟨cs, hcs, hpre⟩, hok⟩ := replayFile_spec env xs st hc
    rw [replayStream_cons_ok]
    simp only [replayAllLogs, hc, Bool.false_eq_true, if_false]
    rcases hf : replayFile env st xs with ⟨st₁, e | u⟩
    · -- the file's loop returned an error
      rw [hf] at hcs
      have hxs := isPrefix_flatMap (validPrefix_isPrefix_append env st.columns st.lastEnacted xs
        (replayStream fs)) ReplayRecord.calls
      exact ⟨⟨cs, hcs, hpre.trans hxs⟩, fun h => by cases h⟩
    · cases u
      rw [hf] at hok
      obtain ⟨h1, h2, h3⟩ := hok rfl
      simp only at h1 h2 h3 ⊢
      rw [h3]
      cases hcl : st₁.cleared
      · -- the file was valid to its end: on to the next file
        obtain ⟨⟨cs₂, hcs₂, hpre₂⟩, hok₂⟩ := replayAllLogs_spec fs st₁ hcl
        simp only [if_false, Bool.false_eq_true, List.flatMap_append, List.length_append]
        refine ⟨⟨_ ++ cs₂, by rw [hcs₂, h1, List.append_assoc],
          (List.prefix_append_right_inj _).2 hpre₂⟩, fun hok' => ?_⟩
        obtain ⟨i1, i2⟩ := hok₂ hok'
        exact ⟨by rw [i1, h1, List.append_assoc], by rw [i2, h2, Nat.add_assoc]⟩
      · -- the replay logs were cleared: `replay_next` yields nothing more
        rw [replayAllLogs_of_cleared env hcl]
        simp only [if_true, List.append_nil]
        exact ⟨⟨_, h1, List.prefix_refl _⟩, fun _ => ⟨h1, h2⟩⟩

/-! ## How far the replay gets -/

/-- **How far one file gets.** From a state that has not cleared, the file's loop moves
`last_enacted` past the first `k` records of the file's valid prefix: it has made all of their
calls, and the calls after them are a prefix of the next record's. -/
theorem replayFile_progress :
    ∀ (xs : List (Except Error (ReplayRecord P T))) (st : ReplayState σ P T),
      st.cleared = false →
      ∃ k ≤ (validPrefix env st.columns st.lastEnacted xs).length,
        (replayFile env st xs).1.lastEnacted = st.lastEnacted + k ∧
        ∃ cs, (replayFile env st xs).1.calls = st.calls ++ cs ∧
          ((validPrefix env st.columns st.lastEnacted xs).take k).flatMap ReplayRecord.calls <+:
            cs ∧
          cs <+: ((validPrefix env st.columns st.lastEnacted xs).take (k + 1)).flatMap
            ReplayRecord.calls
  | [], st, _ => ⟨0, Nat.zero_le _, rfl, [], by simp [replayFile], by simp, by simp⟩
  | x :: xs, st, hc => by
    rcases enactLogsValidation_cases env st x with ⟨hstop, hclear | ⟨e, herr⟩⟩ | ⟨r, rfl, hv⟩
    · rw [replayFile_of_clear env hclear, validPrefix_cons_stop env hstop]
      exact ⟨0, le_rfl, rfl, [], by simp, by simp, by simp⟩
    · simp only [replayFile, herr]
      exact ⟨0, Nat.zero_le _, rfl, [], by simp, by simp, List.nil_prefix⟩
    · obtain ⟨hl, -, cs, hcs, hpre⟩ := ReplayState.runCalls_calls env r.id st r.calls
      simp only [replayFile, enactLogsValidation_valid env st r hv]
      rcases hrun : st.runCalls env r.id r.calls with ⟨st₁, _ | e⟩
      · -- every call of the record succeeds: on to the next record
        obtain ⟨h1, h2⟩ := ReplayState.runCalls_ok env r.id st r.calls (by rw [hrun])
        have hcl := (ReplayState.runCalls_calls env r.id st r.calls).2.1
        rw [hrun] at h1 h2 hcl
        simp only at h1 h2 hcl ⊢
        obtain ⟨k, hk, i1, cs', i2, i3, i4⟩ :=
          replayFile_progress xs { st₁ with lastEnacted := r.id } (hcl.trans hc)
        simp only at hk i1 i2 i3 i4
        rw [validPrefix_cons_valid env hv h2]
        exact ⟨k + 1, by simpa using hk, by rw [i1, hv.1]; omega, r.calls ++ cs',
          by rw [i2, h1, List.append_assoc], by simpa using i3, by simpa using i4⟩
      · -- a failed call: `last_enacted` stays, and the calls are a prefix of the record's
        rw [hrun] at hcs hl
        simp only at hcs hl ⊢
        refine ⟨0, Nat.zero_le _, hl, cs, hcs, by simp, ?_⟩
        simpa [validPrefix, if_pos hv] using hpre

/-- **How far the replay gets.** From a state that has not cleared, `replay_all_logs` moves
`last_enacted` past the first `k` records of the stream's valid prefix: it has made all of
their calls, and the calls after them are a prefix of the next record's. -/
theorem replayAllLogs_progress :
    ∀ (files : List (Except Error (List (Except Error (ReplayRecord P T)))))
      (st : ReplayState σ P T), st.cleared = false →
      ∃ k ≤ (validPrefix env st.columns st.lastEnacted (replayStream files)).length,
        (replayAllLogs env st files).1.lastEnacted = st.lastEnacted + k ∧
        ∃ cs, (replayAllLogs env st files).1.calls = st.calls ++ cs ∧
          ((validPrefix env st.columns st.lastEnacted (replayStream files)).take k).flatMap
            ReplayRecord.calls <+: cs ∧
          cs <+: ((validPrefix env st.columns st.lastEnacted (replayStream files)).take
            (k + 1)).flatMap ReplayRecord.calls
  | [], st, _ => ⟨0, Nat.zero_le _, rfl, [], by simp [replayAllLogs], by simp, by simp⟩
  | .error e :: fs, st, hc => by
    simp only [replayAllLogs, hc, Bool.false_eq_true, if_false]
    exact ⟨0, Nat.zero_le _, rfl, [], by simp, by simp, List.nil_prefix⟩
  | .ok xs :: fs, st, hc => by
    rw [replayStream_cons_ok]
    simp only [replayAllLogs, hc, Bool.false_eq_true, if_false]
    rcases hf : replayFile env st xs with ⟨st₁, e | u⟩
    · -- the file's loop returned an error: the stream's valid prefix starts with the file's
      obtain ⟨k, hk, i1, cs, i2, i3, i4⟩ := replayFile_progress env xs st hc
      obtain ⟨t, ht⟩ := validPrefix_isPrefix_append env st.columns st.lastEnacted xs
        (replayStream fs)
      rw [hf] at i1 i2
      simp only at i1 i2 ⊢
      rw [← ht]
      refine ⟨k, hk.trans (by simp), i1, cs, i2, ?_, ?_⟩
      · rwa [List.take_append_of_le_length hk]
      · rw [List.take_append_eq_append_take, List.flatMap_append]
        exact i4.trans (List.prefix_append _ _)
    · cases u
      obtain ⟨h1, h2, h3⟩ := (replayFile_spec env xs st hc).2 (by rw [hf])
      rw [hf] at h1 h2 h3
      simp only at h1 h2 h3 ⊢
      rw [h3]
      cases hcl : st₁.cleared
      · -- the file was valid to its end: on to the next file
        obtain ⟨k, hk, j1, cs, j2, j3, j4⟩ := replayAllLogs_progress fs st₁ hcl
        simp only [if_false, Bool.false_eq_true]
        let vp := validPrefix env st.columns st.lastEnacted xs
        refine ⟨vp.length + k, by simpa [vp] using hk, by rw [j1, h2, Nat.add_assoc],
          vp.flatMap ReplayRecord.calls ++ cs, by rw [j2, h1, List.append_assoc], ?_, ?_⟩
        · rw [List.take_append, List.flatMap_append]
          exact (List.prefix_append_right_inj _).2 j3
        · rw [Nat.add_assoc, List.take_append, List.flatMap_append]
          exact (List.prefix_append_right_inj _).2 j4
      · -- the replay logs were cleared: `replay_next` yields nothing more
        rw [replayAllLogs_of_cleared env hcl]
        simp only [if_true, List.append_nil]
        exact ⟨_, le_rfl, h2, _, h1, by simp, by simp [List.take_of_length_le]⟩

/-! ## Replay applies the valid prefix -/

/-- **Validation replay applies the valid prefix.** From the state at open, with any columns and
any replay files, the column calls of `replay_all_logs` are a prefix of the calls of the
stream's valid prefix `R_1..R_m`: none is made for an action of a later record, nor for an
action of a record before that record is validated whole. When `replay_all_logs` returns
`Ok(())`, the calls are exactly those of `R_1..R_m`, and `last_enacted` ends at
`last_enacted_0 + m`. Whatever it returns, `last_enacted` ends at `last_enacted_0 + k`, the id
of `R_k` (`validPrefix_ids`), where `R_1..R_k` are the records whose calls are all made and the
calls after them are a prefix of `R_{k+1}`'s: after a failed `enact_plan` or `drop_index`,
`last_enacted` stays at the id of the record before the failing one. -/
theorem replay_applies_valid_records (c : σ) (l n : Nat)
    (files : List (Except Error (List (Except Error (ReplayRecord P T))))) :
    (replayAllLogs env (.init c l n) files).1.calls <+:
        (validPrefix env c l (replayStream files)).flatMap ReplayRecord.calls ∧
      ((replayAllLogs env (.init c l n) files).2 = .ok () →
        (replayAllLogs env (.init c l n) files).1.calls =
          (validPrefix env c l (replayStream files)).flatMap ReplayRecord.calls ∧
        (replayAllLogs env (.init c l n) files).1.lastEnacted =
          l + (validPrefix env c l (replayStream files)).length) ∧
      ∃ k ≤ (validPrefix env c l (replayStream files)).length,
        (replayAllLogs env (.init c l n) files).1.lastEnacted = l + k ∧
        ((validPrefix env c l (replayStream files)).take k).flatMap ReplayRecord.calls <+:
          (replayAllLogs env (.init c l n) files).1.calls ∧
        (replayAllLogs env (.init c l n) files).1.calls <+:
          ((validPrefix env c l (replayStream files)).take (k + 1)).flatMap ReplayRecord.calls := by
  obtain ⟨⟨cs, hcs, hpre⟩, hok⟩ := replayAllLogs_spec env files (.init c l n) rfl
  obtain ⟨k, hk, h1, cs', h2, h3, h4⟩ := replayAllLogs_progress env files (.init c l n) rfl
  exact ⟨by rw [hcs]; exact hpre, hok, k, hk, h1, by rw [h2]; exact h3, by rw [h2]; exact h4⟩

end Replay

/-- Columns that accept and enact every plan, and two replay files: the first holds records `1`
and `2`, the second a record `4`. The replay enacts `1` and `2`, clears the replay logs at `4`
and returns `Ok(())`. -/
theorem replay_applies_valid_records_sequence_gap :
    ∃ (env : ReplayEnv Unit Nat Nat)
      (files : List (Except Error (List (Except Error (ReplayRecord Nat Nat))))),
      (replayAllLogs env (.init () 0 0) files).2 = .ok () ∧
      (replayAllLogs env (.init () 0 0) files).1.calls =
        (validPrefix env () 0 (replayStream files)).flatMap ReplayRecord.calls ∧
      (replayAllLogs env (.init () 0 0) files).1.lastEnacted =
        0 + (validPrefix env () 0 (replayStream files)).length := by
  let env : ReplayEnv Unit Nat Nat :=
    ⟨fun _ _ => .ok (), fun c _ => .ok c, fun c _ => .ok c, .ok (), fun _ => .ok ()⟩
  let files : List (Except Error (List (Except Error (ReplayRecord Nat Nat)))) :=
    [.ok [.ok ⟨1, [.ok (.insertValue 7), .ok (.dropTable 3), .ok .endRecord]⟩,
        .ok ⟨2, [.ok (.insertIndex 8), .ok .endRecord]⟩],
      .ok [.ok ⟨4, [.ok (.insertIndex 9), .ok .endRecord]⟩]]
  have hok : (replayAllLogs env (.init () 0 0) files).2 = .ok () := rfl
  exact ⟨env, files, hok, (replay_applies_valid_records env () 0 0 files).2.1 hok⟩

/-- **An `enact_plan` error ends the replay inside the valid prefix.** Columns that accept every
plan and fail every `enact_plan`, and one replay file with one record of two inserts, with the
id after `last_enacted`: the record is the whole valid prefix, yet `replay_all_logs` calls
`enact_plan` on its first insert only, returns the error, and leaves `last_enacted` where it
was. -/
theorem replay_stops_at_failed_enact :
    ∃ (env : ReplayEnv Unit Nat Nat)
      (files : List (Except Error (List (Except Error (ReplayRecord Nat Nat))))),
      (validPrefix env () 0 (replayStream files)).length = 1 ∧
      (replayAllLogs env (.init () 0 0) files).1.calls ≠
        (validPrefix env () 0 (replayStream files)).flatMap ReplayRecord.calls ∧
      (replayAllLogs env (.init () 0 0) files).1.lastEnacted ≠
        0 + (validPrefix env () 0 (replayStream files)).length :=
  ⟨⟨fun _ _ => .ok (), fun _ _ => .error .io, fun c _ => .ok c, .ok (), fun _ => .ok ()⟩,
    [.ok [.ok ⟨1, [.ok (.insertIndex 0), .ok (.insertIndex 1), .ok .endRecord]⟩]], by decide⟩

section ReplayState

variable {σ P T : Type} (env : ReplayEnv σ P T)

/-! ## The state a successful replay leaves -/

theorem applyCalls_append (c : σ) :
    ∀ xs ys : List (ColumnCall P T),
      applyCalls env c (xs ++ ys) = (applyCalls env c xs).bind fun c' => applyCalls env c' ys
  | [], _ => rfl
  | .enactPlan a :: xs, ys => by
    simp only [List.cons_append, applyCalls]
    split <;> simp [applyCalls_append]
  | .dropIndex t :: xs, ys => by
    simp only [List.cons_append, applyCalls]
    split <;> simp [applyCalls_append]

theorem lastDropId_append :
    ∀ (rs rs' : List (ReplayRecord P T)) (n : Nat),
      lastDropId (rs ++ rs') n = lastDropId rs' (lastDropId rs n)
  | [], _, _ => rfl
  | _ :: rs, rs', _ => lastDropId_append rs rs' _

/-- A call that does not fail stores its record id into `next_reindex` if it is a
`drop_index`. -/
theorem ReplayState.call_nextReindex {st : ReplayState σ P T} {rid : Nat} {k : ColumnCall P T}
    (h : (st.call env rid k).2 = none) :
    (st.call env rid k).1.nextReindex = if k.isDrop then rid else st.nextReindex := by
  cases k <;> simp only [ReplayState.call] at h ⊢ <;> split at h <;> simp_all [ColumnCall.isDrop]

/-- Calls that all succeed leave `next_reindex` at the record id if one is a `drop_index`. -/
theorem ReplayState.runCalls_nextReindex (rid : Nat) :
    ∀ (st : ReplayState σ P T) (cs : List (ColumnCall P T)),
      (st.runCalls env rid cs).2 = none →
      (st.runCalls env rid cs).1.nextReindex =
        if cs.any ColumnCall.isDrop then rid else st.nextReindex
  | st, [], _ => by simp [ReplayState.runCalls]
  | st, k :: cs, h => by
    simp only [ReplayState.runCalls] at h ⊢
    rcases hk : st.call env rid k with ⟨st', _ | e⟩
    · rw [hk] at h
      have hn := @ReplayState.call_nextReindex _ _ _ env st rid k (by rw [hk])
      rw [hk] at hn
      simp only at h hn ⊢
      rw [ReplayState.runCalls_nextReindex rid st' cs h, hn, List.any_cons]
      cases k.isDrop <;> simp
    · rw [hk] at h; cases h

/-- **One replay file, when its loop returns `Ok(())`.** The columns are the file's valid records
applied in order, and `next_reindex` is what they leave. -/
theorem replayFile_state :
    ∀ (xs : List (Except Error (ReplayRecord P T))) (st : ReplayState σ P T),
      st.cleared = false → (replayFile env st xs).2 = .ok () →
      applyCalls env st.columns
          ((validPrefix env st.columns st.lastEnacted xs).flatMap ReplayRecord.calls) =
        some (replayFile env st xs).1.columns ∧
      (replayFile env st xs).1.nextReindex =
        lastDropId (validPrefix env st.columns st.lastEnacted xs) st.nextReindex
  | [], st, _, _ => by simp [replayFile, validPrefix, applyCalls, lastDropId]
  | x :: xs, st, hc, hok => by
    rcases enactLogsValidation_cases env st x with ⟨hstop, hclear | ⟨e, herr⟩⟩ | ⟨r, rfl, hv⟩
    · -- the replay logs are cleared: nothing more is enacted
      rw [replayFile_of_clear env hclear, validPrefix_cons_stop env hstop]
      simp [applyCalls, lastDropId]
    · simp only [replayFile, herr] at hok; cases hok
    · -- a valid record: its calls are made one by one
      simp only [replayFile, enactLogsValidation_valid env st r hv] at hok ⊢
      rcases hrun : st.runCalls env r.id r.calls with ⟨st₁, _ | e⟩
      · obtain ⟨-, h2⟩ := ReplayState.runCalls_ok env r.id st r.calls (by rw [hrun])
        have hn := ReplayState.runCalls_nextReindex env r.id st r.calls (by rw [hrun])
        rw [hrun] at h2 hn hok
        simp only at h2 hn hok ⊢
        obtain ⟨ih1, ih2⟩ :=
          replayFile_state xs { st₁ with lastEnacted := r.id } (by
            have := (ReplayState.runCalls_calls env r.id st r.calls).2.1
            rw [hrun] at this; exact this.trans hc) hok
        simp only at ih1 ih2
        rw [validPrefix_cons_valid env hv h2, List.flatMap_cons, applyCalls_append, h2,
          Option.some_bind, lastDropId, ← hn]
        exact ⟨ih1, ih2⟩
      · rw [hrun] at hok; cases hok

/-- **Every replay file, when the replay returns `Ok(())`.** -/
theorem replayAllLogs_state :
    ∀ (files : List (Except Error (List (Except Error (ReplayRecord P T)))))
      (st : ReplayState σ P T), st.cleared = false → (replayAllLogs env st files).2 = .ok () →
      applyCalls env st.columns ((validPrefix env st.columns st.lastEnacted
          (replayStream files)).flatMap ReplayRecord.calls) =
        some (replayAllLogs env st files).1.columns ∧
      (replayAllLogs env st files).1.nextReindex =
        lastDropId (validPrefix env st.columns st.lastEnacted (replayStream files)) st.nextReindex
  | [], st, _, _ => by simp [replayAllLogs, replayStream, validPrefix, applyCalls, lastDropId]
  | .error e :: fs, st, hc, hok => by
    simp only [replayAllLogs, hc, Bool.false_eq_true, if_false] at hok; cases hok
  | .ok xs :: fs, st, hc, hok => by
    rw [replayStream_cons_ok]
    simp only [replayAllLogs, hc, Bool.false_eq_true, if_false] at hok ⊢
    rcases hf : replayFile env st xs with ⟨st₁, e | u⟩
    · rw [hf] at hok; cases hok
    · cases u
      rw [hf] at hok
      obtain ⟨-, -, h3⟩ := (replayFile_spec env xs st hc).2 (by rw [hf])
      obtain ⟨s1, s2⟩ := replayFile_state env xs st hc (by rw [hf])
      rw [hf] at h3 s1 s2
      simp only at h3 s1 s2 ⊢
      rw [h3]
      cases hcl : st₁.cleared
      · -- the file was valid to its end: on to the next file
        obtain ⟨i1, i2⟩ := replayAllLogs_state fs st₁ hcl (by simpa using hok)
        simp only [if_false, Bool.false_eq_true, List.flatMap_append, applyCalls_append, s1,
          Option.some_bind, lastDropId_append, ← s2]
        exact ⟨i1, i2⟩
      · -- the replay logs were cleared: `replay_next` yields nothing more
        rw [replayAllLogs_of_cleared env hcl]
        simp only [if_true, List.append_nil]
        exact ⟨s1, s2⟩

/-- **A successful replay leaves the valid records applied.** From the state at open, with any
columns and any replay files, when `replay_all_logs` returns `Ok(())` the columns are exactly
the columns at open with the actions of `R_1..R_m` applied in order, and `next_reindex` is the
id of the last of them that dropped an index table, or its value at open if none did. -/
theorem replay_leaves_valid_records_applied (c : σ) (l n : Nat)
    (files : List (Except Error (List (Except Error (ReplayRecord P T)))))
    (hok : (replayAllLogs env (.init c l n) files).2 = .ok ()) :
    applyCalls env c ((validPrefix env c l (replayStream files)).flatMap ReplayRecord.calls) =
        some (replayAllLogs env (.init c l n) files).1.columns ∧
      (replayAllLogs env (.init c l n) files).1.nextReindex =
        lastDropId (validPrefix env c l (replayStream files)) n :=
  replayAllLogs_state env files (.init c l n) rfl hok

end ReplayState

/-- Columns that count the plans they enact and add `10` for each index table they drop, and
one replay file whose first record drops table `3`: the replay enacts both records. -/
theorem replay_leaves_valid_records_applied_counting :
    ∃ (env : ReplayEnv Nat Nat Nat)
      (files : List (Except Error (List (Except Error (ReplayRecord Nat Nat))))),
      (replayAllLogs env (.init 0 0 5) files).2 = .ok () ∧
      applyCalls env 0 ((validPrefix env 0 0 (replayStream files)).flatMap ReplayRecord.calls) =
          some (replayAllLogs env (.init 0 0 5) files).1.columns ∧
        (replayAllLogs env (.init 0 0 5) files).1.nextReindex =
          lastDropId (validPrefix env 0 0 (replayStream files)) 5 := by
  let env : ReplayEnv Nat Nat Nat :=
    ⟨fun _ _ => .ok (), fun c _ => .ok (c + 1), fun c _ => .ok (c + 10), .ok (), fun _ => .ok ()⟩
  let files : List (Except Error (List (Except Error (ReplayRecord Nat Nat)))) :=
    [.ok [.ok ⟨1, [.ok (.insertValue 7), .ok (.dropTable 3), .ok .endRecord]⟩,
        .ok ⟨2, [.ok (.insertIndex 8), .ok .endRecord]⟩]]
  have hok : (replayAllLogs env (.init 0 0 5) files).2 = .ok () := rfl
  exact ⟨env, files, hok, replay_leaves_valid_records_applied env 0 0 5 files hok⟩

/-! ## The database `open_inner` starts -/

section OpenInner

variable {P T : Type} (env : ReplayEnv (ColId → Key → Option Value) P T)

/-- `Db::open_inner` up to the spawn of the workers: `DbInner::open` reads `last_enacted` off
the log and stores `next_reindex = 1`, `replay_all_logs` replays the files into the column
tables, and the database starts on what the replay leaves, or `open_inner` returns its error.
`setup` holds what the replay does not change: the metadata, the options, the id the log
stamps on its first record and the clients. -/
def openInner (setup : Setup) (replayRecordId : Option Nat)
    (files : List (Except Error (List (Except Error (ReplayRecord P T))))) : Except Error Setup :=
  let r := replayAllLogs env (.init setup.tables (openLastEnacted replayRecordId) 1) files
  r.2.map fun _ =>
    { setup with tables := r.1.columns, lastEnacted := r.1.lastEnacted,
                 nextReindex := r.1.nextReindex }

/-- **What `open_inner` starts from.** When the replay succeeds, the setup `open_inner` returns
differs from `setup` only in the tables, which are the tables at open with the calls of the
valid prefix `R_1..R_m` applied, in `last_enacted`, which is `R_m`'s id (the one
`DbInner::open` read if `m = 0`), and in `next_reindex`, which is the id of the last of them
that dropped an index table, else `1`. -/
theorem openInner_eq_ok {setup σ : Setup} {rid : Option Nat}
    {files : List (Except Error (List (Except Error (ReplayRecord P T))))}
    (h : openInner env setup rid files = .ok σ) :
    σ = { setup with tables := σ.tables, lastEnacted := σ.lastEnacted,
                     nextReindex := σ.nextReindex } ∧
      applyCalls env setup.tables ((validPrefix env setup.tables (openLastEnacted rid)
        (replayStream files)).flatMap ReplayRecord.calls) = some σ.tables ∧
      σ.lastEnacted = openLastEnacted rid +
        (validPrefix env setup.tables (openLastEnacted rid) (replayStream files)).length ∧
      σ.nextReindex =
        lastDropId (validPrefix env setup.tables (openLastEnacted rid) (replayStream files)) 1 := by
  rcases hr : replayAllLogs env (.init setup.tables (openLastEnacted rid) 1) files with
    ⟨st, e | u⟩ <;> simp only [openInner, hr, Except.map, Except.ok.injEq, reduceCtorEq] at h
  subst h
  obtain ⟨h1, h2⟩ := replayAllLogs_state env files _ rfl (by rw [hr])
  have h3 := ((replayAllLogs_spec env files _ rfl).2 (by rw [hr])).2
  rw [hr] at h1 h2 h3
  exact ⟨rfl, h1, h3, h2⟩

end OpenInner

end AxiaDb

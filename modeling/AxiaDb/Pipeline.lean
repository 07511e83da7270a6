import AxiaDb.Overlay

/-!
# The commit pipeline, abstractly

What `commit_raw` and `process_commits` do to a commit, with the threads and locks taken
away. A commit is accepted (queued and overlaid), popped, written into a closed record, and
cleaned out of the overlay; after a failure, a popped commit may be abandoned, and
`kill_logs` may pop and discard a queued one. `Pipeline.Step` lists these moves;
`AxiaDb.Refinement` shows that every section of `src/db.rs` makes one of them.

The invariants proved here, each by one step lemma and an induction in `AxiaDb.Refinement`:

* `Pipeline.Ordered`, in every run: ids grow in acceptance order, and the logged, in-flight
  and queued commits are accepted commits in order, none twice (`Ordered.step`);
* `Pipeline.Exact`, in runs without failures: nothing accepted is lost, the pending commits
  are the newest accepted ones, and the overlay holds exactly the pending commits' entries
  (`Exact.step`).
-/

namespace AxiaDb

/-- The commit pipeline's state. -/
structure Pipeline where
  /-- `queue.record_id`. -/
  recordId : Nat
  /-- `queue.commits`. -/
  queue : List Commit
  /-- The commit `process_commits` popped and has not closed a record for yet. -/
  writing : Option Commit
  /-- The commit `process_commits` popped and has not cleaned out of the overlay yet. -/
  uncleaned : Option Commit
  /-- The commits of the records `end_record` closed, in order. -/
  logged : List Commit
  /-- `commit_overlay`. -/
  overlay : Overlay
  /-- Every commit `commit_raw` accepted, in the order it took the queue lock. -/
  accepted : List Commit

namespace Pipeline

/-- The commits whose overlay entries may still be in the overlay: the popped one not yet
cleaned up, then the queue. -/
def pending (p : Pipeline) : List Commit := p.uncleaned.toList ++ p.queue

/-- `commit_raw` under the queue lock and the overlay write lock. -/
def push (rc : ColId → Bool) (p : Pipeline) (cs : List Change) : Pipeline :=
  let recordId := p.recordId + 1
  let cm : Commit := ⟨recordId + 1, changesetBytes cs, cs⟩
  { p with
    recordId := recordId
    queue := p.queue ++ [cm]
    overlay := overlayCommit rc cm.id p.overlay cs
    accepted := p.accepted ++ [cm] }

/-- The moves of the pipeline; `failing` admits the two that only a failed call makes. -/
inductive Step (rc : ColId → Bool) (failing : Bool) : Pipeline → Pipeline → Prop where
  | stay {p : Pipeline} : Step rc failing p p
  | push {p : Pipeline} (cs : List Change) : Step rc failing p (p.push rc cs)
  /-- `process_commits` pops the head of the queue. -/
  | pop {p : Pipeline} {c : Commit} {rest : List Commit} (hq : p.queue = c :: rest)
      (hw : p.writing = none) (hu : p.uncleaned = none) :
      Step rc failing p { p with queue := rest, writing := some c, uncleaned := some c }
  /-- `end_record` closes the popped commit's record. -/
  | close {p : Pipeline} {c : Commit} (hw : p.writing = some c) :
      Step rc failing p { p with writing := none, logged := p.logged ++ [c] }
  /-- Writing the popped commit failed: it is never logged, nor cleaned up. -/
  | abandon {p : Pipeline} {c : Commit} (hf : failing = true) (hw : p.writing = some c) :
      Step rc failing p { p with writing := none, uncleaned := none }
  /-- The overlay cleanup of `process_commits`. -/
  | cleanup {p : Pipeline} {c : Commit} (hw : p.writing = none) (hu : p.uncleaned = some c) :
      Step rc failing p { p with uncleaned := none, overlay := overlayCleanup p.overlay c }
  /-- A whole `process_commits` run by `kill_logs`, alone. -/
  | drain {p : Pipeline} {c : Commit} {rest : List Commit} (hq : p.queue = c :: rest)
      (hw : p.writing = none) (hu : p.uncleaned = none) :
      Step rc failing p
        { p with queue := rest, logged := p.logged ++ [c], overlay := overlayCleanup p.overlay c }
  /-- `kill_logs` popped the head of the queue and failed to write it. -/
  | discard {p : Pipeline} {c : Commit} {rest : List Commit} (hf : failing = true)
      (hq : p.queue = c :: rest) :
      Step rc failing p { p with queue := rest }

/-- The lists an invariant compares: what is logged, being written or queued. -/
def flow (p : Pipeline) : List Commit := p.logged ++ p.writing.toList ++ p.queue

/-- What every run keeps, failures included. -/
structure Ordered (p : Pipeline) : Prop where
  /-- Ids grow in the order `commit_raw` takes the queue lock. -/
  accepted_lt : (p.accepted.map Commit.id).Pairwise (· < ·)
  /-- No accepted id is past `queue.record_id + 1`. -/
  accepted_le : ∀ cm ∈ p.accepted, cm.id ≤ p.recordId + 1
  /-- Logged, in-flight and queued commits are accepted ones, in order, none twice. -/
  flow_sublist : p.flow.Sublist p.accepted
  pending_lt : (p.pending.map Commit.id).Pairwise (· < ·)
  pending_le : ∀ cm ∈ p.pending, cm.id ≤ p.recordId + 1
  /-- The commit being written is the one not cleaned up yet. -/
  writing_uncleaned : p.writing = none ∨ p.writing = p.uncleaned

/-- What runs without failures keep, for the overlay's column flags `rc`. -/
structure Exact (rc : ColId → Bool) (p : Pipeline) : Prop where
  ordered : p.Ordered
  /-- Nothing accepted is lost or reordered. -/
  flow_eq : p.flow = p.accepted
  /-- The pending commits are the newest accepted ones. -/
  pending_suffix : p.pending <:+ p.accepted
  /-- The overlay holds exactly the entries of the pending commits, inserted in order. -/
  overlay_eq : p.overlay = overlayOf rc p.pending

/-! ## Lemmas -/

section Lemmas

variable {rc : ColId → Bool} {failing : Bool} {p p' : Pipeline}

theorem push_pending (p : Pipeline) (cs : List Change) :
    (p.push rc cs).pending = p.pending ++ [⟨p.recordId + 2, changesetBytes cs, cs⟩] := by
  simp [push, pending]

theorem push_flow (p : Pipeline) (cs : List Change) :
    (p.push rc cs).flow = p.flow ++ [⟨p.recordId + 2, changesetBytes cs, cs⟩] := by
  simp [push, flow]

/-- Appending a commit whose id is past every id of a list keeps the list's ids increasing and
bounded by the next `record_id`. -/
theorem ids_append_fresh {l : List Commit} {n : Nat} (hlt : (l.map Commit.id).Pairwise (· < ·))
    (hle : ∀ cm ∈ l, cm.id ≤ n + 1) (cm : Commit) (hid : cm.id = n + 2) :
    ((l ++ [cm]).map Commit.id).Pairwise (· < ·) ∧ ∀ cm' ∈ l ++ [cm], cm'.id ≤ n + 1 + 1 := by
  refine ⟨?_, ?_⟩
  · simp only [List.map_append, List.map_cons, List.map_nil, List.pairwise_append,
      List.pairwise_singleton, List.mem_map, List.mem_singleton, true_and, hlt]
    rintro _ ⟨cm', hm, rfl⟩ _ rfl
    have := hle cm' hm
    omega
  · simp only [List.mem_append, List.mem_singleton]
    rintro cm' (hm | rfl)
    · have := hle cm' hm
      omega
    · omega

theorem Ordered.push (h : p.Ordered) (cs : List Change) : (p.push rc cs).Ordered := by
  obtain ⟨ha, hb⟩ := ids_append_fresh h.accepted_lt h.accepted_le
    ⟨p.recordId + 2, changesetBytes cs, cs⟩ rfl
  obtain ⟨hc, hd⟩ := ids_append_fresh h.pending_lt h.pending_le
    ⟨p.recordId + 2, changesetBytes cs, cs⟩ rfl
  refine ⟨ha, hb, ?_, ?_, ?_, h.writing_uncleaned⟩
  · rw [push_flow]
    exact h.flow_sublist.append (List.Sublist.refl _)
  · rwa [push_pending]
  · rwa [push_pending]

/-- A move that keeps `accepted` and `record_id` and only shrinks the flow and the pending
commits keeps `Ordered`. -/
theorem Ordered.of_sublist (h : p.Ordered) (ha : p'.accepted = p.accepted)
    (hr : p'.recordId = p.recordId) (hf : p'.flow.Sublist p.flow) (hp : p'.pending.Sublist p.pending)
    (hw : p'.writing = none ∨ p'.writing = p'.uncleaned) : p'.Ordered where
  accepted_lt := ha ▸ h.accepted_lt
  accepted_le := ha ▸ hr ▸ h.accepted_le
  flow_sublist := ha ▸ hf.trans h.flow_sublist
  pending_lt := h.pending_lt.sublist (hp.map Commit.id)
  pending_le := hr ▸ fun cm hm => h.pending_le cm (hp.subset hm)
  writing_uncleaned := hw

/-- **Step lemma for `Ordered`.** -/
theorem Ordered.step (h : p.Ordered) (hs : Step rc failing p p') : p'.Ordered := by
  cases hs with
  | stay => exact h
  | push cs => exact h.push cs
  | pop hq hw hu =>
    refine h.of_sublist rfl rfl ?_ ?_ (.inr rfl) <;> simp [flow, pending, hq, hw, hu]
  | close hw =>
    refine h.of_sublist rfl rfl ?_ (List.Sublist.refl _) (.inl rfl)
    simp [flow, hw]
  | abandon _ hw =>
    refine h.of_sublist rfl rfl ?_ ?_ (.inl rfl)
    · simp [flow, hw]
    · simp [pending]
  | cleanup hw hu =>
    refine h.of_sublist rfl rfl (List.Sublist.refl _) ?_ (.inl hw)
    simp [pending, hu]
  | drain hq hw hu =>
    refine h.of_sublist rfl rfl ?_ ?_ (.inl hw)
    · simp [flow, hq, hw]
    · simp [pending, hq, hu]
  | discard _ hq =>
    refine h.of_sublist rfl rfl ?_ ?_ h.writing_uncleaned
    · simp [flow, hq]
    · simp [pending, hq]

/-- The pending commits' ids differ from their head's. -/
theorem Ordered.ne_id_of_pending (h : p.Ordered) {c : Commit} {rest : List Commit}
    (hp : p.pending = c :: rest) : ∀ cm ∈ rest, cm.id ≠ c.id := by
  have := h.pending_lt
  rw [hp, List.map_cons, List.pairwise_cons] at this
  exact fun cm hm => Nat.ne_of_gt (this.1 cm.id (List.mem_map_of_mem _ hm))

/-- Cleaning the head of the pending commits out of their overlay leaves the overlay of the
rest. -/
theorem Ordered.overlayCleanup_head (h : p.Ordered) {c : Commit} {rest : List Commit}
    (hp : p.pending = c :: rest) :
    overlayCleanup (overlayOf rc p.pending) c = overlayOf rc rest := by
  rw [hp]
  exact overlayCleanup_overlayOf_cons rc c rest (h.ne_id_of_pending hp)

/-- **Step lemma for `Exact`**: every move but the two that need a failure keeps it. -/
theorem Exact.step (h : p.Exact rc) (hs : Step rc false p p') : p'.Exact rc := by
  have ho := h.ordered.step hs
  cases hs with
  | stay => exact h
  | push cs =>
    refine ⟨ho, ?_, ?_, ?_⟩
    · rw [push_flow, h.flow_eq]; rfl
    · obtain ⟨t, ht⟩ := h.pending_suffix
      exact ⟨t, by rw [push_pending, ← List.append_assoc, ht]; rfl⟩
    · rw [push_pending, overlayOf_append_singleton, ← h.overlay_eq]; rfl
  | @pop c rest hq hw hu =>
    have hp : p.pending = c :: rest := by simp [pending, hq, hu]
    refine ⟨ho, ?_, ?_, ?_⟩
    · simp [flow, ← h.flow_eq, hq, hw]
    · exact (hp ▸ h.pending_suffix : c :: rest <:+ p.accepted)
    · exact (hp ▸ h.overlay_eq : p.overlay = overlayOf rc (c :: rest))
  | close hw =>
    refine ⟨ho, ?_, h.pending_suffix, h.overlay_eq⟩
    simp [flow, ← h.flow_eq, hw]
  | abandon hf => cases hf
  | @cleanup c hw hu =>
    have hp : p.pending = c :: p.queue := by simp [pending, hu]
    refine ⟨ho, h.flow_eq, ?_, ?_⟩
    · exact (List.suffix_cons _ _).trans (hp ▸ h.pending_suffix)
    · show overlayCleanup p.overlay c = overlayOf rc p.queue
      rw [h.overlay_eq, h.ordered.overlayCleanup_head hp]
  | @drain c rest hq hw hu =>
    have hp : p.pending = c :: rest := by simp [pending, hq, hu]
    refine ⟨ho, ?_, ?_, ?_⟩
    · simp [flow, ← h.flow_eq, hq, hw]
    · simpa [pending, hu] using (List.suffix_cons _ _).trans (hp ▸ h.pending_suffix)
    · show overlayCleanup p.overlay c = overlayOf rc (p.uncleaned.toList ++ rest)
      rw [h.overlay_eq, h.ordered.overlayCleanup_head hp, hu]; rfl
  | discard hf => cases hf

end Lemmas

end Pipeline

end AxiaDb

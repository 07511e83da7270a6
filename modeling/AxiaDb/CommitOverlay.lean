import AxiaDb.Refinement

/-!
# What the commit overlay holds

`commit_raw` overlays every entry of a commit under the commit's id, and `process_commits`,
after writing the commit's record, removes an entry only if it still carries that id. Over the
pipeline this is `Pipeline.Exact.overlay_eq`: in a run without failures the overlay is the
overlay of the pending commits inserted in order. `overlay_represents_pending` spells out what
that means for one key: which keys have an entry, which commit the entry comes from (the
newest pending commit that overlays the key), and that the overlay is empty once nothing is
pending. The older commit's cleanup therefore never removes a newer commit's entry.
-/

namespace AxiaDb

variable {s : Db}

/-- In a run without failures, the overlay entry of `(c, k)` is the one the newest pending
commit left. -/
theorem Reachable.overlay_eq_latestEntry (hr : Reachable false s) (c : ColId) (k : Key) :
    s.overlay c k = latestEntry s.setup.refCounted c k s.pending := by
  rw [show s.overlay = s.pipeline.overlay from rfl, hr.pipeline_exact.overlay_eq, overlayOf_apply]
  rfl

/-- **Commit-overlay representation.** -/
theorem overlay_represents_pending (hr : Reachable false s) (c : ColId) (k : Key) :
    ((s.overlay c k).isSome ↔ ∃ cm ∈ s.pending, ∃ ch ∈ cm.changeset,
        ch.1 = c ∧ ch.2.1 = k ∧ overlaid s.setup.refCounted ch = true) ∧
      (∀ r v, s.overlay c k = some (r, v) → ∃ cm ∈ s.pending, cm.id = r ∧
        lastOverlaid s.setup.refCounted c k cm.changeset = some v ∧
        ∀ cm' ∈ s.pending, (lastOverlaid s.setup.refCounted c k cm'.changeset).isSome →
          cm'.id ≤ r) ∧
      (s.pending = [] → s.overlay c k = none) := by
  rw [hr.overlay_eq_latestEntry]
  refine ⟨?_, fun r v => latestEntry_eq_some_max hr.pipeline_ordered.pending_lt, fun hp => ?_⟩
  · simp only [← lastOverlaid_isSome_iff, Option.isSome_iff_ne_none, ne_eq,
      latestEntry_eq_none_iff, not_forall, exists_prop]
  · rw [hp]; rfl

theorem overlay_represents_pending_after_commit :
    ((Db.committedOne.overlay 0 Key.zero).isSome ↔ ∃ cm ∈ Db.committedOne.pending,
        ∃ ch ∈ cm.changeset, ch.1 = 0 ∧ ch.2.1 = Key.zero ∧
          overlaid Db.committedOne.setup.refCounted ch = true) ∧
      (∀ r v, Db.committedOne.overlay 0 Key.zero = some (r, v) →
        ∃ cm ∈ Db.committedOne.pending, cm.id = r ∧
          lastOverlaid Db.committedOne.setup.refCounted 0 Key.zero cm.changeset = some v ∧
          ∀ cm' ∈ Db.committedOne.pending,
            (lastOverlaid Db.committedOne.setup.refCounted 0 Key.zero cm'.changeset).isSome →
              cm'.id ≤ r) ∧
      (Db.committedOne.pending = [] → Db.committedOne.overlay 0 Key.zero = none) :=
  overlay_represents_pending Reachable.committedOne 0 Key.zero

end AxiaDb

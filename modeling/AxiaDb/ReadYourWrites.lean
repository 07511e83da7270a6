import AxiaDb.CommitOverlay

/-!
# Read your writes

The pipeline as a whole should behave like one map to which each accepted commit is applied
atomically, in id order: `absGet` is that map. `get` reads it in two places, the commit
overlay under its read lock and then, on a miss, the column through the log overlays; this
file shows both paths compute the map.

* `Reachable.get_eq_absGet`: in a run without failures, the overlay entry of a key of a column
  that is not reference counted, or the column if there is none, is the map's value over the
  commits accepted so far;
* `Reachable.readingOk`: a client of `get` or `get_size` between its overlay miss and its
  column read still holds the read lock, so no commit has been accepted since and the overlay
  still misses;
* `get_returns_last_accepted_write`: every value `get` returns is the map's value over the
  commits accepted before `get` took the overlay read lock.
-/

namespace AxiaDb

/-- The map the pipeline implements: the value of `(c, k)` once `cms` are applied in order to
the tables at open, `none` for a key never written or deleted. -/
def absGet (tables : ColId → Key → Option Value) (cms : List Commit) (c : ColId) (k : Key) :
    Option Value :=
  (lastWriteOf c k cms).getD (tables c k)

variable {failing : Bool} {s s' : Db} {t : Thread}

/-! ## The two paths of `get` -/

/-- Of the accepted commits, the newest write of a key is in the pending commits if any of
them writes it, and otherwise among the logged ones. -/
theorem Reachable.lastWriteOf_accepted (hr : Reachable false s) (c : ColId) (k : Key) :
    lastWriteOf c k s.ghost.accepted =
      (lastWriteOf c k s.pending).or (lastWriteOf c k (commitsOf s.closed)) := by
  have he := hr.pipeline_exact
  cases hp : lastWriteOf c k s.pending with
  | some w =>
    obtain ⟨pre, hpre⟩ := he.pending_suffix
    rw [← show s.pipeline.accepted = s.ghost.accepted from rfl, ← hpre, lastWriteOf_append]
    rw [show s.pipeline.pending = s.pending from rfl, hp]; rfl
  | none =>
    have hin : ∀ cm ∈ s.pipeline.writing.toList ++ s.pipeline.queue, cm ∈ s.pipeline.pending := by
      intro cm hm
      rcases he.ordered.writing_uncleaned with hw | hw
      · exact List.mem_append_right _ (by simpa [hw] using hm)
      · rw [hw] at hm; exact hm
    have hrest : lastWriteOf c k (s.pipeline.writing.toList ++ s.pipeline.queue) = none :=
      (lastWriteOf_eq_none_iff c k _).2 fun cm hm =>
        (lastWriteOf_eq_none_iff c k _).1 hp cm (hin cm hm)
    rw [← show s.pipeline.accepted = s.ghost.accepted from rfl, ← he.flow_eq, Pipeline.flow,
      List.append_assoc, lastWriteOf_append, hrest, Option.none_or]
    rfl

/-- **The two paths of `get`.** In a run without failures, for a column that is not reference
counted, the overlay entry, or on a miss the column read through the log overlays, is the
map's value over every accepted commit. -/
theorem Reachable.get_eq_absGet (hr : Reachable false s) {c : ColId}
    (hc : s.setup.refCounted c = false) (k : Key) :
    ((s.overlay c k).map Prod.snd).getD (columnGet s.setup.tables s.closed c k) =
      absGet s.setup.tables s.ghost.accepted c k := by
  rw [absGet, hr.lastWriteOf_accepted, ← latestEntry_snd_of_not_refCounted hc,
    ← hr.overlay_eq_latestEntry]
  cases s.overlay c k <;> rfl

/-! ## Readers hold the read lock -/

/-- A client between its overlay miss and its column read: the overlay still misses its key,
and in `get` exactly `n` commits are accepted, as when it took the read lock. -/
def Db.ReadingOk (s : Db) : Prop :=
  (∀ (i : Nat) (c : ColId) (k : Key) (n : Nat), s.clients[i]? = some (.reading c k n) →
    s.overlay c k = none ∧ s.ghost.accepted.length = n) ∧
  ∀ (i : Nat) (c : ColId) (k : Key), s.clients[i]? = some (.readingSize c k) → s.overlay c k = none

theorem Db.noReaders_eq_false {i : Nat} {p : ClientPc} (h : s.clients[i]? = some p)
    (hp : p.isReading = true) : s.noReaders = false := by
  simp only [Db.noReaders, List.all_eq_false]
  exact ⟨_, List.mem_iff_getElem?.2 ⟨i, h⟩, by simp [hp]⟩

theorem Db.setClient_getElem?_self {i : Nat} {q : ClientPc} (h : s.clients[i]? = some q)
    (p : ClientPc) : (s.setClient i p).clients[i]? = some p :=
  List.getElem?_set_self ((List.getElem?_eq_some_iff.1 h).1)

/-- While a client holds the overlay read lock, no section changes the overlay or the
accepted commits: `commit_raw` and the cleanup of `process_commits` need the write lock, and
`kill_logs` runs only after every client has returned. -/
theorem Step.overlay_accepted_eq (hr : Reachable failing s) (h : Step failing s t s')
    (hrd : s.noReaders = false) : s'.overlay = s.overlay ∧ s'.ghost.accepted = s.ghost.accepted := by
  cases h with
  | commitPush _ _ _ _ _ _ hnr => simp_all
  | retryPush _ _ _ hnr => simp_all
  | cleanup _ _ _ hnr => simp_all
  | killCommitSome _ _ _ hd _ =>
    have hi := hr.clients_idle (by simp [hd])
    have : s.noReaders = true := by
      simp only [Db.noReaders, List.all_eq_true]
      intro p hp
      obtain ⟨i, hi'⟩ := List.mem_iff_getElem?.1 hp
      have := hi i p hi'
      cases p <;> simp_all [ClientPc.isIdle, ClientPc.isReading]
    simp_all
  | _ =>
    first
    | exact ⟨rfl, rfl⟩
    | (split <;> exact ⟨rfl, rfl⟩)
    | exact ⟨by simp [Db.setWorker, Db.finishReindex, Db.debitLog],
        by simp [Db.setWorker, Db.finishReindex, Db.debitLog]⟩

/-- A client holding the overlay read lock after another thread's section held it before,
and the section left the overlay and the accepted commits alone. -/
theorem Step.reader_frame (hr : Reachable failing s) (h : Step failing s t s') {i : Nat}
    (ht : t ≠ .client i) {p : ClientPc} (hrd : s'.clients[i]? = some p)
    (hp : p.isReading = true) :
    s.clients[i]? = some p ∧ s'.overlay = s.overlay ∧ s'.ghost.accepted = s.ghost.accepted := by
  rcases h.client_frame ht with hs | ⟨cs, -, hs⟩
  · rw [hs] at hrd
    exact ⟨hrd, h.overlay_accepted_eq hr (Db.noReaders_eq_false hrd hp)⟩
  · rw [hs] at hrd
    cases hrd
    simp [ClientPc.isReading] at hp

/-- **Step lemma for `ReadingOk`.** -/
theorem Db.ReadingOk.step (hr : Reachable failing s) (hi : s.ReadingOk)
    (h : Step failing s t s') : s'.ReadingOk := by
  refine ⟨fun i c k n hrd => ?_, fun i c k hrd => ?_⟩
  · by_cases ht : t = .client i
    · subst ht
      cases h with
      | getMiss hi' _ _ _ ho =>
        rw [Db.setClient_getElem?_self hi'] at hrd
        cases hrd
        exact ⟨ho, rfl⟩
      | _ => simp [Db.setClient, Db.pushCommit, Db.signal, List.getElem?_set] at hrd
    · obtain ⟨hs, ho, ha⟩ := h.reader_frame hr ht hrd rfl
      exact ⟨ho ▸ (hi.1 i c k n hs).1, ha ▸ (hi.1 i c k n hs).2⟩
  · by_cases ht : t = .client i
    · subst ht
      cases h with
      | getSizeMiss hi' _ _ _ ho =>
        rw [Db.setClient_getElem?_self hi'] at hrd
        cases hrd
        exact ho
      | _ => simp [Db.setClient, Db.pushCommit, Db.signal, List.getElem?_set] at hrd
    · obtain ⟨hs, ho, -⟩ := h.reader_frame hr ht hrd rfl
      exact ho ▸ hi.2 i c k hs

/-- **Run lemma for `ReadingOk`.** -/
theorem Reachable.readingOk (hr : Reachable failing s) : s.ReadingOk := by
  induction hr with
  | init σ => constructor <;> intros <;> simp_all [Db.init, List.getElem?_replicate]
  | step hr hs ih => exact ih.step hr hs

/-! ## Every `get` -/

/-- **Read your writes.** -/
theorem get_returns_last_accepted_write (hr : Reachable false s) {i : Nat}
    (hs : Step false s (.client i) s') {c : ColId} {k : Key} {v : Option Value}
    (hc : s.setup.refCounted c = false) (hv : s'.clients[i]? = some (.idle (some (.got c k v)))) :
    v = absGet s.setup.tables s.ghost.accepted c k ∧
      ∀ n, s.clients[i]? = some (.reading c k n) → n = s.ghost.accepted.length := by
  cases hs with
  | getHit hi _ _ _ ho =>
    rw [Db.setClient_getElem?_self hi] at hv
    cases hv
    refine ⟨?_, fun n h => by simp [hi] at h⟩
    rw [← hr.get_eq_absGet hc, ho]; rfl
  | columnGet hi =>
    rw [Db.setClient_getElem?_self hi] at hv
    cases hv
    obtain ⟨ho, hn⟩ := hr.readingOk.1 _ _ _ _ hi
    refine ⟨?_, fun n h => ?_⟩
    · rw [← hr.get_eq_absGet hc, ho]; rfl
    · rw [hi] at h; cases h; exact hn.symm
  | _ => simp [Db.setClient, Db.pushCommit, Db.signal, List.getElem?_set] at hv

theorem get_returns_last_accepted_write_after_commit :
    some [1] = absGet Db.committedOne.setup.tables Db.committedOne.ghost.accepted 0 Key.zero ∧
      ∀ n, Db.committedOne.clients[0]? = some (.reading 0 Key.zero n) →
        n = Db.committedOne.ghost.accepted.length :=
  get_returns_last_accepted_write Reachable.committedOne
    (@Step.getHit _ _ 0 _ 0 Key.zero 2 (some [1]) rfl rfl rfl rfl rfl) rfl rfl

end AxiaDb

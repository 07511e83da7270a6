import AxiaDb.LogAccount

/-!
# `get_size`

`get_size` reads the commit overlay under its read lock like `get`, and on a hit returns the
overlaid value's length cast `as u32`; on a miss it asks `Column::get_size` through the log
overlays. `commit_raw` accepts values of any length.

* `Step.got_eq_get`, `Step.gotSize_eq_getSize`: `Db.get` and `Db.getSize` are what a `get`
  and a `get_size` call return, read in the state of the section that returns it.
* `Db.getSize_eq_of_lt`: `get_size` is the length of what `get` returns whenever the overlaid
  value is shorter than `2 ^ 32` bytes.
* `get_size_wraps_overlay_length`: the cast wraps. A value of `2 ^ 32` bytes, 4 GiB, that is
  still in the commit overlay has `get_size` `Some(0)`.
-/

namespace AxiaDb

variable {failing : Bool} {s s' : Db}

/-- `get(col, key)` on the state `s`: the commit overlay's entry, and on a miss
`Column::get(key, log.overlays())`. -/
def Db.get (s : Db) (c : ColId) (k : Key) : Option Value :=
  ((s.overlay c k).map Prod.snd).getD (columnGet s.setup.tables s.closed c k)

/-- `get_size(col, key)` on the state `s`, its `u32` read as a number: the overlaid value's
`v.len() as u32`, and on a miss `Column::get_size`. -/
def Db.getSize (s : Db) (c : ColId) (k : Key) : Option Nat :=
  ((s.overlay c k).map fun e => e.2.map fun v => v.length % 2 ^ 32).getD
    (columnGetSize s.setup.tables s.closed c k)

/-- **`Db.get` is what `get` returns.** A section of client `i` that returns a value for
`(c, k)` returns `Db.get` of the state it runs in: the overlay's value on a hit, and the
column's after a miss, since the client still holds the overlay read lock. -/
theorem Step.got_eq_get (hr : Reachable failing s) {i : Nat} {c : ColId} {k : Key}
    {v : Option Value} (h : Step failing s (.client i) s')
    (hv : s'.clients[i]? = some (.idle (some (.got c k v)))) : v = s.get c k := by
  cases h with
  | getHit hi _ _ _ ho =>
    rw [Db.setClient_getElem?_self hi] at hv
    cases hv
    simp [Db.get, ho]
  | columnGet hi =>
    rw [Db.setClient_getElem?_self hi] at hv
    cases hv
    simp [Db.get, (hr.readingOk.1 _ _ _ _ hi).1]
  | _ => simp [Db.setClient, Db.pushCommit, Db.signal, List.getElem?_set] at hv

/-- **`Db.getSize` is what `get_size` returns.** A section of client `i` that returns a size for
`(c, k)` returns `Db.getSize` of the state it runs in. -/
theorem Step.gotSize_eq_getSize (hr : Reachable failing s) {i : Nat} {c : ColId} {k : Key}
    {n : Option Nat} (h : Step failing s (.client i) s')
    (hn : s'.clients[i]? = some (.idle (some (.gotSize c k n)))) : n = s.getSize c k := by
  cases h with
  | getSizeHit hi _ _ _ ho =>
    rw [Db.setClient_getElem?_self hi] at hn
    cases hn
    simp [Db.getSize, ho]
  | columnGetSize hi =>
    rw [Db.setClient_getElem?_self hi] at hn
    cases hn
    simp [Db.getSize, hr.readingOk.2 _ _ _ hi]
  | _ => simp [Db.setClient, Db.pushCommit, Db.signal, List.getElem?_set] at hn

/-- On a miss both calls read the column, and on a hit the cast keeps a length under
`2 ^ 32`. -/
theorem Db.getSize_eq_of_lt (s : Db) (c : ColId) (k : Key)
    (hv : ∀ n v, s.overlay c k = some (n, some v) → v.length < 2 ^ 32) :
    s.getSize c k = (s.get c k).map List.length := by
  rcases ho : s.overlay c k with _ | ⟨n, _ | v⟩
  · simp [Db.getSize, Db.get, columnGetSize, ho]
  · simp [Db.getSize, Db.get, ho]
  · simp only [Db.getSize, Db.get, ho, Option.map_some', Option.getD_some,
      Nat.mod_eq_of_lt (hv n v ho)]

/-! ## What the overlay holds -/

/-- The value `commit_raw` overlays for `(c, k)` is one its changeset writes there. -/
theorem mem_of_lastOverlaid {rc : ColId → Bool} {c : ColId} {k : Key} {v : Value} :
    ∀ {cs : List Change}, lastOverlaid rc c k cs = some (some v) →
      ((c, k, some v) : Change) ∈ cs
  | [], h => by simp [lastOverlaid, lastChange] at h
  | ch :: cs, h => by
    rw [lastOverlaid_cons] at h
    cases hl : lastOverlaid rc c k cs with
    | some w =>
      rw [hl] at h
      exact List.mem_cons_of_mem _ (mem_of_lastOverlaid (hl.trans h))
    | none =>
      rw [hl, Option.none_or] at h
      split at h
      · rename_i hm
        obtain ⟨rfl, rfl, -⟩ := hm
        rw [← Option.some.inj h]
        exact List.mem_cons_self _ _
      · cases h

/-- Every value in the commit overlay was written by an accepted commit. -/
def Db.OverlaidAccepted (s : Db) : Prop :=
  ∀ c k n v, s.overlay c k = some (n, some v) →
    ∃ cm ∈ s.ghost.accepted, ((c, k, some v) : Change) ∈ cm.changeset

/-- **Step lemma for `OverlaidAccepted`.** `commit_raw` overlays its own changeset as it
accepts it, and the cleanups only remove entries. -/
theorem Db.OverlaidAccepted.step (hi : s.OverlaidAccepted) (h : Step failing s t s') :
    s'.OverlaidAccepted := by
  have push : ∀ cs, (s.pushCommit cs).OverlaidAccepted := fun cs c k n v ho => by
    simp only [Db.pushCommit, overlayCommit_apply] at ho
    cases hl : lastOverlaid s.setup.refCounted c k cs with
    | some w =>
      rw [hl] at ho
      cases ho
      exact ⟨_, List.mem_append_right _ (List.mem_singleton_self _), mem_of_lastOverlaid hl⟩
    | none =>
      simp only [hl, Option.map_none', Option.none_or] at ho
      obtain ⟨cm, hcm, hm⟩ := hi c k n v ho
      exact ⟨cm, List.mem_append_left _ hcm, hm⟩
  have keep : ∀ s₀ : Db, s₀.overlay = s.overlay → s₀.ghost.accepted = s.ghost.accepted →
      s₀.OverlaidAccepted := fun s₀ ho ha => by
    unfold Db.OverlaidAccepted; rw [ho, ha]; exact hi
  have clean : ∀ (s₀ : Db) (cm : Commit), s₀.OverlaidAccepted →
      (s₀.cleanupOverlay cm).OverlaidAccepted :=
    fun s₀ cm h₀ c k n v ho => by
      simp only [Db.cleanupOverlay, overlayCleanup_apply] at ho
      split at ho
      · cases ho
      · exact h₀ c k n v ho
  cases h with
  | commitPush | retryPush => exact push _
  | cleanup => exact clean s _ hi
  | killCommitSome =>
    unfold Db.processCommit
    split <;> exact clean _ _ hi
  | storeErr => exact keep _ (by simp [Db.setWorker]) (by simp [Db.setWorker])
  | scanRecord => exact keep _ (by simp) (by simp)
  | enactRecord => exact keep _ (by simp) (by simp)
  | killEnactSome => exact keep _ (by simp [Db.debitLog]) (by simp [Db.debitLog])
  | _ => first | exact hi | (split <;> exact hi)

/-- **Run lemma for `OverlaidAccepted`.** -/
theorem Reachable.overlaidAccepted (hr : Reachable failing s) : s.OverlaidAccepted := by
  induction hr with
  | init σ => intro _ _ _ _ ho; simp [Db.init] at ho
  | step _ hs ih => exact ih.step hs

/-- **Below 4 GiB `get_size` agrees with `get`.** In every reachable state, failures included,
if no accepted commit wrote a value of `2 ^ 32` bytes or more, `get_size` is the length of
what `get` returns. -/
theorem get_size_agrees_below_4GiB (hr : Reachable failing s)
    (hv : ∀ cm ∈ s.ghost.accepted, ∀ ch ∈ cm.changeset, ∀ v : Value, ch.2.2 = some v →
      v.length < 2 ^ 32)
    (c : ColId) (k : Key) : s.getSize c k = (s.get c k).map List.length :=
  s.getSize_eq_of_lt c k fun _ v ho => by
    obtain ⟨cm, hcm, hm⟩ := hr.overlaidAccepted c k _ v ho
    exact hv cm hcm _ hm v rfl

theorem get_size_agrees_below_4GiB_after_commit :
    Db.committedOne.getSize 0 Key.zero = (Db.committedOne.get 0 Key.zero).map List.length :=
  get_size_agrees_below_4GiB Reachable.committedOne (fun cm hcm ch hch v hv => by
    simp [Db.committedOne, Db.pushCommit, Db.setClient, Db.signal, Db.init] at hcm
    subst hcm
    simp [Change.zeroKey] at hch
    subst hch
    cases hv
    decide) 0 Key.zero

/-- One client commits the value `v` under the zero key of column `0`; the commit is still in
the overlay. Stated for any `v`, so that no step computes the length of a concrete value. -/
theorem Reachable.exists_overlaid (v : Value) :
    ∃ s, Reachable false s ∧ s.get 0 Key.zero = some v ∧
      s.getSize 0 Key.zero = some (v.length % 2 ^ 32) :=
  ⟨_, (Reachable.init (Setup.oneColumn 0 1)).step (@Step.commitPush _ _ 0 none (Change.zeroKey v)
    rfl rfl (Change.zeroKey_validCol v 0 1) rfl (by decide) rfl rfl), rfl, rfl⟩

/-- **`get_size` wraps at 4 GiB.** After a commit of `2 ^ 32` zero bytes, `get` returns them
while `get_size` returns `Some(0)`. -/
theorem get_size_wraps_overlay_length :
    ∃ s c k, Reachable false s ∧ s.get c k = some (Value.zeros (2 ^ 32)) ∧
      s.getSize c k = some 0 ∧ s.getSize c k ≠ (s.get c k).map List.length := by
  obtain ⟨s, hr, hg, hs⟩ := Reachable.exists_overlaid (Value.zeros (2 ^ 32))
  rw [Value.zeros, List.length_replicate, Nat.mod_self] at hs
  refine ⟨s, 0, Key.zero, hr, hg, hs, ?_⟩
  rw [hs, hg, Option.map_some', Value.zeros, List.length_replicate]
  exact fun h => absurd (Option.some_injective _ h) (by positivity)

end AxiaDb

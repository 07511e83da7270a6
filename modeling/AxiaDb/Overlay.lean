import AxiaDb.Basic

/-!
# The commit overlay

`DbInner::commit_overlay` holds, per column, the newest value of every key a queued commit
writes, so that `get` sees a commit as soon as `commit_raw` returns. Two loops of `src/db.rs`
touch it:

* `commit_raw` inserts every entry of the changeset under the commit's id, except a deletion
  in a reference-counted column (`overlayCommit`);
* `process_commits`, once the commit's record is written, removes an entry only if it still
  carries that commit's id (`overlayCleanup`).

The lemmas here describe both loops pointwise (`overlayCommit_apply`, `overlayCleanup_apply`)
and show the fact the pipeline rests on: inserting commits in order and then cleaning up the
oldest one leaves exactly the overlay of the others (`overlayCleanup_overlayOf_cons`).
`latestEntry` reads off which commit an entry comes from.
-/

namespace AxiaDb

/-- `commit_overlay`: for each column, `Key → (record id, value)`. -/
abbrev Overlay := ColId → Key → Option (Nat × Option Value)

namespace Overlay

/-- The overlay `DbInner::open` starts with: one empty map per column. -/
def empty : Overlay := fun _ _ => none

/-- `HashMap::insert` into column `c`'s map. -/
def insert (o : Overlay) (c : ColId) (k : Key) (e : Nat × Option Value) : Overlay :=
  Function.update o c (Function.update (o c) k (some e))

/-- `OccupiedEntry::remove_entry` on column `c`'s map. -/
def erase (o : Overlay) (c : ColId) (k : Key) : Overlay :=
  Function.update o c (Function.update (o c) k none)

@[simp] theorem empty_apply (c : ColId) (k : Key) : empty c k = none := rfl

theorem insert_apply (o : Overlay) (c : ColId) (k : Key) (e : Nat × Option Value) (c' : ColId)
    (k' : Key) : o.insert c k e c' k' = if c' = c ∧ k' = k then some e else o c' k' := by
  by_cases hc : c' = c
  · subst hc
    by_cases hk : k' = k <;> simp [insert, Function.update, hk]
  · simp [insert, Function.update, hc]

theorem erase_apply (o : Overlay) (c : ColId) (k : Key) (c' : ColId) (k' : Key) :
    o.erase c k c' k' = if c' = c ∧ k' = k then none else o c' k' := by
  by_cases hc : c' = c
  · subst hc
    by_cases hk : k' = k <;> simp [erase, Function.update, hk]
  · simp [erase, Function.update, hc]

end Overlay

/-! ## The two loops of `src/db.rs` -/

/-- Whether `commit_raw` puts a changeset entry into the overlay: every entry except a
deletion in a reference-counted column. -/
def overlaid (refCounted : ColId → Bool) (ch : Change) : Bool :=
  !refCounted ch.1 || ch.2.2.isSome

/-- One turn of `commit_raw`'s loop over the changeset. -/
def ingestEntry (refCounted : ColId → Bool) (id : Nat) (o : Overlay) (ch : Change) : Overlay :=
  if overlaid refCounted ch then o.insert ch.1 ch.2.1 (id, ch.2.2) else o

/-- `commit_raw`'s overlay writes for a commit with id `id`. -/
def overlayCommit (refCounted : ColId → Bool) (id : Nat) (o : Overlay) (cs : List Change) :
    Overlay :=
  cs.foldl (ingestEntry refCounted id) o

/-- One turn of the cleanup loop of `process_commits`: the entry goes only if it still holds
the commit's id. -/
def cleanupEntry (id : Nat) (o : Overlay) (ch : Change) : Overlay :=
  match o ch.1 ch.2.1 with
  | some (r, _) => if r = id then o.erase ch.1 ch.2.1 else o
  | none => o

/-- The overlay cleanup of `process_commits` after the commit's record has been written. -/
def overlayCleanup (o : Overlay) (cm : Commit) : Overlay :=
  cm.changeset.foldl (cleanupEntry cm.id) o

/-! ## Reading the loops pointwise -/

/-- The last value a changeset writes to `(c, k)`, if it writes it at all. -/
def lastChange (c : ColId) (k : Key) : List Change → Option (Option Value)
  | [] => none
  | ch :: cs => (lastChange c k cs).or (if ch.1 = c ∧ ch.2.1 = k then some ch.2.2 else none)

/-- The last value of `(c, k)` that `commit_raw` would put into the overlay. -/
def lastOverlaid (refCounted : ColId → Bool) (c : ColId) (k : Key) (cs : List Change) :
    Option (Option Value) :=
  lastChange c k (cs.filter (overlaid refCounted))

theorem lastOverlaid_cons (rc : ColId → Bool) (c : ColId) (k : Key) (ch : Change)
    (cs : List Change) : lastOverlaid rc c k (ch :: cs) = (lastOverlaid rc c k cs).or
      (if ch.1 = c ∧ ch.2.1 = k ∧ overlaid rc ch = true then some ch.2.2 else none) := by
  by_cases h : overlaid rc ch = true
  · simp [lastOverlaid, List.filter_cons, h, lastChange]
  · simp [lastOverlaid, List.filter_cons, h]

/-- In a column that is not reference counted every entry is overlaid. -/
theorem lastOverlaid_of_not_refCounted {rc : ColId → Bool} {c : ColId} (hc : rc c = false)
    (k : Key) (cs : List Change) : lastOverlaid rc c k cs = lastChange c k cs := by
  induction cs with
  | nil => rfl
  | cons ch cs ih =>
    rw [lastOverlaid_cons, ih, lastChange]
    by_cases hm : ch.1 = c ∧ ch.2.1 = k
    · obtain ⟨rfl, rfl⟩ := hm
      simp [overlaid, hc]
    · rw [if_neg (fun h => hm ⟨h.1, h.2.1⟩), if_neg hm]

theorem overlayCommit_apply (rc : ColId → Bool) (id : Nat) (o : Overlay) (cs : List Change)
    (c : ColId) (k : Key) :
    overlayCommit rc id o cs c k = ((lastOverlaid rc c k cs).map (id, ·)).or (o c k) := by
  induction cs generalizing o with
  | nil => rfl
  | cons ch cs ih =>
    rw [overlayCommit, List.foldl_cons, ← overlayCommit, ih, lastOverlaid_cons]
    cases lastOverlaid rc c k cs with
    | some v => rfl
    | none =>
      by_cases hm : ch.1 = c ∧ ch.2.1 = k ∧ overlaid rc ch = true
      · simp [ingestEntry, Overlay.insert_apply, hm]
      · simp only [ingestEntry, if_neg hm, Option.map_none, Option.none_or]
        split
        · rename_i ho
          rw [Overlay.insert_apply, if_neg]
          exact fun h => hm ⟨h.1.symm, h.2.symm, ho⟩
        · rfl

theorem cleanupEntry_apply (id : Nat) (o : Overlay) (ch : Change) (c : ColId) (k : Key) :
    cleanupEntry id o ch c k =
      if ch.1 = c ∧ ch.2.1 = k ∧ (o c k).map Prod.fst = some id then none else o c k := by
  unfold cleanupEntry
  cases he : o ch.1 ch.2.1 with
  | none =>
    by_cases hm : ch.1 = c ∧ ch.2.1 = k
    · obtain ⟨rfl, rfl⟩ := hm
      simp [he]
    · rw [if_neg (fun h => hm ⟨h.1, h.2.1⟩)]
  | some e =>
    obtain ⟨r, v⟩ := e
    by_cases hm : ch.1 = c ∧ ch.2.1 = k
    · obtain ⟨rfl, rfl⟩ := hm
      by_cases hr : r = id <;> simp [hr, he, Overlay.erase_apply]
    · rw [if_neg (fun h => hm ⟨h.1, h.2.1⟩)]
      dsimp only
      split_ifs
      · rw [Overlay.erase_apply, if_neg (fun h => hm ⟨h.1.symm, h.2.symm⟩)]
      · rfl

theorem foldl_cleanupEntry_apply (id : Nat) (o : Overlay) (cs : List Change) (c : ColId)
    (k : Key) : cs.foldl (cleanupEntry id) o c k =
      if (∃ ch ∈ cs, ch.1 = c ∧ ch.2.1 = k) ∧ (o c k).map Prod.fst = some id then none
      else o c k := by
  induction cs generalizing o with
  | nil => simp
  | cons ch cs ih =>
    rw [List.foldl_cons, ih, cleanupEntry_apply]
    by_cases hm : ch.1 = c ∧ ch.2.1 = k
    · by_cases hf : (o c k).map Prod.fst = some id <;> simp [hm, hf]
    · have hc : ¬(ch.1 = c ∧ ch.2.1 = k ∧ (o c k).map Prod.fst = some id) :=
        fun h => hm ⟨h.1, h.2.1⟩
      rw [if_neg hc]
      simp only [List.mem_cons, exists_eq_or_imp, hm, false_or]

/-- The cleanup of `process_commits`, pointwise: an entry disappears exactly when the commit
wrote its key and it still holds the commit's id. -/
theorem overlayCleanup_apply (o : Overlay) (cm : Commit) (c : ColId) (k : Key) :
    overlayCleanup o cm c k =
      if (∃ ch ∈ cm.changeset, ch.1 = c ∧ ch.2.1 = k) ∧ (o c k).map Prod.fst = some cm.id
      then none else o c k :=
  foldl_cleanupEntry_apply cm.id o cm.changeset c k

/-! ## The overlay of a list of commits -/

/-- The overlay that inserting `cms` in order, as `commit_raw` does, gives from an empty one. -/
def overlayOf (rc : ColId → Bool) (cms : List Commit) : Overlay :=
  cms.foldl (fun o cm => overlayCommit rc cm.id o cm.changeset) Overlay.empty

/-- The entry the newest of `cms` that overlays `(c, k)` leaves there. -/
def latestEntry (rc : ColId → Bool) (c : ColId) (k : Key) : List Commit → Option (Nat × Option Value)
  | [] => none
  | cm :: cms => (latestEntry rc c k cms).or ((lastOverlaid rc c k cm.changeset).map (cm.id, ·))

@[simp] theorem overlayOf_nil (rc : ColId → Bool) : overlayOf rc [] = Overlay.empty := rfl

theorem overlayOf_append_singleton (rc : ColId → Bool) (cms : List Commit) (cm : Commit) :
    overlayOf rc (cms ++ [cm]) = overlayCommit rc cm.id (overlayOf rc cms) cm.changeset := by
  simp [overlayOf, List.foldl_append]

theorem foldl_overlayCommit_apply (rc : ColId → Bool) (cms : List Commit) (o : Overlay)
    (c : ColId) (k : Key) :
    cms.foldl (fun o cm => overlayCommit rc cm.id o cm.changeset) o c k =
      (latestEntry rc c k cms).or (o c k) := by
  induction cms generalizing o with
  | nil => rfl
  | cons cm cms ih =>
    rw [List.foldl_cons, ih, overlayCommit_apply, latestEntry, Option.or_assoc]

theorem overlayOf_apply (rc : ColId → Bool) (cms : List Commit) (c : ColId) (k : Key) :
    overlayOf rc cms c k = latestEntry rc c k cms := by
  rw [overlayOf, foldl_overlayCommit_apply, Overlay.empty_apply, Option.or_none]

theorem latestEntry_eq_none_iff (rc : ColId → Bool) (c : ColId) (k : Key) (cms : List Commit) :
    latestEntry rc c k cms = none ↔ ∀ cm ∈ cms, lastOverlaid rc c k cm.changeset = none := by
  induction cms with
  | nil => simp [latestEntry]
  | cons cm cms ih => simp [latestEntry, ih, and_comm]

/-- An entry of the overlay of `cms` names a commit of `cms` and that commit's last overlaid
value; no later commit of `cms` overlays the key. -/
theorem latestEntry_eq_some {rc : ColId → Bool} {c : ColId} {k : Key} :
    ∀ {cms : List Commit} {r : Nat} {v : Option Value}, latestEntry rc c k cms = some (r, v) →
      ∃ l₁ cm l₂, cms = l₁ ++ cm :: l₂ ∧ cm.id = r ∧ lastOverlaid rc c k cm.changeset = some v ∧
        ∀ cm' ∈ l₂, lastOverlaid rc c k cm'.changeset = none
  | [], _, _, h => by simp [latestEntry] at h
  | cm :: cms, r, v, h => by
    cases hl : latestEntry rc c k cms with
    | some e =>
      have he : e = (r, v) := by simpa [latestEntry, hl] using h
      obtain ⟨l₁, cm', l₂, rfl, h₁, h₂, h₃⟩ := latestEntry_eq_some (hl.trans (congrArg some he))
      exact ⟨cm :: l₁, cm', l₂, rfl, h₁, h₂, h₃⟩
    | none =>
      rw [latestEntry, hl, Option.none_or, Option.map_eq_some'] at h
      obtain ⟨v', hv, he⟩ := h
      cases he
      exact ⟨[], cm, cms, rfl, rfl, hv, (latestEntry_eq_none_iff rc c k cms).1 hl⟩

theorem latestEntry_fst_mem {rc : ColId → Bool} {c : ColId} {k : Key} {cms : List Commit}
    {r : Nat} {v : Option Value} (h : latestEntry rc c k cms = some (r, v)) :
    ∃ cm ∈ cms, cm.id = r := by
  obtain ⟨l₁, cm, l₂, rfl, h₁, -⟩ := latestEntry_eq_some h
  exact ⟨cm, by simp, h₁⟩

/-- A changeset overlays `(c, k)` exactly when one of its entries writes `(c, k)` and is not a
deletion in a reference-counted column. -/
theorem lastOverlaid_isSome_iff (rc : ColId → Bool) (c : ColId) (k : Key) (cs : List Change) :
    (lastOverlaid rc c k cs).isSome ↔ ∃ ch ∈ cs, ch.1 = c ∧ ch.2.1 = k ∧ overlaid rc ch = true := by
  induction cs with
  | nil => simp [lastOverlaid, lastChange]
  | cons ch cs ih =>
    rw [lastOverlaid_cons]
    by_cases hm : ch.1 = c ∧ ch.2.1 = k ∧ overlaid rc ch = true
    · simp [hm]
    · rw [if_neg hm, Option.or_none, ih]
      simp only [List.mem_cons, exists_eq_or_imp, hm, false_or]

/-- Over commits in increasing id order, the overlay entry of `(c, k)` comes from the commit
with the greatest id among those that overlay `(c, k)`, and holds its last overlaid value. -/
theorem latestEntry_eq_some_max {rc : ColId → Bool} {c : ColId} {k : Key} {cms : List Commit}
    (hs : (cms.map Commit.id).Pairwise (· < ·)) {r : Nat} {v : Option Value}
    (h : latestEntry rc c k cms = some (r, v)) :
    ∃ cm ∈ cms, cm.id = r ∧ lastOverlaid rc c k cm.changeset = some v ∧
      ∀ cm' ∈ cms, (lastOverlaid rc c k cm'.changeset).isSome → cm'.id ≤ r := by
  obtain ⟨l₁, cm, l₂, rfl, rfl, hv, hl₂⟩ := latestEntry_eq_some h
  refine ⟨cm, by simp, rfl, hv, fun cm' hm ho => ?_⟩
  rw [List.map_append, List.map_cons, List.pairwise_append, List.pairwise_cons] at hs
  rcases List.mem_append.1 hm with h₁ | h₂
  · exact Nat.le_of_lt (hs.2.2 _ (List.mem_map_of_mem _ h₁) _ (List.mem_cons_self _ _))
  · rcases List.mem_cons.1 h₂ with rfl | h₂
    · exact Nat.le_refl _
    · simp [hl₂ cm' h₂] at ho

theorem exists_mem_of_lastOverlaid_isSome {rc : ColId → Bool} {c : ColId} {k : Key} :
    ∀ {cs : List Change}, (lastOverlaid rc c k cs).isSome → ∃ ch ∈ cs, ch.1 = c ∧ ch.2.1 = k
  | [], h => by simp [lastOverlaid, lastChange] at h
  | ch :: cs, h => by
    rw [lastOverlaid_cons] at h
    by_cases hm : ch.1 = c ∧ ch.2.1 = k
    · exact ⟨ch, List.mem_cons_self _ _, hm⟩
    · rw [if_neg (fun h => hm ⟨h.1, h.2.1⟩), Option.or_none] at h
      obtain ⟨ch', hm', he⟩ := exists_mem_of_lastOverlaid_isSome h
      exact ⟨ch', List.mem_cons_of_mem _ hm', he⟩

/-- **Cleaning up the oldest commit.** If the overlay holds exactly the inserts of `cm`
followed by those of `q`, and no commit of `q` shares `cm`'s id, the cleanup of `cm` leaves
exactly the overlay of `q`: entries of `cm` that a later commit overwrote survive, the others
go. -/
theorem overlayCleanup_overlayOf_cons (rc : ColId → Bool) (cm : Commit) (q : List Commit)
    (hq : ∀ cm' ∈ q, cm'.id ≠ cm.id) :
    overlayCleanup (overlayOf rc (cm :: q)) cm = overlayOf rc q := by
  funext c k
  rw [overlayCleanup_apply, overlayOf_apply, overlayOf_apply, latestEntry]
  cases hl : latestEntry rc c k q with
  | some e =>
    obtain ⟨r, v⟩ := e
    obtain ⟨cm', hm, hid⟩ := latestEntry_fst_mem hl
    simp [hid ▸ hq cm' hm]
  | none =>
    cases ho : lastOverlaid rc c k cm.changeset with
    | none => simp
    | some v =>
      obtain ⟨ch, hmem, rfl, rfl⟩ :=
        exists_mem_of_lastOverlaid_isSome (by simp [ho] : (lastOverlaid rc c k cm.changeset).isSome)
      simp [ho]
      exact ⟨ch.2.2, hmem⟩

/-! ## The newest write of a list of commits -/

/-- The newest value `cms`, applied in order, write to `(c, k)`, if any writes it. -/
def lastWriteOf (c : ColId) (k : Key) : List Commit → Option (Option Value)
  | [] => none
  | cm :: cms => (lastWriteOf c k cms).or (lastChange c k cm.changeset)

theorem lastWriteOf_append (c : ColId) (k : Key) (l₁ l₂ : List Commit) :
    lastWriteOf c k (l₁ ++ l₂) = (lastWriteOf c k l₂).or (lastWriteOf c k l₁) := by
  induction l₁ with
  | nil => simp [lastWriteOf, Option.or_none]
  | cons cm l₁ ih => simp [lastWriteOf, ih, Option.or_assoc]

theorem lastWriteOf_eq_none_iff (c : ColId) (k : Key) (cms : List Commit) :
    lastWriteOf c k cms = none ↔ ∀ cm ∈ cms, lastChange c k cm.changeset = none := by
  induction cms with
  | nil => simp [lastWriteOf]
  | cons cm cms ih => simp [lastWriteOf, ih, and_comm]

/-- In a column that is not reference counted, the overlay of `cms` holds exactly the newest
write of `cms`. -/
theorem latestEntry_snd_of_not_refCounted {rc : ColId → Bool} {c : ColId} (hc : rc c = false)
    (k : Key) (cms : List Commit) :
    (latestEntry rc c k cms).map Prod.snd = lastWriteOf c k cms := by
  induction cms with
  | nil => rfl
  | cons cm cms ih =>
    rw [latestEntry, lastWriteOf, ← ih, lastOverlaid_of_not_refCounted hc]
    cases latestEntry rc c k cms <;> cases lastChange c k cm.changeset <;> rfl

end AxiaDb

import Depot.Proofs.References

/-!
# Collecting garbage

Collecting garbage walks the digests the store lists and removes the blob of
each digest that no count names, counting the blobs it removed. It trusts the
counts and never looks at the index. The counts match the resources held in
every repository a sequence of calls reaches (`Depot.Repository.Sound`), so
the walk removes exactly the blobs that no resource held carries, and keeps
the others as they are.

The count returned is the number of those blobs. One fact carries the proof
(`Depot.Repository.foldl_collectStep`): along the walk, the blobs removed so
far and the blobs still stored add up to the blobs stored at the start. A blob
is counted only when it goes. Each digest is listed once
(`Depot.Store.mem_digests`), but a digest already removed would not be
counted again anyway. So the count is the number of digests stored before and
not after (`Depot.Repository.run_collectGarbage_removes_unreferenced`).
-/

namespace Depot

/-! ### The digests a store holds -/

theorem Table.contains_iff_mem_keys {α : Type} (t : Table α) (k : String) :
    t.contains k = true ↔ k ∈ t.keys := by
  simp [Table.contains, Table.keys, List.any_eq_true]

namespace Store

/-- **The digests stored**, as a set. -/
def stored (s : Store) : Set Digest := {d | s.has d = true}

theorem mem_insertText {t u : String} {us : List String} :
    t ∈ insertText u us ↔ t = u ∨ t ∈ us := by
  induction us with
  | nil => simp [insertText]
  | cons v us ih =>
    unfold insertText
    split_ifs <;> simp [ih, or_left_comm]

theorem mem_foldl_insertText (t : String) (ts : List String) (acc : List String) :
    t ∈ ts.foldl (fun acc u => insertText u acc) acc ↔ t ∈ ts ∨ t ∈ acc := by
  induction ts generalizing acc with
  | nil => simp
  | cons u ts ih =>
    rw [List.foldl_cons, ih, mem_insertText, List.mem_cons]
    tauto

/-- **The store lists exactly the digests it holds.** -/
theorem mem_digests (s : Store) (d : Digest) : d ∈ s.digests ↔ s.has d = true := by
  have hkeys : s.has d = true ↔ d.text ∈ s.blobs.keys := Table.contains_iff_mem_keys _ _
  unfold digests
  rw [List.mem_map, hkeys]
  constructor
  · rintro ⟨t, ht, rfl⟩
    simpa [mem_foldl_insertText] using ht
  · intro h
    exact ⟨d.text, by simpa [mem_foldl_insertText] using h, rfl⟩

theorem stored_finite (s : Store) : s.stored.Finite := by
  have hset : s.stored = {d | d ∈ s.digests} := by
    ext d
    simp [stored, mem_digests]
  rw [hset]
  exact s.digests.finite_toSet

theorem has_remove (s : Store) (d e : Digest) :
    (s.remove d).1.has e = true ↔ s.has e = true ∧ e ≠ d := by
  by_cases he : e = d
  · subst he
    simp [has_eq]
  · rw [has_eq, has_eq, get?_remove_ne _ (mt Digest.text_inj.1 he)]
    simp [he]

theorem stored_remove (s : Store) (d : Digest) : (s.remove d).1.stored = s.stored \ {d} := by
  ext e
  simp [stored, has_remove]

/-- **Removing a blob takes at most one**: the blob there was, if any, and the
blobs left add up to the blobs stored before. -/
theorem remove_count (s : Store) (d : Digest) :
    (if s.has d then 1 else 0) + (s.remove d).1.stored.ncard = s.stored.ncard := by
  rw [stored_remove]
  by_cases hd : s.has d = true
  · have hmem : d ∈ s.stored := hd
    have hpos : 0 < s.stored.ncard := (Set.ncard_pos s.stored_finite).2 ⟨d, hmem⟩
    rw [if_pos hd, Set.ncard_sdiff_singleton_of_mem hmem]
    omega
  · have hmem : d ∉ s.stored := hd
    rw [if_neg hd, Set.sdiff_singleton_eq_self hmem, Nat.zero_add]

end Store

/-! ### The walk over the digests -/

namespace Repository

theorem collectStep_of_counted {acc : Repository × Nat} {d : Digest}
    (h : acc.1.refs.contains d.text = true) : collectStep acc d = acc :=
  if_pos h

theorem collectStep_of_uncounted {acc : Repository × Nat} {d : Digest}
    (h : acc.1.refs.contains d.text = false) :
    collectStep acc d = ({ acc.1 with store := (acc.1.store.remove d).1 },
      if acc.1.store.has d then acc.2 + 1 else acc.2) := by
  unfold collectStep
  rw [if_neg (by simp [h])]
  rfl

/-- **What the walk does**: it keeps the counts; a blob stays exactly when its
digest was not walked over or is counted; and the blobs removed so far and the
blobs still stored add up to the blobs stored at the start. -/
theorem foldl_collectStep {refs : Table Nat} (ds : List Digest) (acc : Repository × Nat)
    (hrefs : acc.1.refs = refs) :
    (ds.foldl collectStep acc).1.refs = refs ∧
      (∀ e, (ds.foldl collectStep acc).1.store.has e = true ↔
        acc.1.store.has e = true ∧ (e ∉ ds ∨ refs.contains e.text = true)) ∧
      (ds.foldl collectStep acc).2 + (ds.foldl collectStep acc).1.store.stored.ncard =
        acc.2 + acc.1.store.stored.ncard := by
  induction ds generalizing acc with
  | nil => simp [hrefs]
  | cons d ds ih =>
    rw [List.foldl_cons]
    cases hcount : acc.1.refs.contains d.text with
    | true =>
      rw [collectStep_of_counted hcount]
      obtain ⟨h1, h2, h3⟩ := ih acc hrefs
      refine ⟨h1, fun e => ?_, h3⟩
      rw [h2 e]
      by_cases he : e = d
      · subst he
        simp [← hrefs, hcount]
      · simp [he]
    | false =>
      rw [collectStep_of_uncounted hcount]
      obtain ⟨h1, h2, h3⟩ := ih ({ acc.1 with store := (acc.1.store.remove d).1 },
        if acc.1.store.has d then acc.2 + 1 else acc.2) hrefs
      refine ⟨h1, fun e => ?_, ?_⟩
      · rw [h2 e]
        dsimp only
        rw [Store.has_remove]
        by_cases he : e = d
        · subst he
          simp [← hrefs, hcount]
        · simp [he]
      · have hremove := Store.remove_count acc.1.store d
        rw [h3]
        dsimp only
        split_ifs at hremove ⊢ <;> omega

/-! ### Collecting garbage in a sound repository -/

/-- **A digest referenced by the repository**: some resource held carries
content with it. -/
def Referenced (repo : Repository) (d : Digest) : Prop :=
  ∃ r ∈ repo.index.resources, r.carries d = true

variable {repo : Repository}

/-- **Collecting garbage keeps exactly the referenced blobs**: the counts name
exactly the digests that resources held carry. -/
theorem Sound.collectGarbage_has (h : repo.Sound) (d : Digest) :
    repo.collectGarbage.1.store.has d = true ↔ repo.store.has d = true ∧ repo.Referenced d := by
  obtain ⟨-, hhas, -⟩ := foldl_collectStep repo.store.digests (repo, 0) rfl
  rw [collectGarbage_eq, hhas, Store.mem_digests, h.refs_contains]
  unfold Referenced
  tauto

/-- **Collecting garbage counts the blobs no resource references.** -/
theorem Sound.collectGarbage_count (h : repo.Sound) :
    repo.collectGarbage.2 = {d | repo.store.has d = true ∧ ¬ repo.Referenced d}.ncard := by
  obtain ⟨-, -, hcount⟩ := foldl_collectStep repo.store.digests (repo, 0) rfl
  rw [← collectGarbage_eq] at hcount
  dsimp only at hcount
  -- the blobs counted are those stored before and not after
  have hsub : repo.collectGarbage.1.store.stored ⊆ repo.store.stored := fun d hd =>
    ((h.collectGarbage_has d).1 hd).1
  have hset : {d | repo.store.has d = true ∧ ¬ repo.Referenced d} =
      repo.store.stored \ repo.collectGarbage.1.store.stored := by
    ext d
    simp only [Set.mem_ofPred_eq, Set.mem_sdiff, Store.stored, h.collectGarbage_has d]
    tauto
  have hle : repo.collectGarbage.1.store.stored.ncard ≤ repo.store.stored.ncard :=
    Set.ncard_le_ncard hsub repo.store.stored_finite
  rw [hset, Set.ncard_sdiff hsub (repo.collectGarbage.1.store.stored_finite)]
  omega

/-- **Collecting garbage removes the blobs no resource held carries, and only
those.** In every repository a sequence of calls reaches from a fresh one, it
returns the number of stored digests that no resource held carries content
with, and removes exactly their blobs. Every referenced blob stays with its
bytes, so afterwards the stored digests are exactly the referenced ones, and
collecting garbage once more removes nothing. -/
theorem run_collectGarbage_removes_unreferenced (config : Config) (ops : List RepoOp) :
    (run config ops).collectGarbage.2 =
        {d | (run config ops).store.has d = true ∧ ¬ (run config ops).Referenced d}.ncard ∧
      (∀ d, (run config ops).collectGarbage.1.store.has d = true ↔
        (run config ops).store.has d = true ∧ (run config ops).Referenced d) ∧
      (∀ d, (run config ops).Referenced d →
        (run config ops).collectGarbage.1.store.blobs.get? d.text =
          (run config ops).store.blobs.get? d.text) ∧
      (∀ d, (run config ops).collectGarbage.1.store.has d = true ↔
        (run config ops).collectGarbage.1.Referenced d) ∧
      (run config ops).collectGarbage.1.collectGarbage.2 = 0 := by
  have h := run_sound config ops
  obtain ⟨hframe, -, hkept⟩ := collectGarbage_pruned (run config ops)
  have href : ∀ d, (run config ops).collectGarbage.1.Referenced d ↔ (run config ops).Referenced d :=
    fun d => by rw [hframe]; rfl
  have hafter : ∀ d, (run config ops).collectGarbage.1.store.has d = true ↔
      (run config ops).collectGarbage.1.Referenced d := fun d => by
    rw [h.collectGarbage_has, href]
    constructor
    · exact And.right
    · rintro ⟨r, hr, hcar⟩
      refine ⟨?_, r, hr, hcar⟩
      cases hc : r.content with
      | none => simp [Resource.carries_of_none hc] at hcar
      | some c => exact Resource.eq_of_carries hc hcar ▸ h.stored r hr c hc
  refine ⟨h.collectGarbage_count, h.collectGarbage_has, fun d hd => ?_, hafter, ?_⟩
  · exact hkept d.text ((h.refs_contains d).2 hd)
  · rw [h.collectGarbage.collectGarbage_count,
      Set.ncard_eq_zero ((run config ops).collectGarbage.1.store.stored_finite.subset fun d hd => hd.1)]
    ext d
    simp [hafter d]

end Repository

end Depot

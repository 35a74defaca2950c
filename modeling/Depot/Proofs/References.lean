import Depot.Repository
import Depot.Proofs.Negation
import Depot.Proofs.StreamDigest

/-!
# Counting references to stored content

A repository counts, for each digest, the resources it holds whose content has
that digest, and keeps their bytes in its store. Along any sequence of calls
from a fresh repository — additions with or without streamed content, removals,
garbage collection and bytes put into the store ahead of time — three things
stay true (`Depot.Repository.Sound`):

* the count of a digest is there exactly when some resource held carries it,
  and it is then the number of those resources (`Depot.Repository.holders`);
* every digest a resource held carries is stored;
* every blob is stored under the digest of its bytes, so that a verified read
  of it succeeds.

Each call keeps them (`Depot.Repository.Sound.perform`), so every repository a
sequence of calls reaches has them (`Depot.Repository.run_sound`). The delicate
call is an addition with content that fails: it has stored the bytes already,
and removes them again exactly when it stored them itself and nothing counts
them. Under the invariant, bytes it stored itself are counted by nobody, so a
failed call leaves the repository as it found it
(`Depot.Repository.Sound.perform_error`). A removal is settled in two steps:
dropping the resource leaves counts that still include it, and releasing its
digest brings them back to the resources held
(`Depot.Repository.Sound.release`). `Depot.Repository.run_refs_match_holders`
collects the facts about every reachable repository.
-/

namespace Depot

/-! ### Tables -/

namespace Table

variable {α : Type}

@[simp] theorem get?_empty (k : String) : (empty : Table α).get? k = none := rfl

theorem find?_put_ne {k k' : String} (v : α) (h : k' ≠ k) (es : List (String × α)) :
    (put k v es).find? (·.1 == k') = es.find? (·.1 == k') := by
  induction es with
  | nil => simp [put, Ne.symm h]
  | cons e es ih =>
    by_cases hk : e.1 = k
    · simp [put, hk, Ne.symm h]
    · simp [put, hk, List.find?_cons, ih]

/-- Setting one name leaves the value of every other. -/
theorem get?_insert_ne (t : Table α) {k k' : String} (v : α) (h : k' ≠ k) :
    (t.insert k v).get? k' = t.get? k' := by
  simp only [get?, insert, find?_put_ne v h]

@[simp] theorem get?_erase_self (t : Table α) (k : String) : (t.erase k).get? k = none := by
  simp [get?, erase, List.find?_filter]

/-- Removing one name leaves the value of every other. -/
theorem get?_erase_ne (t : Table α) {k k' : String} (h : k' ≠ k) :
    (t.erase k).get? k' = t.get? k' := by
  simp only [get?, erase]
  congr 1
  induction t.entries with
  | nil => rfl
  | cons e es ih =>
    by_cases hk : e.1 = k
    · -- the entry removed has the other name
      have hk' : (e.1 == k') = false := by simp [hk, Ne.symm h]
      rw [List.filter_cons_of_neg (by simp [hk]), ih, List.find?_cons_of_neg (by simp [hk'])]
    · rw [List.filter_cons_of_pos (by simp [hk]), List.find?_cons, List.find?_cons, ih]

theorem contains_eq_isSome (t : Table α) (k : String) : t.contains k = (t.get? k).isSome := by
  rw [Bool.eq_iff_iff, contains, get?, Option.isSome_map, List.any_eq_true, List.find?_isSome]

/-- Setting a name that was not there and removing it again gives the table
back. -/
theorem erase_insert_of_contains_eq_false {t : Table α} {k : String} (h : t.contains k = false)
    (v : α) : (t.insert k v).erase k = t := by
  obtain ⟨es⟩ := t
  simp only [contains, List.any_eq_false, beq_iff_eq] at h
  simp only [insert, erase, mk.injEq]
  induction es with
  | nil => simp [put]
  | cons e es ih =>
    have he : e.1 ≠ k := h e List.mem_cons_self
    rw [put, if_neg (by simpa using he), List.filter_cons_of_pos (by simpa using he),
      ih fun e' he' => h e' (List.mem_cons_of_mem e he')]

end Table

theorem Digest.text_inj {d d' : Digest} : d.text = d'.text ↔ d = d' := by
  cases d
  cases d'
  simp

/-! ### The store -/

namespace Store

variable (s : Store) (bs : List UInt8)

theorem has_eq (d : Digest) : s.has d = (s.blobs.get? d.text).isSome :=
  Table.contains_eq_isSome _ _

theorem put_fst : (s.put bs).1 =
    if s.has (Digest.ofBytes bs) then s
    else { s with blobs := s.blobs.insert (Digest.ofBytes bs).text bs } := rfl

/-- Streaming bytes into the store stores them as putting them does, under the
digest of the bytes, and reports whether they were new. -/
theorem putStream_eq :
    s.putStream bs = ((s.put bs).1, Digest.ofBytes bs, bs.length, !s.has (Digest.ofBytes bs)) := by
  rw [put_fst]
  unfold putStream
  rw [Digest.ofStream_eq]
  dsimp only
  cases s.has (Digest.ofBytes bs) <;> rfl

/-- After putting bytes their digest is stored. -/
theorem has_put : (s.put bs).1.has (Digest.ofBytes bs) = true := by
  rw [put_fst]
  cases h : s.has (Digest.ofBytes bs)
  · simp [has_eq]
  · simpa using h

/-- Putting bytes keeps what was stored. -/
theorem get?_put {t : String} {bs' : List UInt8} (h : s.blobs.get? t = some bs') :
    (s.put bs).1.blobs.get? t = some bs' := by
  rw [put_fst]
  cases hs : s.has (Digest.ofBytes bs)
  · by_cases ht : t = (Digest.ofBytes bs).text
    · -- the place was free, so it was not the one read
      rw [has_eq, ← ht, h] at hs
      cases hs
    · simpa [Table.get?_insert_ne _ _ ht] using h
  · simpa using h

/-- What a store holds after putting bytes was there before, or is the bytes
under their digest. -/
theorem get?_of_get?_put {t : String} {bs' : List UInt8} (h : (s.put bs).1.blobs.get? t = some bs') :
    s.blobs.get? t = some bs' ∨ (t = (Digest.ofBytes bs).text ∧ bs' = bs) := by
  rw [put_fst] at h
  cases hs : s.has (Digest.ofBytes bs)
  · simp only [hs, Bool.false_eq_true, if_false] at h
    by_cases ht : t = (Digest.ofBytes bs).text
    · subst ht
      simp only [Table.get?_insert_self, Option.some.injEq] at h
      exact Or.inr ⟨rfl, h.symm⟩
    · rw [Table.get?_insert_ne _ _ ht] at h
      exact Or.inl h
  · simp only [hs, if_true] at h
    exact Or.inl h

/-- Removing a blob leaves every other. -/
theorem get?_remove_ne {d : Digest} {t : String} (h : t ≠ d.text) :
    (s.remove d).1.blobs.get? t = s.blobs.get? t :=
  Table.get?_erase_ne _ h

@[simp] theorem get?_remove_self (d : Digest) : (s.remove d).1.blobs.get? d.text = none :=
  Table.get?_erase_self _ _

end Store

/-! ### Resources that carry content -/

namespace Resource

/-- Whether the content of a resource has the digest. -/
def carries (r : Resource) (d : Digest) : Bool :=
  match r.content with
  | some c => c.digest == d
  | none => false

variable {r : Resource} {c : ContentInfo}

theorem carries_self (h : r.content = some c) : r.carries c.digest = true := by
  simp [carries, h]

theorem carries_of_ne (h : r.content = some c) {d : Digest} (hd : c.digest ≠ d) :
    r.carries d = false := by
  simp [carries, h, hd]

theorem carries_of_none (h : r.content = none) (d : Digest) : r.carries d = false := by
  simp [carries, h]

theorem eq_of_carries (h : r.content = some c) {d : Digest} (hd : r.carries d = true) :
    c.digest = d := by
  simpa [carries, h] using hd

end Resource

theorem Draft.content_of_build {d : Draft} {r : Resource} (h : d.build = .ok r) :
    r.content = d.content := by
  unfold Draft.build at h
  simp only [bind, Except.bind] at h
  split at h
  · cases h
  · split at h
    · cases h
    · split at h
      · cases h
      · split at h
        · cases h
        · cases h
          rfl
  · cases h

theorem Index.resources_of_add {idx idx' : Index} {r : Resource} (h : idx.add r = .ok idx') :
    idx'.resources = idx.resources ++ [r] := by
  unfold Index.add at h
  split at h
  · cases h
  · cases h
    rfl

theorem Index.resources_remove {idx : Index} {id : ResourceId} {held : Resource}
    (h : idx.get? id = some held) :
    (idx.remove id).1.resources = idx.resources.filter (·.id != id) := by
  simp [Index.remove, h]

namespace Repository

/-! ### What the counts should be -/

/-- **The holders of a digest**: how many of the resources carry content with
it. -/
def holders (rs : List Resource) (d : Digest) : Nat := rs.countP (·.carries d)

/-- The count a repository should keep for a digest: the number of its holders,
and none when there is none. -/
def refEntry (rs : List Resource) (d : Digest) : Option Nat :=
  if holders rs d = 0 then none else some (holders rs d)

theorem refEntry_isSome {rs : List Resource} {d : Digest} :
    (refEntry rs d).isSome ↔ ∃ r ∈ rs, r.carries d = true := by
  simp [refEntry, holders, List.countP_eq_zero]

theorem holders_append (rs : List Resource) (r : Resource) (d : Digest) :
    holders (rs ++ [r]) d = holders rs d + if r.carries d then 1 else 0 := by
  simp [holders, List.countP_append]

theorem refEntry_append_of_carries_eq_false {rs : List Resource} {r : Resource} {d : Digest}
    (h : r.carries d = false) : refEntry (rs ++ [r]) d = refEntry rs d := by
  simp [refEntry, holders_append, h]

/-- Dropping the resource of an identity, held once, drops it from the count. -/
theorem holders_filter {rs : List Resource} (hids : (rs.map (·.id)).Nodup) {held : Resource}
    (hheld : held ∈ rs) (d : Digest) :
    holders (rs.filter (·.id != held.id) ++ [held]) d = holders rs d := by
  rw [holders_append]
  induction rs with
  | nil => cases hheld
  | cons q qs ih =>
    rw [List.map_cons, List.nodup_cons] at hids
    rcases List.mem_cons.1 hheld with rfl | hmem
    · -- the resource dropped is the first: no other has its identity
      have hrest : qs.filter (·.id != held.id) = qs :=
        List.filter_eq_self.2 fun q hq => by
          have hne : q.id ≠ held.id := fun h => hids.1 (h ▸ List.mem_map_of_mem hq)
          simpa using hne
      rw [List.filter_cons_of_neg (by simp), hrest]
      simp only [holders, List.countP_cons]
    · have hq : q.id ≠ held.id := fun h => hids.1 (h ▸ List.mem_map_of_mem hmem)
      rw [List.filter_cons_of_pos (by simpa using hq)]
      have := ih hids.2 hmem
      simp only [holders, List.countP_cons] at this ⊢
      omega

/-- Counting one more reference to the digest of a resource added. -/
theorem refs_retain {refs : Table Nat} {rs : List Resource}
    (h : ∀ d, refs.get? d.text = refEntry rs d) {r : Resource} {c : ContentInfo}
    (hc : r.content = some c) (d : Digest) :
    (retain refs c.digest).get? d.text = refEntry (rs ++ [r]) d := by
  unfold retain
  by_cases hd : c.digest = d
  · subst hd
    rw [Table.get?_insert_self, h, refEntry, refEntry, holders_append,
      Resource.carries_self hc]
    split <;> simp_all
  · rw [Table.get?_insert_ne _ _ (mt Digest.text_inj.1 (Ne.symm hd)), h,
      refEntry_append_of_carries_eq_false (Resource.carries_of_ne hc hd)]

/-! ### The invariant -/

/-- **What a repository keeps true**: its index is valid; the count of each
digest is the number of resources held that carry it, and absent when there is
none; every digest a resource held carries is stored; and every blob is stored
under the digest of its bytes. -/
structure Sound (repo : Repository) : Prop where
  index : repo.index.Valid
  refs : ∀ d, repo.refs.get? d.text = refEntry repo.index.resources d
  stored : ∀ r ∈ repo.index.resources, ∀ c, r.content = some c → repo.store.has c.digest = true
  intact : ∀ t bs, repo.store.blobs.get? t = some bs → (Digest.ofBytes bs).text = t

theorem sound_empty (config : Config) : (empty config).Sound where
  index := Index.valid_empty
  refs d := by simp [empty, refEntry, holders, Index.empty]
  stored r hr := by simp [empty, Index.empty] at hr
  intact t bs h := by simp [empty, Store.empty] at h

variable {repo : Repository}

theorem Sound.refs_contains (h : repo.Sound) (d : Digest) :
    repo.refs.contains d.text = true ↔ ∃ r ∈ repo.index.resources, r.carries d = true := by
  rw [Table.contains_eq_isSome, h.refs, refEntry_isSome]

/-- **A resource held reads its content back**, verified or not. -/
theorem Sound.content_eq (h : repo.Sound) {r : Resource} (hr : r ∈ repo.index.resources)
    {c : ContentInfo} (hc : r.content = some c) : ∃ bs, repo.content r = .ok (some bs) := by
  have hhas := h.stored r hr c hc
  rw [Store.has_eq, Option.isSome_iff_exists] at hhas
  obtain ⟨bs, hbs⟩ := hhas
  have hdig : Digest.ofBytes bs = c.digest := Digest.text_inj.1 (h.intact _ _ hbs)
  refine ⟨bs, ?_⟩
  simp [content, hc, Store.get, hbs, hdig]

/-! ### One call at a time -/

/-- Putting bytes into the store keeps the invariant. -/
theorem Sound.put (h : repo.Sound) (bs : List UInt8) :
    ({ repo with store := (repo.store.put bs).1 }).Sound where
  index := h.index
  refs := h.refs
  stored r hr c hc := by
    have hhas := h.stored r hr c hc
    rw [Store.has_eq, Option.isSome_iff_exists] at hhas ⊢
    obtain ⟨bs', hbs'⟩ := hhas
    exact ⟨bs', repo.store.get?_put bs hbs'⟩
  intact t bs' hbs' := by
    rcases repo.store.get?_of_get?_put bs hbs' with hold | ⟨rfl, rfl⟩
    · exact h.intact t bs' hold
    · rfl

/-- **Indexing a resource whose content is stored** keeps the invariant,
counting one more reference to its digest. -/
theorem Sound.index_add (h : repo.Sound) {r : Resource}
    (hstored : ∀ c, r.content = some c → repo.store.has c.digest = true) {idx : Index}
    (hadd : repo.index.add r = .ok idx) :
    ({ repo with index := idx, refs := match r.content with
        | some c => retain repo.refs c.digest
        | none => repo.refs }).Sound where
  index := h.index.add hadd
  refs d := by
    simp only [Index.resources_of_add hadd]
    cases hc : r.content with
    | some c => exact refs_retain h.refs hc d
    | none => rw [refEntry_append_of_carries_eq_false (Resource.carries_of_none hc d), h.refs]
  stored q hq c hc := by
    rw [Index.resources_of_add hadd, List.mem_append, List.mem_singleton] at hq
    rcases hq with hq | rfl
    · exact h.stored q hq c hc
    · exact hstored c hc
  intact := h.intact

/-- What an addition that succeeds is made of: the content is stored, and the
resource is indexed with one more reference to its digest. -/
theorem add_eq_ok {r : Resource} {repo' : Repository} (h : repo.add r = .ok repo') :
    (∀ c, r.content = some c → repo.store.has c.digest = true) ∧ ∃ idx, repo.index.add r = .ok idx ∧
      repo' = { repo with index := idx, refs := match r.content with
        | some c => retain repo.refs c.digest
        | none => repo.refs } := by
  unfold add at h
  cases hc : r.content with
  | none =>
    cases hi : repo.index.add r with
    | error e => simp [hc, hi, bind, Except.bind, pure, Except.pure] at h
    | ok idx =>
      simp only [hc, hi, bind, Except.bind, pure, Except.pure, Except.ok.injEq] at h
      exact ⟨fun c hc' => (by cases hc'), idx, rfl, h.symm⟩
  | some c =>
    cases hs : repo.store.has c.digest with
    | false => simp [hc, hs, bind, Except.bind, throw, throwThe, MonadExceptOf.throw] at h
    | true =>
      cases hi : repo.index.add r with
      | error e => simp [hc, hs, hi, bind, Except.bind, pure, Except.pure] at h
      | ok idx =>
        simp [hc, hs, hi, bind, Except.bind, pure, Except.pure] at h
        refine ⟨fun c' hc' => ?_, idx, rfl, h.symm⟩
        cases hc'
        exact hs

theorem Sound.add (h : repo.Sound) {r : Resource} {repo' : Repository} (hadd : repo.add r = .ok repo') :
    repo'.Sound := by
  obtain ⟨hstored, idx, hidx, rfl⟩ := add_eq_ok hadd
  exact h.index_add hstored hidx

theorem indexDraft_eq_ok {index index' : Index} {d : Draft} {r : Resource}
    (h : indexDraft index d = .ok (r, index')) : d.build = .ok r ∧ index.add r = .ok index' := by
  unfold indexDraft at h
  cases hb : d.build with
  | error e => simp [hb, bind, Except.bind, throw, throwThe, MonadExceptOf.throw] at h
  | ok r' =>
    cases hi : index.add r' with
    | error e => simp [hb, hi, bind, Except.bind, throw, throwThe, MonadExceptOf.throw] at h
    | ok idx =>
      simp only [hb, hi, bind, Except.bind, pure, Except.pure, Except.ok.injEq, Prod.mk.injEq] at h
      obtain ⟨rfl, rfl⟩ := h
      exact ⟨rfl, hi⟩

/-- An addition with content puts the bytes first, then indexes the draft with
their digest and counts a reference to it. -/
theorem addWithContent_of_ok {d : Draft} {bs : List UInt8} {mime : Option String} {r : Resource}
    {idx : Index} (h : indexDraft repo.index (d.withContent ⟨Digest.ofBytes bs, bs.length, mime⟩) =
      .ok (r, idx)) :
    repo.addWithContent d bs mime =
      ({ repo with
          store := (repo.store.put bs).1
          index := idx
          refs := retain repo.refs (Digest.ofBytes bs) }, .ok r) := by
  simp only [addWithContent, Store.putStream_eq, h]

/-- When the draft cannot be indexed, an addition with content removes the bytes
again if it stored them itself and nothing counts them. -/
theorem addWithContent_of_error {d : Draft} {bs : List UInt8} {mime : Option String}
    {e : RepoError} (h : indexDraft repo.index (d.withContent ⟨Digest.ofBytes bs, bs.length, mime⟩) =
      .error e) :
    repo.addWithContent d bs mime =
      ({ repo with
          store := if !repo.store.has (Digest.ofBytes bs) && !repo.refs.contains (Digest.ofBytes bs).text
            then ((repo.store.put bs).1.remove (Digest.ofBytes bs)).1 else (repo.store.put bs).1 },
        .error e) := by
  simp only [addWithContent, Store.putStream_eq, h]

/-- **An addition with content that succeeds keeps the invariant.** -/
theorem Sound.addWithContent_ok (h : repo.Sound) {d : Draft} {bs : List UInt8}
    {mime : Option String} {repo' : Repository} {r : Resource}
    (hadd : repo.addWithContent d bs mime = (repo', .ok r)) : repo'.Sound := by
  cases hidx : indexDraft repo.index (d.withContent ⟨Digest.ofBytes bs, bs.length, mime⟩) with
  | error e =>
    rw [addWithContent_of_error hidx] at hadd
    simp at hadd
  | ok p =>
    obtain ⟨r', idx⟩ := p
    rw [addWithContent_of_ok hidx] at hadd
    simp only [Prod.mk.injEq] at hadd
    obtain ⟨rfl, -⟩ := hadd
    obtain ⟨hbuild, hadd'⟩ := indexDraft_eq_ok hidx
    have hc : r'.content = some ⟨Digest.ofBytes bs, bs.length, mime⟩ := Draft.content_of_build hbuild
    have hsound := (h.put bs).index_add (r := r')
      (fun c hc' => by cases hc'.symm.trans hc; exact repo.store.has_put bs) hadd'
    simpa [hc] using hsound

/-- **An addition with content that fails leaves the repository as it was**:
bytes the call stored itself are counted by nobody, so it removes them again. -/
theorem Sound.addWithContent_error (h : repo.Sound) {d : Draft} {bs : List UInt8}
    {mime : Option String} {repo' : Repository} {e : RepoError}
    (hadd : repo.addWithContent d bs mime = (repo', .error e)) : repo' = repo := by
  cases hidx : indexDraft repo.index (d.withContent ⟨Digest.ofBytes bs, bs.length, mime⟩) with
  | ok p =>
    rw [addWithContent_of_ok hidx] at hadd
    simp at hadd
  | error e' =>
    rw [addWithContent_of_error hidx] at hadd
    simp only [Prod.mk.injEq] at hadd
    obtain ⟨rfl, -⟩ := hadd
    cases hs : repo.store.has (Digest.ofBytes bs) with
    | true =>
      simp [hs, Store.put_fst]
    | false =>
      -- the call stored the bytes; no resource held carries them, so none counts them
      have hnone : repo.refs.contains (Digest.ofBytes bs).text = false := by
        rw [Bool.eq_false_iff]
        intro hcont
        obtain ⟨r, hr, hcar⟩ := (h.refs_contains _).1 hcont
        cases hc : r.content with
        | none => simp [Resource.carries_of_none hc] at hcar
        | some c =>
          have hstored := h.stored r hr c hc
          rw [Resource.eq_of_carries hc hcar, hs] at hstored
          cases hstored
      have hblobs : repo.store.blobs.contains (Digest.ofBytes bs).text = false := hs
      simp [hs, hnone, Store.put_fst, Store.remove,
        Table.erase_insert_of_contains_eq_false hblobs]

theorem remove_of_get? {id : ResourceId} {held : Resource} (hg : repo.index.get? id = some held) :
    (repo.remove id).1 = match held.content with
      | none => { repo with index := (repo.index.remove id).1 }
      | some c => ({ repo with index := (repo.index.remove id).1 }).release c.digest := by
  unfold Repository.remove
  rw [hg]
  dsimp only
  cases held.content <;> rfl

/-- **Releasing the digest of a resource no longer held** restores the
invariant: the counts, which still include the resource, lose its reference,
and the blob goes with the last one. -/
theorem Sound.release {held : Resource} {c : ContentInfo} (hindex : repo.index.Valid)
    (hrefs : ∀ d, repo.refs.get? d.text = refEntry (repo.index.resources ++ [held]) d)
    (hstored : ∀ r ∈ repo.index.resources, ∀ c, r.content = some c → repo.store.has c.digest = true)
    (hintact : ∀ t bs, repo.store.blobs.get? t = some bs → (Digest.ofBytes bs).text = t)
    (hc : held.content = some c) : (repo.release c.digest).Sound := by
  have hget : repo.refs.get? c.digest.text = some (holders repo.index.resources c.digest + 1) := by
    rw [hrefs, refEntry, holders_append, Resource.carries_self hc]
    simp
  have hother : ∀ d, d ≠ c.digest → refEntry (repo.index.resources ++ [held]) d =
      refEntry repo.index.resources d := fun d hd =>
    refEntry_append_of_carries_eq_false (Resource.carries_of_ne hc (Ne.symm hd))
  unfold Repository.release
  rw [hget]
  dsimp only
  rw [Nat.add_sub_cancel]
  split
  · -- the last reference: the count and the blob go
    rename_i hzero
    refine ⟨hindex, fun d => ?_, fun r hr c' hc' => ?_, fun t bs hbs => ?_⟩
    · by_cases hd : d = c.digest
      · subst hd
        simp [refEntry, hzero]
      · rw [Table.get?_erase_ne _ (mt Digest.text_inj.1 hd), hrefs, hother d hd]
    · have hne : c'.digest ≠ c.digest := by
        intro heq
        have hpos : 0 < holders repo.index.resources c.digest :=
          List.countP_pos_iff.2 ⟨r, hr, heq ▸ Resource.carries_self hc'⟩
        omega
      have hold := hstored r hr c' hc'
      simp only [Store.has_eq] at hold ⊢
      rwa [Store.get?_remove_ne _ (mt Digest.text_inj.1 hne)]
    · by_cases ht : t = c.digest.text
      · subst ht
        simp at hbs
      · rw [Store.get?_remove_ne _ ht] at hbs
        exact hintact t bs hbs
  · -- references remain: the count drops by one
    rename_i hpos
    refine ⟨hindex, fun d => ?_, hstored, hintact⟩
    by_cases hd : d = c.digest
    · subst hd
      simp [refEntry, hpos]
    · rw [Table.get?_insert_ne _ _ (mt Digest.text_inj.1 hd), hrefs, hother d hd]

/-- **A removal keeps the invariant.** -/
theorem Sound.remove (h : repo.Sound) (id : ResourceId) : (repo.remove id).1.Sound := by
  cases hg : repo.index.get? id with
  | none =>
    simp only [Repository.remove, hg]
    exact h
  | some held =>
    obtain ⟨hmem, rfl⟩ := Index.get?_eq_some hg
    have hres := Index.resources_remove hg
    have hrefs : ∀ d, repo.refs.get? d.text =
        refEntry ((repo.index.remove held.id).1.resources ++ [held]) d := by
      intro d
      rw [h.refs, hres, refEntry, refEntry, holders_filter h.index.ids hmem]
    have hstored : ∀ q ∈ (repo.index.remove held.id).1.resources, ∀ c, q.content = some c →
        repo.store.has c.digest = true := by
      intro q hq
      rw [hres] at hq
      exact h.stored q (List.mem_filter.1 hq).1
    rw [remove_of_get? hg]
    cases hc : held.content with
    | none =>
      refine ⟨h.index.remove _, fun d => ?_, hstored, h.intact⟩
      rw [hrefs d, refEntry_append_of_carries_eq_false (Resource.carries_of_none hc d)]
    | some c => exact Sound.release (h.index.remove _) hrefs hstored h.intact hc

/-! ### Garbage collection -/

/-- **What collecting garbage may do to a store**: drop blobs, but none that a
counted digest names. -/
def Pruned (refs : Table Nat) (s s' : Store) : Prop :=
  (∀ t bs, s'.blobs.get? t = some bs → s.blobs.get? t = some bs) ∧
    ∀ t, refs.contains t = true → s'.blobs.get? t = s.blobs.get? t

/-- One step of collecting garbage: a blob is kept when its digest is counted,
and removed otherwise. -/
def collectStep (acc : Repository × Nat) (d : Digest) : Repository × Nat :=
  if acc.1.refs.contains d.text then acc
  else
    let (store, removed) := acc.1.store.remove d
    ({ acc.1 with store }, if removed then acc.2 + 1 else acc.2)

theorem collectGarbage_eq (repo : Repository) :
    repo.collectGarbage = repo.store.digests.foldl collectStep (repo, 0) := rfl

/-- Collecting garbage changes only the store, and prunes it. -/
theorem collectGarbage_pruned (repo : Repository) :
    repo.collectGarbage.1 = { repo with store := repo.collectGarbage.1.store } ∧
      Pruned repo.refs repo.store repo.collectGarbage.1.store := by
  rw [collectGarbage_eq]
  -- along the digests, the repository is the first with a pruned store
  suffices ∀ (ds : List Digest) (acc : Repository × Nat),
      acc.1 = { repo with store := acc.1.store } → Pruned repo.refs repo.store acc.1.store →
      (ds.foldl collectStep acc).1 = { repo with store := (ds.foldl collectStep acc).1.store } ∧
        Pruned repo.refs repo.store (ds.foldl collectStep acc).1.store from
    this _ _ rfl ⟨fun _ _ h => h, fun _ _ => rfl⟩
  intro ds
  induction ds with
  | nil => exact fun acc hacc hp => ⟨hacc, hp⟩
  | cons d ds ih =>
    intro acc hacc hp
    rw [List.foldl_cons]
    unfold collectStep
    split
    · exact ih acc hacc hp
    · rename_i hkeep
      rw [hacc] at hkeep
      refine ih _ (by rw [hacc]) ⟨fun t bs hbs => ?_, fun t ht => ?_⟩
      · by_cases htd : t = d.text
        · subst htd
          simp at hbs
        · rw [Store.get?_remove_ne _ htd] at hbs
          exact hp.1 t bs hbs
      · have htd : t ≠ d.text := fun h => by rw [h] at ht; exact hkeep ht
        rw [Store.get?_remove_ne _ htd]
        exact hp.2 t ht

/-- **Collecting garbage keeps the invariant**: every digest a resource held
carries is counted, so its blob stays. -/
theorem Sound.collectGarbage (h : repo.Sound) : repo.collectGarbage.1.Sound := by
  obtain ⟨heq, hkept, hsame⟩ := collectGarbage_pruned repo
  rw [heq]
  refine ⟨h.index, h.refs, fun r hr c hc => ?_, fun t bs hbs => h.intact t bs (hkept t bs hbs)⟩
  have hcount : repo.refs.contains c.digest.text = true :=
    (h.refs_contains c.digest).2 ⟨r, hr, Resource.carries_self hc⟩
  have hold := h.stored r hr c hc
  simp only [Store.has_eq] at hold ⊢
  rwa [hsame _ hcount]

/-! ### Runs of calls -/

/-- **Every call keeps the invariant.** -/
theorem Sound.perform (h : repo.Sound) (op : RepoOp) : (repo.perform op).1.Sound := by
  cases op with
  | add r =>
    simp only [Repository.perform]
    cases hadd : repo.add r with
    | ok repo' => exact h.add hadd
    | error e => exact h
  | addWithContent d bs mime =>
    simp only [Repository.perform]
    cases hadd : repo.addWithContent d bs mime with
    | mk repo' res =>
      cases res with
      | ok r => exact h.addWithContent_ok hadd
      | error e =>
        rw [h.addWithContent_error hadd]
        exact h
  | remove id => exact h.remove id
  | collectGarbage => exact h.collectGarbage
  | put bs => exact h.put bs
  | putStream bs =>
    simp only [Repository.perform, Store.putStream_eq]
    exact h.put bs

/-- **A call that reports an error leaves the repository as it was.** -/
theorem Sound.perform_error (h : repo.Sound) {op : RepoOp} {e : RepoError}
    (he : (repo.perform op).2 = some e) : (repo.perform op).1 = repo := by
  cases op with
  | add r =>
    simp only [Repository.perform] at he ⊢
    cases hadd : repo.add r with
    | ok repo' => simp [hadd] at he
    | error e' => rfl
  | addWithContent d bs mime =>
    simp only [Repository.perform] at he ⊢
    cases hadd : repo.addWithContent d bs mime with
    | mk repo' res =>
      cases res with
      | ok r => simp [hadd] at he
      | error e' => exact h.addWithContent_error hadd
  | remove id => simp [Repository.perform] at he
  | collectGarbage => simp [Repository.perform] at he
  | put bs => simp [Repository.perform] at he
  | putStream bs => simp [Repository.perform] at he

/-- **Every repository a sequence of calls reaches keeps the invariant.** -/
theorem run_sound (config : Config) (ops : List RepoOp) : (run config ops).Sound := by
  unfold run
  -- the invariant holds of the fresh repository and every call keeps it
  suffices ∀ repo : Repository, repo.Sound →
      (ops.foldl (fun repo op => (repo.perform op).1) repo).Sound from
    this _ (sound_empty config)
  induction ops with
  | nil => exact fun repo h => h
  | cons op ops ih => exact fun repo h => ih _ (h.perform op)

/-- **The counts match the resources, the content is there, and failures change
nothing.** In every repository that a sequence of calls reaches from a fresh
one: the count of a digest is present exactly when some resource held carries
content with it, and is then the number of such resources; every resource held
with content has its digest stored and reads its bytes back, verified or not;
and a next call that reports an error leaves the repository as it was. -/
theorem run_refs_match_holders (config : Config) (ops : List RepoOp) :
    (∀ d, ((run config ops).refs.contains d.text = true ↔
        ∃ r ∈ (run config ops).index.resources, r.carries d = true) ∧
      ∀ n, (run config ops).refs.get? d.text = some n →
        n = holders (run config ops).index.resources d) ∧
    (∀ r ∈ (run config ops).index.resources, ∀ c, r.content = some c →
      (run config ops).store.has c.digest = true ∧
        ∃ bs, (run config ops).content r = .ok (some bs)) ∧
    ∀ op e, ((run config ops).perform op).2 = some e →
      ((run config ops).perform op).1 = run config ops := by
  have h := run_sound config ops
  refine ⟨fun d => ⟨h.refs_contains d, fun n hn => ?_⟩, fun r hr c hc =>
    ⟨h.stored r hr c hc, h.content_eq hr hc⟩, fun op e he => h.perform_error he⟩
  rw [h.refs, refEntry] at hn
  split at hn
  · cases hn
  · cases hn
    rfl

end Repository

end Depot

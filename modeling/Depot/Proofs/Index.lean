import Mathlib.Data.String.Basic
import Mathlib.Data.List.Nodup
import Depot.Index

/-!
# The index answers as the resources it holds

The index files every capability of a resource in buckets when the resource
is added, and takes them out again when it is removed, dropping what is left
empty. This file shows that the buckets never drift from the resources: after
any sequence of additions and removals, starting from the empty index,

* the index holds exactly the resources added and not removed since, each
  identity once (`Depot.IndexOp.held`), and an addition is refused exactly when
  the identity is held;
* the catch-all bucket of a namespace holds the references to the capabilities
  of the namespace, and the bucket of a key those whose primary value has an
  element with that key, each once;
* the namespaces in use are exactly those of the capabilities held, sorted.

The argument is an invariant of the bucket map alone (`Depot.Index.Files`):
it holds a given set of references, every bucket holds those of its namespace
and key, and no bucket or namespace is kept empty. Filing one reference and
taking one out keep it (`Depot.Index.Files.file`, `Depot.Index.Files.unfile`),
and an addition or a removal files or takes out the references of one resource
one after the other. The removal is the delicate step: it drops emptied buckets
and namespaces in the middle of its loop over the capabilities of the resource,
and the invariant says why no later capability is lost by that: a namespace
that still holds one of them has a non-empty catch-all bucket.
-/

namespace Depot

/-! ### Maps as lists of entries -/

namespace Entries

variable {κ α : Type} [DecidableEq κ]

@[simp] theorem lookup_empty (k : κ) : (empty : Entries κ α).lookup k = none := rfl

theorem find_alter (k k' : κ) (d : α) (f : α → α) (es : List (κ × α)) :
    find (alter k d f es) k' = if k = k' then some (f ((find es k).getD d)) else find es k' := by
  induction es with
  | nil => by_cases h : k = k' <;> simp [alter, find, h]
  | cons e es ih =>
    obtain ⟨k₀, v⟩ := e
    by_cases h₀ : k₀ = k
    · subst h₀
      by_cases h : k₀ = k' <;> simp [alter, find, h]
    · by_cases h : k = k'
      · subst h
        simp [alter, find, h₀, ih]
      · by_cases h' : k₀ = k'
        · subst h'
          simp [alter, find, h₀, h]
        · simp [alter, find, h₀, h, h', ih]

/-- Updating a key changes its value and no other. -/
theorem lookup_update (m : Entries κ α) (k k' : κ) (d : α) (f : α → α) :
    (m.update k d f).lookup k' = if k = k' then some (f ((m.lookup k).getD d)) else m.lookup k' :=
  find_alter k k' d f m.entries

theorem lookup_set (m : Entries κ α) (k k' : κ) (v : α) :
    (m.set k v).lookup k' = if k = k' then some v else m.lookup k' :=
  lookup_update m k k' v fun _ => v

theorem lookup_erase (m : Entries κ α) (k k' : κ) :
    (m.erase k).lookup k' = if k = k' then none else m.lookup k' := by
  obtain ⟨es⟩ := m
  simp only [erase, lookup]
  induction es with
  | nil => simp [find]
  | cons e es ih =>
    obtain ⟨k₀, v⟩ := e
    by_cases h₀ : k₀ = k
    · subst h₀
      by_cases h : k₀ = k' <;> simp_all [find]
    · by_cases h' : k₀ = k'
      · subst h'
        simp [find, h₀, Ne.symm h₀]
      · simp_all [find]

theorem mem_keys (m : Entries κ α) (k : κ) : k ∈ m.keys ↔ (m.lookup k).isSome := by
  obtain ⟨es⟩ := m
  simp only [keys, lookup]
  induction es with
  | nil => simp [find]
  | cons e es ih =>
    obtain ⟨k₀, v⟩ := e
    by_cases h₀ : k₀ = k
    · simp [find, h₀]
    · simp [find, h₀, Ne.symm h₀, ih]

/-- A map has an entry exactly when some key has a value. -/
theorem isEmpty_eq_false_iff (m : Entries κ α) : m.isEmpty = false ↔ ∃ k v, m.lookup k = some v := by
  obtain ⟨es⟩ := m
  cases es with
  | nil => simp [isEmpty, lookup, find]
  | cons e es =>
    refine ⟨fun _ => ⟨e.1, e.2, by simp [lookup, find]⟩, fun _ => rfl⟩

theorem lookup_eq_none_of_isEmpty {m : Entries κ α} (h : m.isEmpty = true) (k : κ) :
    m.lookup k = none := by
  obtain ⟨es⟩ := m
  cases es with
  | nil => rfl
  | cons e es => simp [isEmpty] at h

end Entries

/-! ### Sorted namespaces -/

namespace Index

theorem mem_insertSorted (s x : String) (l : List String) :
    x ∈ insertSorted s l ↔ x = s ∨ x ∈ l := by
  induction l with
  | nil => simp [insertSorted]
  | cons t ts ih =>
    by_cases hst : s = t
    · subst hst
      simp [insertSorted]
    · by_cases hlt : s < t
      · simp [insertSorted, hst, hlt]
      · simp only [insertSorted, hst, hlt, if_false, List.mem_cons, ih]
        tauto

theorem pairwise_insertSorted (s : String) {l : List String} (h : l.Pairwise (· < ·)) :
    (insertSorted s l).Pairwise (· < ·) := by
  induction l with
  | nil => simp [insertSorted]
  | cons t ts ih =>
    rw [List.pairwise_cons] at h
    by_cases hst : s = t
    · subst hst
      simpa [insertSorted] using h
    · by_cases hlt : s < t
      · simp only [insertSorted, hst, hlt, if_true, if_false]
        refine List.Pairwise.cons (fun y hy => ?_) (List.Pairwise.cons h.1 h.2)
        rcases List.mem_cons.1 hy with rfl | hy
        · exact hlt
        · exact lt_trans hlt (h.1 y hy)
      · have hts : t < s := lt_of_le_of_ne (not_lt.1 hlt) (Ne.symm hst)
        simp only [insertSorted, hst, hlt, if_false]
        refine List.Pairwise.cons (fun y hy => ?_) (ih h.2)
        rcases (mem_insertSorted s y ts).1 hy with rfl | hy
        · exact hts
        · exact h.1 y hy

/-- Inserting texts one after the other into a sorted list keeps it sorted and
adds exactly them. -/
theorem foldl_insertSorted (l init : List String) (h : init.Pairwise (· < ·)) :
    (l.foldl (fun acc ns => insertSorted ns acc) init).Pairwise (· < ·) ∧
      ∀ x, x ∈ l.foldl (fun acc ns => insertSorted ns acc) init ↔ x ∈ init ∨ x ∈ l := by
  induction l generalizing init with
  | nil => simpa using h
  | cons s l ih =>
    obtain ⟨hsorted, hmem⟩ := ih (insertSorted s init) (pairwise_insertSorted s h)
    refine ⟨hsorted, fun x => ?_⟩
    rw [List.foldl_cons, hmem, mem_insertSorted, List.mem_cons]
    tauto

/-- **The namespaces are sorted**, each once. -/
theorem namespaces_sorted (idx : Index) : idx.namespaces.Pairwise (· < ·) :=
  (foldl_insertSorted idx.buckets.keys [] List.Pairwise.nil).1

theorem mem_namespaces_iff (idx : Index) (ns : String) :
    ns ∈ idx.namespaces ↔ (idx.buckets.lookup ns).isSome := by
  rw [namespaces, (foldl_insertSorted idx.buckets.keys [] List.Pairwise.nil).2, Entries.mem_keys]
  simp

end Index

/-! ### The buckets of a capability -/

namespace Capability

/-- The loop that collects the keys of the elements of a primary value, each
once, after the ones it starts from. -/
theorem mem_foldl_keys (es : List Scalar) (init : List BucketKey) (key : BucketKey) :
    key ∈ es.foldl (fun keys e =>
        if keys.contains (.value e.key) then keys else keys ++ [.value e.key]) init ↔
      key ∈ init ∨ ∃ e ∈ es, key = .value e.key := by
  induction es generalizing init with
  | nil => simp
  | cons e es ih =>
    rw [List.foldl_cons, ih]
    by_cases he : init.contains (.value e.key)
    · have : BucketKey.value e.key ∈ init := by simpa using he
      simp only [he, if_true, List.mem_cons, exists_eq_or_imp]
      constructor
      · rintro (h | h)
        · exact Or.inl h
        · exact Or.inr (Or.inr h)
      · rintro (h | rfl | h)
        · exact Or.inl h
        · exact Or.inl this
        · exact Or.inr h
    · simp only [he, Bool.false_eq_true, if_false, List.mem_append, List.mem_cons,
        exists_eq_or_imp]
      tauto

/-- **A capability is filed in the catch-all** and in the bucket of the key of
each element of its primary value. -/
theorem mem_bucketKeys (c : Capability) (key : BucketKey) :
    key ∈ c.bucketKeys ↔ key = .any ∨ ∃ v, c.primary = some v ∧ ∃ e ∈ v.elements, key = .value e.key := by
  unfold bucketKeys
  cases hp : c.primary with
  | none => simp
  | some v =>
    rw [mem_foldl_keys]
    simp

theorem any_mem_bucketKeys (c : Capability) : BucketKey.any ∈ c.bucketKeys :=
  (mem_bucketKeys c _).2 (Or.inl rfl)

theorem value_mem_bucketKeys (c : Capability) (k : String) :
    BucketKey.value k ∈ c.bucketKeys ↔ ∃ v, c.primary = some v ∧ ∃ e ∈ v.elements, e.key = k := by
  rw [mem_bucketKeys]
  simp [eq_comm]

end Capability

/-! ### Sets of references -/

namespace CapRef

theorem insert_of_fresh {s : List CapRef} {c : CapRef} (h : ∀ x ∈ s, x.key ≠ c.key) :
    insert s c = s ++ [c] := by
  have : (s.any fun x => decide (x.key = c.key)) = false := by simpa using h
  simp [insert, this]

theorem insert_insert (s : List CapRef) (c : CapRef) : insert (insert s c) c = insert s c := by
  by_cases h : s.any fun x => decide (x.key = c.key)
  · simp [insert, h]
  · simp [insert, h]

theorem insert_ne_nil (s : List CapRef) (c : CapRef) : insert s c ≠ [] := by
  by_cases h : s.any fun x => decide (x.key = c.key)
  · rw [insert, if_pos h]
    intro hs
    simp [hs] at h
  · simp [insert, h]

end CapRef

/-! ### The references of a resource -/

namespace Resource

/-- **The references of a resource** are those to its capabilities, by
position. -/
theorem mem_capRefs (r : Resource) (c : CapRef) :
    c ∈ r.capRefs ↔ c.resource = r ∧ r.capabilities[c.position]? = some c.capability := by
  rw [capRefs, List.mem_map]
  constructor
  · rintro ⟨⟨i, cap⟩, hmem, rfl⟩
    obtain ⟨j, hj⟩ := List.mem_iff_getElem?.1 hmem
    rw [List.getElem?_zip_eq_some] at hj
    obtain ⟨hi, hcap⟩ := hj
    have hlt : j < r.capabilities.length := (List.getElem?_eq_some_iff.1 hcap).1
    rw [List.getElem?_range hlt] at hi
    cases hi
    exact ⟨rfl, hcap⟩
  · rintro ⟨hr, hc⟩
    have hlt : c.position < r.capabilities.length := by
      by_contra hge
      rw [List.getElem?_eq_none (by omega)] at hc
      cases hc
    refine ⟨(c.position, c.capability), List.mem_iff_getElem?.2 ⟨c.position, ?_⟩, ?_⟩
    · rw [List.getElem?_zip_eq_some, List.getElem?_range hlt]
      exact ⟨rfl, hc⟩
    · cases c
      simp_all

theorem key_nodup_capRefs (r : Resource) : (r.capRefs.map CapRef.key).Nodup := by
  have hfst : ((List.range r.capabilities.length).zip r.capabilities).map Prod.fst =
      List.range r.capabilities.length := List.map_fst_zip (by simp)
  have hkeys : r.capRefs.map CapRef.key =
      (((List.range r.capabilities.length).zip r.capabilities).map Prod.fst).map (r.id, ·) := by
    rw [capRefs, List.map_map, List.map_map]
    exact List.map_congr_left fun _ _ => rfl
  rw [hkeys, hfst]
  exact List.nodup_range.map fun _ _ h => (Prod.mk.inj h).2

end Resource

/-! ### Filing and taking out one reference -/

namespace Index

/-- The references in the bucket of a key; a missing bucket holds none. -/
def slot (bs : Buckets) (key : BucketKey) : List CapRef := (bs.lookup key).getD []

/-- The references filed under a namespace and a key. -/
def filed (m : Entries String Buckets) (ns : String) (key : BucketKey) : List CapRef :=
  slot ((m.lookup ns).getD Entries.empty) key

theorem bucket_eq_filed (idx : Index) (ns : String) (key : BucketKey) :
    idx.bucket ns key = filed idx.buckets ns key := by
  unfold bucket filed slot
  cases idx.buckets.lookup ns <;> rfl

theorem lookup_fileKeys (c : CapRef) (keys : List BucketKey) (bs : Buckets) (key : BucketKey) :
    (keys.foldl (fun bs k => bs.update k [] (CapRef.insert · c)) bs).lookup key =
      if key ∈ keys then some (CapRef.insert (slot bs key) c) else bs.lookup key := by
  induction keys generalizing bs with
  | nil => simp
  | cons k ks ih =>
    rw [List.foldl_cons, ih]
    by_cases hk : k = key
    · subst hk
      simp [slot, Entries.lookup_update, CapRef.insert_insert]
    · by_cases hm : key ∈ ks <;> simp [slot, Entries.lookup_update, hk, hm, Ne.symm hk]

/-- **Filing a reference adds it to the buckets of its namespace and keys**,
and to no other. -/
theorem filed_file (m : Entries String Buckets) (c : CapRef) (ns : String) (key : BucketKey) :
    filed (file m c) ns key =
      if c.capability.ns = ns ∧ key ∈ c.capability.bucketKeys then CapRef.insert (filed m ns key) c
      else filed m ns key := by
  unfold file filed
  rw [Entries.lookup_update]
  by_cases hns : c.capability.ns = ns
  · subst hns
    by_cases hk : key ∈ c.capability.bucketKeys <;> simp [slot, lookup_fileKeys, hk]
  · simp [hns]

theorem slot_unfileKey (c : CapRef) (bs : Buckets) (k key : BucketKey) :
    slot (unfileKey c bs k) key =
      if k = key then (slot bs key).filter (fun x => x.key ≠ c.key) else slot bs key := by
  unfold unfileKey
  cases hb : bs.lookup k with
  | none =>
    by_cases hk : k = key
    · subst hk
      simp [slot, hb]
    · simp [hk]
  | some b =>
    simp only
    by_cases he : (b.filter fun x => x.key ≠ c.key).isEmpty
    · rw [if_pos he]
      by_cases hk : k = key
      · subst hk
        simp only [slot, Entries.lookup_erase, hb, if_true, Option.getD_none, Option.getD_some]
        exact (List.isEmpty_iff.1 he).symm
      · simp [slot, Entries.lookup_erase, hk]
    · rw [if_neg he]
      by_cases hk : k = key
      · subst hk
        simp [slot, Entries.lookup_set, hb]
      · simp [slot, Entries.lookup_set, hk]

theorem slot_unfileKeys (c : CapRef) (keys : List BucketKey) (bs : Buckets) (key : BucketKey) :
    slot (keys.foldl (unfileKey c) bs) key =
      if key ∈ keys then (slot bs key).filter (fun x => x.key ≠ c.key) else slot bs key := by
  induction keys generalizing bs with
  | nil => simp
  | cons k ks ih =>
    rw [List.foldl_cons, ih, slot_unfileKey]
    by_cases hk : k = key
    · subst hk
      simp [List.filter_filter]
    · by_cases hm : key ∈ ks <;> simp [hk, hm, Ne.symm hk]

/-- **Taking a reference out removes it from the buckets of its namespace and
keys**, and from no other, whatever is dropped on the way. -/
theorem filed_unfile (m : Entries String Buckets) (c : CapRef) (ns : String) (key : BucketKey) :
    filed (unfile m c) ns key =
      if c.capability.ns = ns ∧ key ∈ c.capability.bucketKeys then
        (filed m ns key).filter (fun x => x.key ≠ c.key)
      else filed m ns key := by
  unfold unfile
  cases hm : m.lookup c.capability.ns with
  | none =>
    by_cases hns : c.capability.ns = ns
    · subst hns
      simp [filed, slot, hm]
    · simp [hns]
  | some bs =>
    simp only
    set bs' := c.capability.bucketKeys.foldl (unfileKey c) bs with hbs'
    by_cases hns : c.capability.ns = ns
    · subst hns
      have hleft : filed (if bs'.isEmpty then m.erase c.capability.ns
          else m.set c.capability.ns bs') c.capability.ns key = slot bs' key := by
        split
        · rename_i he
          simp [filed, slot, Entries.lookup_erase, Entries.lookup_eq_none_of_isEmpty he]
        · simp [filed, Entries.lookup_set]
      rw [hleft, hbs', slot_unfileKeys]
      simp [filed, hm]
    · split <;> simp [filed, Entries.lookup_erase, Entries.lookup_set, hns]

/-! ### Nothing is kept empty -/

/-- **No bucket and no namespace is kept empty.** -/
structure Tidy (m : Entries String Buckets) : Prop where
  namespace_ne : ∀ ns bs, m.lookup ns = some bs → bs.isEmpty = false
  bucket_ne : ∀ ns bs key b, m.lookup ns = some bs → bs.lookup key = some b → b ≠ []

/-- Filing a reference gives its namespace its catch-all bucket at least, and
every bucket it touches the reference. -/
theorem Tidy.file {m : Entries String Buckets} (h : Tidy m) (c : CapRef) : Tidy (file m c) := by
  constructor
  · intro ns bs hbs
    unfold Index.file at hbs
    rw [Entries.lookup_update] at hbs
    split at hbs
    · cases hbs
      rw [Entries.isEmpty_eq_false_iff]
      exact ⟨.any, _, by rw [lookup_fileKeys, if_pos (Capability.any_mem_bucketKeys _)]⟩
    · exact h.namespace_ne ns bs hbs
  · intro ns bs key b hbs hb
    unfold Index.file at hbs
    rw [Entries.lookup_update] at hbs
    split at hbs
    · cases hbs
      rw [lookup_fileKeys] at hb
      split at hb
      · cases hb
        exact CapRef.insert_ne_nil _ _
      · -- a bucket the namespace had before
        cases hm : m.lookup c.capability.ns with
        | none => simp [hm] at hb
        | some bs₀ =>
          rw [hm, Option.getD_some] at hb
          exact h.bucket_ne _ bs₀ key b hm hb
    · exact h.bucket_ne ns bs key b hbs hb

theorem unfileKey_ne_nil {bs : Buckets} (h : ∀ key b, bs.lookup key = some b → b ≠ [])
    (c : CapRef) (k : BucketKey) : ∀ key b, (unfileKey c bs k).lookup key = some b → b ≠ [] := by
  intro key b hb
  unfold unfileKey at hb
  cases hk : bs.lookup k with
  | none =>
    rw [hk] at hb
    exact h key b hb
  | some b₀ =>
    rw [hk] at hb
    simp only at hb
    split at hb
    · rw [Entries.lookup_erase] at hb
      split at hb
      · cases hb
      · exact h key b hb
    · rename_i he
      rw [Entries.lookup_set] at hb
      split at hb
      · cases hb
        intro hnil
        rw [hnil] at he
        simp at he
      · exact h key b hb

theorem unfileKeys_ne_nil {bs : Buckets} (h : ∀ key b, bs.lookup key = some b → b ≠ [])
    (c : CapRef) (keys : List BucketKey) :
    ∀ key b, (keys.foldl (unfileKey c) bs).lookup key = some b → b ≠ [] := by
  induction keys generalizing bs with
  | nil => exact h
  | cons k ks ih => exact ih (unfileKey_ne_nil h c k)

/-- Taking a reference out drops the buckets and the namespace it empties. -/
theorem Tidy.unfile {m : Entries String Buckets} (h : Tidy m) (c : CapRef) :
    Tidy (unfile m c) := by
  unfold Index.unfile
  cases hm : m.lookup c.capability.ns with
  | none => exact h
  | some bs =>
    simp only
    have hbs := unfileKeys_ne_nil (h.bucket_ne _ bs · · hm) c c.capability.bucketKeys
    split
    · constructor
      · intro ns bs' hbs'
        rw [Entries.lookup_erase] at hbs'
        split at hbs'
        · cases hbs'
        · exact h.namespace_ne ns bs' hbs'
      · intro ns bs' key b hbs' hb
        rw [Entries.lookup_erase] at hbs'
        split at hbs'
        · cases hbs'
        · exact h.bucket_ne ns bs' key b hbs' hb
    · rename_i he
      constructor
      · intro ns bs' hbs'
        rw [Entries.lookup_set] at hbs'
        split at hbs'
        · cases hbs'
          simpa using he
        · exact h.namespace_ne ns bs' hbs'
      · intro ns bs' key b hbs' hb
        rw [Entries.lookup_set] at hbs'
        split at hbs'
        · cases hbs'
          exact hbs key b hb
        · exact h.bucket_ne ns bs' key b hbs' hb

/-! ### The bucket invariant -/

/-- **The buckets hold a set of references**: each bucket holds those of its
namespace that are filed under its key, each once, and nothing is kept
empty. -/
structure Files (m : Entries String Buckets) (S : List CapRef) : Prop where
  mem : ∀ ns key c, c ∈ filed m ns key ↔ c ∈ S ∧ c.capability.ns = ns ∧ key ∈ c.capability.bucketKeys
  nodup : ∀ ns key, ((filed m ns key).map CapRef.key).Nodup
  tidy : Tidy m

theorem files_empty : Files Entries.empty [] where
  mem := by simp [filed, slot]
  nodup := by simp [filed, slot]
  tidy := ⟨by simp, by simp⟩

theorem Files.congr {m : Entries String Buckets} {S S' : List CapRef} (h : Files m S)
    (hS : ∀ c, c ∈ S ↔ c ∈ S') : Files m S' :=
  ⟨fun ns key c => (h.mem ns key c).trans (by rw [hS]), h.nodup, h.tidy⟩

/-- **Filing a reference that is not held yet** adds it to the set. -/
theorem Files.file {m : Entries String Buckets} {S : List CapRef} (h : Files m S) {c : CapRef}
    (hc : c.key ∉ S.map CapRef.key) : Files (file m c) (S ++ [c]) := by
  have hfresh : ∀ ns key, ∀ x ∈ filed m ns key, x.key ≠ c.key := fun ns key x hx hxc =>
    hc (List.mem_map.2 ⟨x, ((h.mem ns key x).1 hx).1, hxc⟩)
  refine ⟨fun ns key x => ?_, fun ns key => ?_, h.tidy.file c⟩
  · rw [filed_file]
    split
    · rename_i hcond
      rw [CapRef.insert_of_fresh (hfresh ns key), List.mem_append, h.mem, List.mem_singleton,
        List.mem_append, List.mem_singleton]
      constructor
      · rintro (⟨hx, hns, hk⟩ | rfl)
        · exact ⟨Or.inl hx, hns, hk⟩
        · exact ⟨Or.inr rfl, hcond⟩
      · rintro ⟨hx | rfl, hns, hk⟩
        · exact Or.inl ⟨hx, hns, hk⟩
        · exact Or.inr rfl
    · rename_i hcond
      rw [h.mem, List.mem_append, List.mem_singleton]
      constructor
      · rintro ⟨hx, hns, hk⟩
        exact ⟨Or.inl hx, hns, hk⟩
      · rintro ⟨hx | rfl, hns, hk⟩
        · exact ⟨hx, hns, hk⟩
        · exact absurd ⟨hns, hk⟩ hcond
  · rw [filed_file]
    split
    · rw [CapRef.insert_of_fresh (hfresh ns key), List.map_append, List.nodup_append]
      refine ⟨h.nodup ns key, List.nodup_singleton _, fun a ha b hb hab => ?_⟩
      obtain ⟨x, hx, rfl⟩ := List.mem_map.1 ha
      rw [List.map_singleton, List.mem_singleton] at hb
      exact hfresh ns key x hx (hab.trans hb)
    · exact h.nodup ns key

/-- **Taking out a reference of the set** removes it from the set. -/
theorem Files.unfile {m : Entries String Buckets} {S : List CapRef} (h : Files m S)
    (hS : (S.map CapRef.key).Nodup) {c : CapRef} (hc : c ∈ S) :
    Files (unfile m c) (S.filter fun x => x.key ≠ c.key) := by
  refine ⟨fun ns key x => ?_, fun ns key => ?_, h.tidy.unfile c⟩
  · rw [filed_unfile, List.mem_filter, decide_eq_true_iff]
    split
    · rw [List.mem_filter, decide_eq_true_iff, h.mem]
      tauto
    · rename_i hcond
      rw [h.mem]
      constructor
      · rintro ⟨hx, hns, hk⟩
        refine ⟨⟨hx, fun hxc => hcond ?_⟩, hns, hk⟩
        rw [← List.inj_on_of_nodup_map hS hx hc hxc]
        exact ⟨hns, hk⟩
      · rintro ⟨⟨hx, -⟩, hns, hk⟩
        exact ⟨hx, hns, hk⟩
  · rw [filed_unfile]
    split
    · exact (h.nodup ns key).sublist ((List.filter_sublist).map _)
    · exact h.nodup ns key

/-- Filing the references of a resource one after the other. -/
theorem Files.file_all {m : Entries String Buckets} {S : List CapRef} (h : Files m S)
    (cs : List CapRef) (hn : ((S ++ cs).map CapRef.key).Nodup) :
    Files (cs.foldl Index.file m) (S ++ cs) := by
  induction cs generalizing m S with
  | nil => simpa using h
  | cons c cs ih =>
    have hc : c.key ∉ S.map CapRef.key := by
      rw [List.map_append, List.nodup_append] at hn
      exact fun hmem => hn.2.2 _ hmem _ List.mem_cons_self rfl
    rw [List.foldl_cons]
    have := ih (h.file hc) (by simpa using hn)
    simpa using this

/-- Taking out the references of a resource one after the other. -/
theorem Files.unfile_all {m : Entries String Buckets} {S : List CapRef} (h : Files m S)
    (hS : (S.map CapRef.key).Nodup) (cs : List CapRef) (hcs : ∀ c ∈ cs, c ∈ S)
    (hn : (cs.map CapRef.key).Nodup) :
    Files (cs.foldl Index.unfile m) (S.filter fun x => x.key ∉ cs.map CapRef.key) := by
  induction cs generalizing m S with
  | nil => simpa using h
  | cons c cs ih =>
    rw [List.map_cons, List.nodup_cons] at hn
    rw [List.foldl_cons]
    have hrest : ∀ c' ∈ cs, c' ∈ S.filter fun x => x.key ≠ c.key := by
      intro c' hc'
      refine List.mem_filter.2 ⟨hcs c' (List.mem_cons_of_mem _ hc'), decide_eq_true fun he => hn.1 ?_⟩
      rw [← he]
      exact List.mem_map_of_mem hc'
    refine (ih (h.unfile hS (hcs c List.mem_cons_self))
      (hS.sublist ((List.filter_sublist).map _)) hrest hn.2).congr fun x => ?_
    simp only [List.mem_filter, List.map_cons, List.mem_cons, decide_eq_true_iff, not_or]
    tauto

/-- A namespace is kept exactly when something is filed under it. -/
theorem Tidy.isSome_lookup_iff {m : Entries String Buckets} (h : Tidy m) (ns : String) :
    (m.lookup ns).isSome ↔ ∃ key c, c ∈ filed m ns key := by
  constructor
  · intro hs
    obtain ⟨bs, hbs⟩ := Option.isSome_iff_exists.1 hs
    obtain ⟨key, b, hb⟩ := (Entries.isEmpty_eq_false_iff bs).1 (h.namespace_ne ns bs hbs)
    obtain ⟨c, hc⟩ := List.exists_mem_of_ne_nil b (h.bucket_ne ns bs key b hbs hb)
    exact ⟨key, c, by simpa [filed, slot, hbs, hb] using hc⟩
  · rintro ⟨key, c, hc⟩
    cases hm : m.lookup ns with
    | none => simp [filed, slot, hm] at hc
    | some bs => rfl

/-! ### The invariant along a run -/

/-- The references of resources with distinct identities are distinct. -/
theorem key_nodup_flatMap {rs : List Resource} (h : (rs.map (·.id)).Nodup) :
    ((rs.flatMap Resource.capRefs).map CapRef.key).Nodup := by
  rw [List.map_flatMap]
  refine List.nodup_flatMap.2 ⟨fun r _ => r.key_nodup_capRefs, ?_⟩
  refine (List.pairwise_map.1 h).imp fun {a b} hab x hxa hxb => ?_
  obtain ⟨c, hc, rfl⟩ := List.mem_map.1 hxa
  obtain ⟨c', hc', hcc'⟩ := List.mem_map.1 hxb
  have ha := ((a.mem_capRefs c).1 hc).1
  have hb := ((b.mem_capRefs c').1 hc').1
  exact hab (by rw [← ha, ← hb]; exact (congrArg Prod.fst hcc').symm)

/-- **The index invariant**: each identity is held once, and the buckets hold
the references to the capabilities of the resources held. -/
structure Valid (idx : Index) : Prop where
  ids : (idx.resources.map (·.id)).Nodup
  files : Files idx.buckets idx.capRefs

theorem valid_empty : empty.Valid := ⟨List.nodup_nil, files_empty⟩

theorem get?_eq_some {idx : Index} {id : ResourceId} {q : Resource} (h : idx.get? id = some q) :
    q ∈ idx.resources ∧ q.id = id :=
  ⟨List.mem_of_find?_eq_some h, by simpa using List.find?_some h⟩

theorem get?_eq_none {idx : Index} {id : ResourceId} (h : idx.get? id = none) :
    ∀ q ∈ idx.resources, q.id ≠ id := by
  simpa [get?] using h

/-- **An addition keeps the invariant.** -/
theorem Valid.add {idx idx' : Index} {r : Resource} (h : idx.Valid) (hadd : idx.add r = .ok idx') :
    idx'.Valid := by
  unfold Index.add at hadd
  split at hadd
  · cases hadd
  · rename_i hheld
    cases hadd
    have hfresh : ∀ q ∈ idx.resources, q.id ≠ r.id := by simpa [contains] using hheld
    have hids : ((idx.resources ++ [r]).map (·.id)).Nodup := by
      rw [List.map_append, List.nodup_append]
      refine ⟨h.ids, List.nodup_singleton _, fun a ha b hb hab => ?_⟩
      obtain ⟨q, hq, rfl⟩ := List.mem_map.1 ha
      rw [List.map_singleton, List.mem_singleton] at hb
      exact hfresh q hq (hab.trans hb)
    refine ⟨hids, ?_⟩
    have hall := h.files.file_all r.capRefs (by simpa [capRefs] using key_nodup_flatMap hids)
    simpa [capRefs] using hall

/-- **A removal keeps the invariant**: taking out the references of the
resource held leaves exactly those of the others. -/
theorem Valid.remove {idx : Index} (h : idx.Valid) (id : ResourceId) : (idx.remove id).1.Valid := by
  unfold Index.remove
  cases hg : idx.get? id with
  | none => exact h
  | some held =>
    obtain ⟨hmem, hid⟩ := get?_eq_some hg
    refine ⟨h.ids.sublist ((List.filter_sublist).map _), ?_⟩
    refine (h.files.unfile_all (key_nodup_flatMap h.ids) held.capRefs
      (fun c hc => List.mem_flatMap.2 ⟨held, hmem, hc⟩) held.key_nodup_capRefs).congr fun c => ?_
    simp only [capRefs, List.mem_filter, List.mem_flatMap, decide_eq_true_iff, bne_iff_ne, ne_eq]
    constructor
    · rintro ⟨⟨q, hq, hc⟩, hkey⟩
      refine ⟨q, ⟨hq, fun hqid => hkey ?_⟩, hc⟩
      have hq' : q = held := List.inj_on_of_nodup_map h.ids hq hmem (hqid.trans hid.symm)
      subst hq'
      exact List.mem_map_of_mem hc
    · rintro ⟨q, ⟨hq, hqid⟩, hc⟩
      refine ⟨⟨q, hq, hc⟩, fun hkey => hqid ?_⟩
      obtain ⟨c', hc', hkey'⟩ := List.mem_map.1 hkey
      have h₁ := ((held.mem_capRefs c').1 hc').1
      have h₂ := ((q.mem_capRefs c).1 hc).1
      have hids : c'.resource.id = c.resource.id := congrArg Prod.fst hkey'
      rw [← hid, ← h₁, hids, h₂]

/-! ### What the index answers -/

theorem mem_capRefs_iff (idx : Index) (c : CapRef) :
    c ∈ idx.capRefs ↔
      ∃ q ∈ idx.resources, c.resource = q ∧ q.capabilities[c.position]? = some c.capability := by
  simp only [capRefs, List.mem_flatMap, Resource.mem_capRefs]

/-- Some reference of the index is in a namespace exactly when some capability
of a resource held is. -/
theorem exists_capRefs_ns_iff (idx : Index) (ns : String) :
    (∃ c ∈ idx.capRefs, c.capability.ns = ns) ↔
      ∃ q ∈ idx.resources, ∃ cap ∈ q.capabilities, cap.ns = ns := by
  simp only [mem_capRefs_iff]
  constructor
  · rintro ⟨c, ⟨q, hq, -, hcap⟩, hns⟩
    exact ⟨q, hq, c.capability, List.mem_of_getElem? hcap, hns⟩
  · rintro ⟨q, hq, cap, hcap, hns⟩
    obtain ⟨i, hi⟩ := List.mem_iff_getElem?.1 hcap
    exact ⟨⟨q, i, cap⟩, ⟨q, hq, rfl, hi⟩, hns⟩

/-- **What an index answers, given the resources it should hold**: it holds
exactly them, each identity once; the catch-all bucket of a namespace holds the
references to their capabilities in the namespace, and the bucket of a key
those whose primary value has an element with the key, each once; and the
namespaces in use are those of their capabilities, sorted. -/
structure Answers (idx : Index) (P : List Resource) : Prop where
  resources : idx.resources = P
  ids : (P.map (·.id)).Nodup
  enumerateAll : ∀ ns c, c ∈ idx.enumerateAll ns ↔
    ∃ q ∈ P, c.resource = q ∧ q.capabilities[c.position]? = some c.capability ∧
      c.capability.ns = ns
  findExact : ∀ ns k c, c ∈ idx.findExact ns k ↔
    ∃ q ∈ P, c.resource = q ∧ q.capabilities[c.position]? = some c.capability ∧
      c.capability.ns = ns ∧ ∃ v, c.capability.primary = some v ∧ ∃ e ∈ v.elements, e.key = k
  enumerateAll_nodup : ∀ ns, ((idx.enumerateAll ns).map CapRef.key).Nodup
  findExact_nodup : ∀ ns k, ((idx.findExact ns k).map CapRef.key).Nodup
  namespaces_sorted : idx.namespaces.Pairwise (· < ·)
  mem_namespaces : ∀ ns, ns ∈ idx.namespaces ↔ ∃ q ∈ P, ∃ cap ∈ q.capabilities, cap.ns = ns

theorem Valid.mem_enumerateAll {idx : Index} (h : idx.Valid) (ns : String) (c : CapRef) :
    c ∈ idx.enumerateAll ns ↔ c ∈ idx.capRefs ∧ c.capability.ns = ns := by
  rw [enumerateAll, bucket_eq_filed, h.files.mem]
  simp [Capability.any_mem_bucketKeys]

theorem Valid.mem_findExact {idx : Index} (h : idx.Valid) (ns k : String) (c : CapRef) :
    c ∈ idx.findExact ns k ↔ c ∈ idx.capRefs ∧ c.capability.ns = ns ∧
      ∃ v, c.capability.primary = some v ∧ ∃ e ∈ v.elements, e.key = k := by
  rw [findExact, bucket_eq_filed, h.files.mem, Capability.value_mem_bucketKeys]

/-- **A valid index answers as the resources it holds.** -/
theorem Valid.answers {idx : Index} (h : idx.Valid) : idx.Answers idx.resources where
  resources := rfl
  ids := h.ids
  enumerateAll ns c := by rw [h.mem_enumerateAll, mem_capRefs_iff]; simp [and_assoc]
  findExact ns k c := by rw [h.mem_findExact, mem_capRefs_iff]; simp [and_assoc]
  enumerateAll_nodup ns := by rw [enumerateAll, bucket_eq_filed]; exact h.files.nodup _ _
  findExact_nodup ns k := by rw [findExact, bucket_eq_filed]; exact h.files.nodup _ _
  namespaces_sorted := idx.namespaces_sorted
  mem_namespaces ns := by
    rw [mem_namespaces_iff, h.files.tidy.isSome_lookup_iff, ← exists_capRefs_ns_iff]
    simp only [h.files.mem]
    constructor
    · rintro ⟨key, c, hc, hns, -⟩
      exact ⟨c, hc, hns⟩
    · rintro ⟨c, hc, hns⟩
      exact ⟨.any, c, hc, hns, c.capability.any_mem_bucketKeys⟩

end Index

/-! ### Runs of operations -/

namespace IndexOp

/-- What an operation does to the resources held: an addition adds a resource
whose identity is not held, a removal drops the resource with the identity. -/
def keep (P : List Resource) : IndexOp → List Resource
  | .add r => if P.any (·.id == r.id) then P else P ++ [r]
  | .remove id => P.filter (·.id != id)

/-- **The resources held after a sequence of operations**, by what the
operations mean. -/
def held (ops : List IndexOp) : List Resource := ops.foldl keep []

/-- **A resource held was added** by one of the operations. -/
theorem mem_held {ops : List IndexOp} {q : Resource} (h : q ∈ held ops) : IndexOp.add q ∈ ops := by
  -- through a run from any start, a resource held was there at the start or added on the way
  suffices ∀ P, q ∈ ops.foldl keep P → q ∈ P ∨ IndexOp.add q ∈ ops by
    simpa using this [] h
  clear h
  induction ops with
  | nil => exact fun P hq => Or.inl hq
  | cons op ops ih =>
    intro P hq
    rcases ih (keep P op) hq with hk | hk
    · cases op with
      | add r =>
        simp only [keep] at hk
        split at hk
        · exact Or.inl hk
        · rcases List.mem_append.1 hk with hk | hk
          · exact Or.inl hk
          · rw [List.mem_singleton.1 hk]
            exact Or.inr List.mem_cons_self
      | remove id => exact Or.inl (List.mem_filter.1 hk).1
    · exact Or.inr (List.mem_cons_of_mem op hk)

end IndexOp

namespace Index

/-- One operation keeps the invariant and does to the resources what it
means. -/
theorem Valid.step {idx : Index} (h : idx.Valid) (op : IndexOp) :
    (idx.apply op).Valid ∧ (idx.apply op).resources = IndexOp.keep idx.resources op := by
  cases op with
  | add r =>
    simp only [Index.apply, IndexOp.keep]
    cases hadd : idx.add r with
    | ok idx' =>
      refine ⟨h.add hadd, ?_⟩
      unfold Index.add at hadd
      split at hadd
      · cases hadd
      · rename_i hheld
        cases hadd
        simp only [contains] at hheld
        simp [hheld]
    | error e =>
      refine ⟨h, ?_⟩
      unfold Index.add at hadd
      split at hadd
      · rename_i hheld
        simp only [contains] at hheld
        simp [hheld]
      · cases hadd
  | remove id =>
    refine ⟨h.remove id, ?_⟩
    simp only [Index.apply, IndexOp.keep, Index.remove]
    cases hg : idx.get? id with
    | none =>
      simp only
      exact (List.filter_eq_self.2 fun q hq => by simpa using get?_eq_none hg q hq).symm
    | some held => rfl

/-- **Along a run the invariant holds, and the index holds what the operations
mean.** -/
theorem run_valid (ops : List IndexOp) :
    (run ops).Valid ∧ (run ops).resources = IndexOp.held ops := by
  -- the run and the resources it should hold advance together, one operation at a time
  suffices ∀ (idx : Index), idx.Valid → ∀ P, idx.resources = P →
      (ops.foldl apply idx).Valid ∧ (ops.foldl apply idx).resources = ops.foldl IndexOp.keep P from
    this empty valid_empty [] rfl
  induction ops with
  | nil => exact fun idx h P hP => ⟨h, hP⟩
  | cons op ops ih =>
    intro idx h P hP
    obtain ⟨h', hres⟩ := h.step op
    exact ih _ h' _ (hres.trans (by rw [hP]))

theorem run_append (ops : List IndexOp) (op : IndexOp) : run (ops ++ [op]) = (run ops).apply op := by
  simp [run, List.foldl_append]

/-- **The index answers as the resources added and not removed since.** After
any sequence of additions and removals from the empty index, it holds exactly
those resources, its buckets and namespaces are those of their capabilities,
an addition is refused, naming the identity and changing nothing, exactly when
the identity is held, and a removal reports whether it was. -/
theorem run_answers_held (ops : List IndexOp) :
    (run ops).Answers (IndexOp.held ops) ∧
      (∀ r, (run ops).add r = .error ⟨r.id⟩ ↔ ∃ q ∈ IndexOp.held ops, q.id = r.id) ∧
      (∀ r, (¬∃ q ∈ IndexOp.held ops, q.id = r.id) →
        (run ops).add r = .ok (run (ops ++ [.add r]))) ∧
      (∀ r, (∃ q ∈ IndexOp.held ops, q.id = r.id) → run (ops ++ [.add r]) = run ops) ∧
      (∀ id, ((run ops).remove id).2 = true ↔ ∃ q ∈ IndexOp.held ops, q.id = id) := by
  obtain ⟨hvalid, hheld⟩ := run_valid ops
  have hcontains : ∀ id, (run ops).contains id = true ↔ ∃ q ∈ IndexOp.held ops, q.id = id := by
    intro id
    simp [contains, hheld]
  refine ⟨hheld ▸ hvalid.answers, fun r => ?_, fun r hr => ?_, fun r hr => ?_, fun id => ?_⟩
  · rw [← hcontains, Index.add]
    split <;> simp_all
  · have hfalse : (run ops).contains r.id = false := by simpa [← hcontains] using hr
    have hadd : (run ops).add r =
        .ok ⟨(run ops).resources ++ [r], r.capRefs.foldl file (run ops).buckets⟩ := by
      rw [Index.add, if_neg (by simp [hfalse])]
    rw [run_append, Index.apply, hadd]
  · have hadd : (run ops).add r = .error ⟨r.id⟩ := by rw [Index.add, if_pos ((hcontains r.id).2 hr)]
    rw [run_append, Index.apply, hadd]
  · rw [← hcontains, Index.remove]
    cases hg : (run ops).get? id with
    | none =>
      simp only [Bool.false_eq_true, false_iff, Bool.not_eq_true]
      simpa [contains] using get?_eq_none hg
    | some q =>
      obtain ⟨hq, hid⟩ := get?_eq_some hg
      simp only [true_iff]
      simpa [contains] using ⟨q, hq, hid⟩

end Index

end Depot

import Depot.Proofs.Index
import Depot.Provider

/-!
# Looking providers up is scanning for them

`Depot.Index.providers` does not test every capability of the index: for a
requirement with a primary value and no filter it unites the buckets of the
keys of that value, and for any other requirement it takes the catch-all bucket
of the namespace. Either way it keeps the candidates the requirement accepts.
This file shows that the shortcut loses nothing and adds nothing: on every
index reached by additions and removals, the providers are exactly the
references to the capabilities held that the requirement accepts, each once,
and a lookup fails exactly when the filter does not read.

The key path rests on the bucket invariant of `Depot.Proofs.Index`: a
capability is in the bucket of a key exactly when an element of its primary
value has that key, which is the test `Depot.Compiled.accepts` makes with the
keys of the requirement's own value. Keys are canonical texts, so values of
different kinds meet in one bucket exactly when the acceptance test would let
them meet.
-/

namespace Depot

/-! ### Unions of references -/

namespace CapRef

variable {L : List CapRef}

/-- Two references of a set with distinct keys that share a key are one. -/
theorem eq_of_key_eq (hL : (L.map key).Nodup) {a b : CapRef} (ha : a ∈ L) (hb : b ∈ L)
    (hab : a.key = b.key) : a = b :=
  List.inj_on_of_nodup_map hL ha hb hab

theorem mem_insert_iff (hL : (L.map key).Nodup) {s : List CapRef} (hs : ∀ y ∈ s, y ∈ L)
    {c : CapRef} (hc : c ∈ L) (x : CapRef) : x ∈ insert s c ↔ x ∈ s ∨ x = c := by
  unfold insert
  split
  · rename_i hany
    obtain ⟨y, hy, hyc⟩ := List.any_eq_true.1 hany
    have : y = c := eq_of_key_eq hL (hs y hy) hc (of_decide_eq_true hyc)
    subst this
    constructor
    · exact Or.inl
    · rintro (hx | rfl)
      · exact hx
      · exact hy
  · simp

theorem key_nodup_insert {s : List CapRef} (hs : (s.map key).Nodup) (c : CapRef) :
    ((insert s c).map key).Nodup := by
  unfold insert
  split
  · exact hs
  · rename_i hany
    rw [List.map_append, List.nodup_append]
    refine ⟨hs, List.nodup_singleton _, fun a ha b hb hab => hany ?_⟩
    obtain ⟨y, hy, rfl⟩ := List.mem_map.1 ha
    rw [List.map_singleton, List.mem_singleton] at hb
    exact List.any_eq_true.2 ⟨y, hy, decide_eq_true (hab.trans hb)⟩

/-- **Within a set of references with distinct keys, a union holds the
references of both sides.** -/
theorem mem_union_iff (hL : (L.map key).Nodup) {xs ys : List CapRef} (hxs : ∀ y ∈ xs, y ∈ L)
    (hys : ∀ y ∈ ys, y ∈ L) (x : CapRef) : x ∈ union xs ys ↔ x ∈ xs ∨ x ∈ ys := by
  induction ys generalizing xs with
  | nil => simp [union]
  | cons y ys ih =>
    have hins := mem_insert_iff hL hxs (hys y List.mem_cons_self)
    rw [union, List.foldl_cons, ← union, ih (fun z hz => ?_) (fun z hz => hys z
      (List.mem_cons_of_mem _ hz)), hins, List.mem_cons]
    · tauto
    · rcases (hins z).1 hz with hz | rfl
      · exact hxs z hz
      · exact hys _ List.mem_cons_self

theorem key_nodup_union {xs : List CapRef} (hxs : (xs.map key).Nodup) (ys : List CapRef) :
    ((union xs ys).map key).Nodup := by
  induction ys generalizing xs with
  | nil => exact hxs
  | cons y ys ih => exact ih (key_nodup_insert hxs y)

end CapRef

/-! ### Reading the filter -/

namespace Requirement

theorem compile_eq_error_iff (r : Requirement) (e : FilterError) :
    r.compile = .error e ↔ ∃ t, r.filter = some t ∧ Filter.parse t = .error e := by
  unfold compile
  cases hf : r.filter with
  | none => simp
  | some t =>
    cases hp : Filter.parse t with
    | ok f => simp [hp]
    | error e' => simp [hp, eq_comm]

theorem requirement_of_compile {r : Requirement} {c : Compiled} (h : r.compile = .ok c) :
    c.requirement = r := by
  unfold compile at h
  split at h
  · cases h
    rfl
  · split at h
    · cases h
      rfl
    · cases h

end Requirement

/-! ### What a requirement accepts -/

namespace Compiled

theorem ns_of_accepts {c : Compiled} {cap : Capability} (h : c.accepts cap = true) :
    cap.ns = c.requirement.ns := by
  unfold accepts at h
  by_contra hne
  simp [hne] at h

/-- Without a filter, a requirement with a primary value accepts the
capabilities of its namespace whose primary value shares a key with it. -/
theorem accepts_iff_of_primary {c : Compiled} (hf : c.filter = none) {wanted : Value}
    (hw : c.requirement.primary = some wanted) (cap : Capability) :
    c.accepts cap = true ↔ cap.ns = c.requirement.ns ∧
      ∃ k ∈ wanted.keys, ∃ v, cap.primary = some v ∧ ∃ e ∈ v.elements, e.key = k := by
  unfold accepts
  by_cases hns : cap.ns = c.requirement.ns
  · cases hp : cap.primary with
    | none => simp [hns, hf, hw]
    | some v =>
      simp [hns, hf, hw, Value.keys]
      constructor
      · rintro ⟨x, hx, a, ha, hax⟩
        exact ⟨a, ⟨x, hx, hax.symm⟩, ha⟩
      · rintro ⟨e, ⟨a, ha, hae⟩, he⟩
        exact ⟨a, ha, e, he, hae.symm⟩
  · simp [hns]

end Compiled

/-! ### The candidates of a lookup -/

namespace Index

variable {idx : Index}

/-- The union of the buckets of some keys holds the references filed under any
of them. -/
theorem Valid.mem_foldl_findExact (h : idx.Valid) (ns : String) (keys : List String)
    {acc : List CapRef} (hacc : ∀ y ∈ acc, y ∈ idx.capRefs) (x : CapRef) :
    x ∈ keys.foldl (fun acc k => CapRef.union acc (idx.findExact ns k)) acc ↔
      x ∈ acc ∨ ∃ k ∈ keys, x ∈ idx.findExact ns k := by
  have hL := key_nodup_flatMap h.ids
  have hsub : ∀ k, ∀ y ∈ idx.findExact ns k, y ∈ idx.capRefs := fun k y hy =>
    ((h.mem_findExact ns k y).1 hy).1
  induction keys generalizing acc with
  | nil => simp
  | cons k ks ih =>
    have hunion := CapRef.mem_union_iff hL hacc (hsub k)
    have hacc' : ∀ y ∈ CapRef.union acc (idx.findExact ns k), y ∈ idx.capRefs := by
      intro y hy
      rcases (hunion y).1 hy with hy | hy
      · exact hacc y hy
      · exact hsub k y hy
    simp only [List.foldl_cons]
    refine (ih hacc').trans ?_
    rw [hunion]
    simp only [List.mem_cons, exists_eq_or_imp]
    tauto

/-- **The candidates a requirement accepts are the references of the index it
accepts**: the buckets it looks in hold every reference it could accept. -/
theorem Valid.mem_candidates_accepted (h : idx.Valid) (c : Compiled) (x : CapRef) :
    x ∈ (idx.candidates c).filter (fun ref => c.accepts ref.capability) ↔
      x ∈ idx.capRefs ∧ c.accepts x.capability = true := by
  rw [List.mem_filter]
  unfold candidates
  split
  · -- no filter and a primary value: the union of the buckets of its keys
    rename_i wanted hf hw
    rw [h.mem_foldl_findExact _ _ (fun y hy => by cases hy)]
    simp only [List.not_mem_nil, false_or]
    constructor
    · rintro ⟨⟨k, -, hx⟩, hacc⟩
      exact ⟨((h.mem_findExact _ k x).1 hx).1, hacc⟩
    · rintro ⟨hx, hacc⟩
      obtain ⟨hns, k, hk, hoffer⟩ := (c.accepts_iff_of_primary hf hw x.capability).1 hacc
      exact ⟨⟨k, hk, (h.mem_findExact _ k x).2 ⟨hx, hns, hoffer⟩⟩, hacc⟩
  · -- otherwise: the whole namespace
    rw [h.mem_enumerateAll]
    constructor
    · rintro ⟨⟨hx, -⟩, hacc⟩
      exact ⟨hx, hacc⟩
    · rintro ⟨hx, hacc⟩
      exact ⟨⟨hx, Compiled.ns_of_accepts hacc⟩, hacc⟩

theorem Valid.key_nodup_candidates (h : idx.Valid) (c : Compiled) :
    ((idx.candidates c).map CapRef.key).Nodup := by
  unfold candidates
  split
  · rename_i wanted _ _
    -- every step of the union keeps the keys distinct
    suffices ∀ (keys : List String) (acc : List CapRef), (acc.map CapRef.key).Nodup →
        ((keys.foldl (fun acc k => CapRef.union acc (idx.findExact c.requirement.ns k)) acc).map
          CapRef.key).Nodup from this _ [] List.nodup_nil
    intro keys
    induction keys with
    | nil => exact fun _ hacc => hacc
    | cons k ks ih => exact fun acc hacc => ih _ (CapRef.key_nodup_union hacc _)
  · rw [enumerateAll, bucket_eq_filed]
    exact h.files.nodup _ _

/-- **On a valid index, the providers of a requirement whose filter reads are
the references of the index it accepts**, each once. -/
theorem Valid.providers_eq (h : idx.Valid) {r : Requirement} {c : Compiled}
    (hc : r.compile = .ok c) :
    ∃ refs, idx.providers r = .ok refs ∧
      (∀ x, x ∈ refs ↔ x ∈ idx.capRefs ∧ c.accepts x.capability = true) ∧
      (refs.map CapRef.key).Nodup := by
  refine ⟨(idx.candidates c).filter fun ref => c.accepts ref.capability, ?_,
    h.mem_candidates_accepted c, ?_⟩
  · simp [providers, hc, bind, Except.bind, pure, Except.pure]
  · exact (h.key_nodup_candidates c).sublist ((List.filter_sublist).map _)

theorem providers_eq_error_iff (r : Requirement) (e : FilterError) :
    idx.providers r = .error e ↔ ∃ t, r.filter = some t ∧ Filter.parse t = .error e := by
  rw [← Requirement.compile_eq_error_iff]
  unfold providers
  cases r.compile with
  | ok c => simp [bind, Except.bind, pure, Except.pure]
  | error e' => simp [bind, Except.bind]

/-- **Looking providers up agrees with scanning the index.** On every index
reached by additions and removals, a lookup fails exactly when the requirement
has a filter that does not read, with the reader's error; otherwise it gives,
each once, the references to the capabilities held that the requirement
accepts. In particular the union of the buckets of the keys of a primary value
gives what filtering the whole namespace would. -/
theorem providers_eq_scan (ops : List IndexOp) (r : Requirement) :
    (∀ e, (run ops).providers r = .error e ↔ ∃ t, r.filter = some t ∧ Filter.parse t = .error e) ∧
    (∀ c, r.compile = .ok c → ∃ refs, (run ops).providers r = .ok refs ∧
      (∀ x, x ∈ refs ↔ x ∈ (run ops).capRefs ∧ c.accepts x.capability = true) ∧
      (refs.map CapRef.key).Nodup) ∧
    (∀ c, r.compile = .ok c → ∀ x,
      x ∈ ((run ops).candidates c).filter (fun ref => c.accepts ref.capability) ↔
        x ∈ ((run ops).enumerateAll r.ns).filter (fun ref => c.accepts ref.capability)) := by
  have h := (run_valid ops).1
  refine ⟨providers_eq_error_iff r, fun c hc => h.providers_eq hc, fun c hc x => ?_⟩
  rw [h.mem_candidates_accepted, List.mem_filter, h.mem_enumerateAll,
    ← Requirement.requirement_of_compile hc]
  constructor
  · rintro ⟨hx, hacc⟩
    exact ⟨⟨hx, Compiled.ns_of_accepts hacc⟩, hacc⟩
  · rintro ⟨⟨hx, -⟩, hacc⟩
    exact ⟨hx, hacc⟩

end Index

end Depot

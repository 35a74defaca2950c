import Depot.Proofs.Providers
import Depot.Proofs.Builder
import Depot.Query

/-!
# Evaluating queries: the cache and the conjunction

`Depot.Query.eval` is the plain meaning of a query with two pieces of
machinery on top.

* **The cache of the universe.** With caching on, the set of every resource
  is computed at most once per evaluation and handed along. The cache only ever
  holds that set (`Depot.Query.CacheOk`), so an evaluation with any cache gives
  what one without caching gives (`Depot.Query.evalNode_eq`,
  `Depot.Query.eval_caching`). The proof is a simultaneous recursion over the
  four functions of the evaluator; `Depot.Query.eval_cached_eq_uncached`
  states the result for the two settings.
* **The universe.** On an index of built resources the universe is every
  resource held, and every set an evaluation gives lies inside it, so a double
  negation, which the evaluator drops, agrees with taking the complement twice
  (`Depot.Query.eval_subset_universe`).
* **The conjunction.** A conjunction intersects its ordinary children as it
  goes, but keeps the sets of its negated conjunctions and disjunctions apart
  and subtracts them at the end, starting from the universe when no ordinary
  child is there. This is the plain rule — every child evaluated on its own and
  the sets intersected, the first error winning — because every set an
  evaluation gives lies inside the universe (`Depot.Query.eval_subset`):
  subtracting the inner set is intersecting with its complement there. That
  needs every resource held to have an identity capability, which the builder
  guarantees (`Depot.Resource.Built`).
-/

namespace Depot

/-! ### Results -/

namespace Except

variable {ε α β : Type}

@[simp] theorem ok_bind (a : α) (f : α → Except ε β) : (Except.ok a >>= f) = f a := rfl

@[simp] theorem error_bind (e : ε) (f : α → Except ε β) : (Except.error e >>= f) = .error e := rfl

@[simp] theorem map_ok (f : α → β) (a : α) : f <$> (Except.ok a : Except ε α) = .ok (f a) := rfl

@[simp] theorem map_error (f : α → β) (e : ε) : f <$> (Except.error e : Except ε α) = .error e := rfl

@[simp] theorem pure_eq_ok (a : α) : (pure a : Except ε α) = .ok a := rfl

end Except

namespace ResourceSet

theorem mem_union (a b : ResourceSet) (x : ResourceId) : x ∈ union a b ↔ x ∈ a ∨ x ∈ b := by
  induction b generalizing a with
  | nil => simp [union]
  | cons y ys ih =>
    change x ∈ union (if a.contains y then a else a ++ [y]) ys ↔ _
    rw [ih]
    by_cases hy : y ∈ a
    · rw [if_pos (by simpa using hy), List.mem_cons]
      constructor
      · rintro (hx | hx)
        · exact Or.inl hx
        · exact Or.inr (Or.inr hx)
      · rintro (hx | rfl | hx)
        · exact Or.inl hx
        · exact Or.inl hy
        · exact Or.inr hx
    · rw [if_neg (by simpa using hy), List.mem_append, List.mem_singleton, List.mem_cons]
      tauto

theorem mem_inter (a b : ResourceSet) (x : ResourceId) : x ∈ inter a b ↔ x ∈ a ∧ x ∈ b := by
  simp [inter]

theorem mem_diff (a b : ResourceSet) (x : ResourceId) : x ∈ diff a b ↔ x ∈ a ∧ x ∉ b := by
  simp [diff]

/-- Subtracting sets one after the other keeps what none of them holds. -/
theorem mem_foldl_diff (es : List ResourceSet) (s : ResourceSet) (x : ResourceId) :
    x ∈ es.foldl diff s ↔ x ∈ s ∧ ∀ e ∈ es, x ∉ e := by
  induction es generalizing s with
  | nil => simp
  | cons e es ih =>
    rw [List.foldl_cons, ih, mem_diff]
    simp only [List.mem_cons, forall_eq_or_imp]
    tauto

/-- Uniting sets one after the other keeps what any of them holds. -/
theorem mem_foldl_union (ps : List ResourceSet) (acc : ResourceSet) (x : ResourceId) :
    x ∈ ps.foldl union acc ↔ x ∈ acc ∨ ∃ p ∈ ps, x ∈ p := by
  induction ps generalizing acc with
  | nil => simp
  | cons p ps ih =>
    rw [List.foldl_cons, ih, mem_union]
    simp only [List.mem_cons, exists_eq_or_imp]
    tauto

/-- The intersection of a list of sets: of none, nothing. -/
def interAll : List ResourceSet → ResourceSet
  | [] => []
  | s :: ss => ss.foldl inter s

theorem mem_foldl_inter (ss : List ResourceSet) (s : ResourceSet) (x : ResourceId) :
    x ∈ ss.foldl inter s ↔ x ∈ s ∧ ∀ t ∈ ss, x ∈ t := by
  induction ss generalizing s with
  | nil => simp
  | cons t ss ih =>
    rw [List.foldl_cons, ih, mem_inter]
    simp only [List.mem_cons, forall_eq_or_imp]
    tauto

theorem mem_interAll {ss : List ResourceSet} (hss : ss ≠ []) (x : ResourceId) :
    x ∈ interAll ss ↔ ∀ t ∈ ss, x ∈ t := by
  cases ss with
  | nil => exact absurd rfl hss
  | cons s ss =>
    rw [interAll, mem_foldl_inter]
    simp

end ResourceSet

/-! ### Requirements and the universe -/

namespace Query

variable {idx : Index}

theorem simpleSet_of_compile_error {r : Requirement} {e : FilterError}
    (hc : r.compile = .error e) : simpleSet idx r = .error (.filter e) := by
  have hp : idx.providers r = .error e := by
    simp [Index.providers, hc, bind, Except.bind]
  simp [simpleSet, hp]

/-- **The set of a requirement whose filter reads** is the resources of the
references it accepts. -/
theorem Valid.simpleSet_eq (h : idx.Valid) {r : Requirement} {c : Compiled}
    (hc : r.compile = .ok c) :
    ∃ s, simpleSet idx r = .ok s ∧
      ∀ x, x ∈ s ↔ ∃ ref ∈ idx.capRefs, ref.resource.id = x ∧ c.accepts ref.capability = true := by
  obtain ⟨refs, hrefs, hmem, -⟩ := Index.Valid.providers_eq h hc
  refine ⟨ResourceSet.union [] (refs.map (·.resource.id)), by simp [simpleSet, hrefs], fun x => ?_⟩
  rw [ResourceSet.mem_union]
  simp only [List.not_mem_nil, false_or, List.mem_map]
  constructor
  · rintro ⟨ref, href, rfl⟩
    obtain ⟨hin, hacc⟩ := (hmem ref).1 href
    exact ⟨ref, hin, rfl, hacc⟩
  · rintro ⟨ref, hin, rfl, hacc⟩
    exact ⟨ref, (hmem ref).2 ⟨hin, hacc⟩, rfl⟩

/-- The set of a requirement, resource by resource: those with a capability it
accepts. -/
theorem Valid.mem_simpleSet_iff (h : idx.Valid) {r : Requirement} {c : Compiled}
    (hc : r.compile = .ok c) :
    ∃ s, simpleSet idx r = .ok s ∧
      ∀ x, x ∈ s ↔ ∃ q ∈ idx.resources, q.id = x ∧ ∃ cap ∈ q.capabilities, c.accepts cap = true := by
  obtain ⟨s, hs, hmem⟩ := Valid.simpleSet_eq h hc
  refine ⟨s, hs, fun x => ?_⟩
  rw [hmem]
  simp only [Index.mem_capRefs_iff]
  constructor
  · rintro ⟨ref, ⟨q, hq, hrq, hcap⟩, rfl, hacc⟩
    exact ⟨q, hq, by rw [hrq], ref.capability, List.mem_of_getElem? hcap, hacc⟩
  · rintro ⟨q, hq, rfl, cap, hcap, hacc⟩
    obtain ⟨i, hi⟩ := List.mem_iff_getElem?.1 hcap
    exact ⟨⟨q, i, cap⟩, ⟨q, hq, rfl, hi⟩, rfl, hacc⟩

/-- **Every resource**, as an evaluation computes it: the resources with a
capability in the identity namespace. -/
def everyResource (idx : Index) : ResourceSet :=
  match simpleSet idx (Requirement.wildcard identityNamespace) with
  | .ok u => u
  | .error _ => []

theorem compile_wildcard (ns : String) :
    (Requirement.wildcard ns).compile = .ok ⟨Requirement.wildcard ns, none⟩ := rfl

theorem simpleSet_wildcard (idx : Index) :
    simpleSet idx (Requirement.wildcard identityNamespace) = .ok (everyResource idx) := rfl

/-- The requirement of any capability of a namespace accepts exactly those. -/
theorem accepts_wildcard (ns : String) (cap : Capability) :
    (⟨Requirement.wildcard ns, none⟩ : Compiled).accepts cap = true ↔ cap.ns = ns := by
  by_cases h : cap.ns = ns <;> simp [Compiled.accepts, h, Requirement.primary,
    Requirement.wildcard, Table.get?, Table.empty]

/-- **On an index of built resources the universe is every resource held.** -/
theorem Valid.mem_everyResource_iff (h : idx.Valid) (hb : ∀ q ∈ idx.resources, q.Built)
    (x : ResourceId) : x ∈ everyResource idx ↔ ∃ q ∈ idx.resources, q.id = x := by
  obtain ⟨s, hs, hmem⟩ := Valid.mem_simpleSet_iff h (compile_wildcard identityNamespace)
  rw [simpleSet_wildcard] at hs
  cases hs
  simp only [hmem, accepts_wildcard]
  constructor
  · rintro ⟨q, hq, rfl, -⟩
    exact ⟨q, hq, rfl⟩
  · rintro ⟨q, hq, rfl⟩
    exact ⟨q, hq, rfl, (hb q hq).exists_identity⟩

/-! ### The cache holds the universe -/

/-- **What the cache may hold**: nothing yet, or the universe. -/
def CacheOk (idx : Index) (cache : Cache) : Prop := cache = none ∨ cache = some (everyResource idx)

theorem cacheOk_none : CacheOk idx none := Or.inl rfl

/-- Without caching the universe is computed afresh and the cache is left as it
is. -/
theorem everything_false (idx : Index) (cache : Cache) :
    everything idx false cache = .ok (everyResource idx, cache) := by
  cases cache <;> simp [everything, simpleSet_wildcard]

/-- Asking for the universe gives it, and leaves a cache that holds nothing or
it. -/
theorem everything_eq (idx : Index) (caching : Bool) {cache : Cache} (hk : CacheOk idx cache) :
    ∃ k, CacheOk idx k ∧ everything idx caching cache = .ok (everyResource idx, k) := by
  cases caching with
  | false => exact ⟨cache, hk, by simp [everything, simpleSet_wildcard]⟩
  | true =>
    rcases hk with rfl | rfl
    · exact ⟨some (everyResource idx), Or.inr rfl, by simp [everything, simpleSet_wildcard]⟩
    · exact ⟨some (everyResource idx), Or.inr rfl, rfl⟩

/-! ### One child of a conjunction

A conjunction evaluates the inner query of a child that negates a conjunction or
disjunction and subtracts its set at the end; any other child it evaluates
itself and intersects with at once. -/

/-- The conjunction or disjunction a query negates, if it is such a negation. -/
def negatedCompound : Query → Option Query
  | .not (.and qs) => some (.and qs)
  | .not (.or qs) => some (.or qs)
  | _ => none

theorem sizeOf_negatedCompound {p q : Query} (h : negatedCompound p = some q) :
    sizeOf q < sizeOf p := by
  rcases p with r | qs | qs | (r | qs | qs | p) <;> simp [negatedCompound] at h <;>
    subst h <;> simp

/-- What a conjunction evaluates for a child. -/
def andTarget (q : Query) : Query := (negatedCompound q).getD q

theorem sizeOf_andTarget_le (q : Query) : sizeOf (andTarget q) ≤ sizeOf q := by
  unfold andTarget
  cases h : negatedCompound q with
  | none => simp
  | some inner => exact (sizeOf_negatedCompound h).le

/-- How a conjunction takes in the set of a child: kept to subtract for a
negated conjunction or disjunction, intersected with otherwise. -/
def andStep (q : Query) (acc : Option ResourceSet) (ex : List ResourceSet) (s : ResourceSet) :
    Option ResourceSet × List ResourceSet :=
  match negatedCompound q with
  | some _ => (acc, ex ++ [s])
  | none => (some (match acc with
      | none => s
      | some running => ResourceSet.inter running s), ex)

/-! ### The evaluator, one equation at a time -/

section Equations

variable (idx : Index) (c : Bool) (k : Cache)

theorem evalNode_simple (r : Requirement) :
    evalNode idx c (.simple r) k = (fun s => (s, k)) <$> simpleSet idx r := by
  simp only [evalNode]

theorem evalNode_and_nil : evalNode idx c (.and []) k = .ok ([], k) := by
  simp only [evalNode]

theorem evalNode_or (qs : List Query) : evalNode idx c (.or qs) k = evalOr idx c qs [] k := by
  simp only [evalNode]

theorem evalNode_not_simple (r : Requirement) :
    evalNode idx c (.not (.simple r)) k =
      negateRequirement r >>= fun r' => (fun s => (s, k)) <$> simpleSet idx r' := by
  simp only [evalNode, evalNot]
  rcases negateRequirement r with e | r' <;> rfl

theorem evalNode_not_not (q : Query) : evalNode idx c (.not (.not q)) k = evalNode idx c q k := by
  simp only [evalNode, evalNot]

/-- **The negation of a conjunction or disjunction** is the universe less the
set of the inner query. -/
theorem evalNode_negatedCompound {p q : Query} (h : negatedCompound p = some q) :
    evalNode idx c p k = evalNode idx c q k >>= fun r =>
      (fun u => (ResourceSet.diff u.1 r.1, u.2)) <$> everything idx c r.2 := by
  rcases p with r | qs | qs | (r | qs | qs | p) <;> simp [negatedCompound] at h <;> subst h <;>
    rw [evalNode.eq_5]
  · rw [evalNot.eq_3]
    rcases evalNode idx c (.and qs) k with e | ⟨inner, cache⟩
    · rfl
    · simp only [Except.ok_bind]
      rcases everything idx c cache with e | ⟨u, cache⟩ <;> rfl
  · rw [evalNot.eq_4]
    rcases evalNode idx c (.or qs) k with e | ⟨inner, cache⟩
    · rfl
    · simp only [Except.ok_bind]
      rcases everything idx c cache with e | ⟨u, cache⟩ <;> rfl

theorem evalAnd_nil (acc : Option ResourceSet) (ex : List ResourceSet) :
    evalAnd idx c [] acc ex k = .ok (acc, ex, k) := by
  simp only [evalAnd]

/-- **One child of a conjunction**: its target is evaluated and its set taken
in. -/
theorem evalAnd_cons (q : Query) (rest : List Query) (acc : Option ResourceSet)
    (ex : List ResourceSet) :
    evalAnd idx c (q :: rest) acc ex k =
      evalNode idx c (andTarget q) k >>= fun p =>
        evalAnd idx c rest (andStep q acc ex p.1).1 (andStep q acc ex p.1).2 p.2 := by
  rcases q with r | qs | qs | (r | qs | qs | q) <;>
    simp only [evalAnd, andTarget, andStep, negatedCompound, Option.getD] <;> split <;>
    rename_i heq <;> rw [heq] <;> cases acc <;> rfl

theorem evalOr_nil (acc : ResourceSet) : evalOr idx c [] acc k = .ok (acc, k) := by
  simp only [evalOr]

theorem evalOr_cons (q : Query) (rest : List Query) (acc : ResourceSet) :
    evalOr idx c (q :: rest) acc k =
      evalNode idx c q k >>= fun p => evalOr idx c rest (ResourceSet.union acc p.1) p.2 := by
  simp only [evalOr]
  rcases evalNode idx c q k with e | ⟨s, cache⟩ <;> rfl

end Equations

/-! ### The cache changes nothing

Each function of the evaluator is shown cache-free one case at a time, from the
same fact about the queries it calls; the simultaneous recursion at the end only
puts the cases together. -/

/-- **An evaluation that does not depend on the cache**: from a cache that holds
nothing or the universe, with caching on or off, it gives what an evaluation
without caching gives, and leaves such a cache. -/
def CacheFree (idx : Index) (q : Query) : Prop :=
  ∀ c k, CacheOk idx k → ∃ k', CacheOk idx k' ∧
    evalNode idx c q k = (fun p => (p.1, k')) <$> evalNode idx false q none

/-- The same for the children of a conjunction, whatever was taken in before. -/
def AndCacheFree (idx : Index) (qs : List Query) : Prop :=
  ∀ c acc ex k, CacheOk idx k → ∃ k', CacheOk idx k' ∧
    evalAnd idx c qs acc ex k = (fun p => (p.1, p.2.1, k')) <$> evalAnd idx false qs acc ex none

/-- The same for the children of a disjunction. -/
def OrCacheFree (idx : Index) (qs : List Query) : Prop :=
  ∀ c acc k, CacheOk idx k → ∃ k', CacheOk idx k' ∧
    evalOr idx c qs acc k = (fun p => (p.1, k')) <$> evalOr idx false qs acc none

/-- The evaluation without caching leaves a cache that holds nothing or the
universe too. -/
theorem CacheFree.cacheOk {q : Query} (h : CacheFree idx q) {s : ResourceSet} {k : Cache}
    (hq : evalNode idx false q none = .ok (s, k)) : CacheOk idx k := by
  obtain ⟨k', hk', h'⟩ := h false none cacheOk_none
  rw [hq, Except.map_ok] at h'
  cases h'
  exact hk'

theorem cacheFree_simple (r : Requirement) : CacheFree idx (.simple r) := by
  intro c k hk
  refine ⟨k, hk, ?_⟩
  simp only [evalNode_simple]
  rcases simpleSet idx r with e | s <;> rfl

theorem cacheFree_and_nil : CacheFree idx (.and []) :=
  fun _ k hk => ⟨k, hk, by simp only [evalNode_and_nil, Except.map_ok]⟩

theorem cacheFree_and_cons {q : Query} {qs : List Query} (h : AndCacheFree idx (q :: qs)) :
    CacheFree idx (.and (q :: qs)) := by
  intro c k hk
  obtain ⟨k1, hk1, h1⟩ := h c none [] k hk
  rw [evalNode.eq_3, evalNode.eq_3, h1]
  rcases evalAnd idx false (q :: qs) none [] none with e | ⟨_ | s, ex, kf⟩
  · exact ⟨k, hk, rfl⟩
  · -- no ordinary child: the subtraction starts from the universe
    obtain ⟨k2, hk2, h2⟩ := everything_eq idx c hk1
    refine ⟨k2, hk2, ?_⟩
    simp only [Except.map_ok, h2, everything_false]
  · exact ⟨k1, hk1, rfl⟩

theorem cacheFree_or {qs : List Query} (h : OrCacheFree idx qs) : CacheFree idx (.or qs) := by
  intro c k hk
  simp only [evalNode_or]
  exact h c [] k hk

theorem cacheFree_not_simple (r : Requirement) : CacheFree idx (.not (.simple r)) := by
  intro c k hk
  refine ⟨k, hk, ?_⟩
  simp only [evalNode_not_simple]
  rcases negateRequirement r with e | r'
  · rfl
  · simp only [Except.ok_bind]
    rcases simpleSet idx r' with e | s <;> rfl

theorem cacheFree_not_not {q : Query} (h : CacheFree idx q) : CacheFree idx (.not (.not q)) := by
  intro c k hk
  simp only [evalNode_not_not]
  exact h c k hk

theorem cacheFree_negatedCompound {p q : Query} (hpq : negatedCompound p = some q)
    (h : CacheFree idx q) : CacheFree idx p := by
  intro c k hk
  obtain ⟨k1, hk1, h1⟩ := h c k hk
  rw [evalNode_negatedCompound idx c k hpq, evalNode_negatedCompound idx false none hpq, h1]
  rcases evalNode idx false q none with e | ⟨s, kf⟩
  · exact ⟨k, hk, rfl⟩
  · obtain ⟨k2, hk2, h2⟩ := everything_eq idx c hk1
    refine ⟨k2, hk2, ?_⟩
    simp only [Except.map_ok, Except.ok_bind, h2, everything_false]

theorem andCacheFree_nil : AndCacheFree idx [] :=
  fun _ acc ex k hk => ⟨k, hk, by simp only [evalAnd_nil, Except.map_ok]⟩

theorem andCacheFree_cons {q : Query} {rest : List Query} (hq : CacheFree idx (andTarget q))
    (hrest : AndCacheFree idx rest) : AndCacheFree idx (q :: rest) := by
  intro c acc ex k hk
  obtain ⟨k1, hk1, h1⟩ := hq c k hk
  rw [evalAnd_cons, evalAnd_cons, h1]
  rcases hr : evalNode idx false (andTarget q) none with e | ⟨s, kf⟩
  · exact ⟨k, hk, rfl⟩
  · -- both go on with the rest, from caches that hold nothing or the universe
    obtain ⟨k2, hk2, h2⟩ := hrest c (andStep q acc ex s).1 (andStep q acc ex s).2 k1 hk1
    obtain ⟨k3, -, h3⟩ :=
      hrest false (andStep q acc ex s).1 (andStep q acc ex s).2 kf (hq.cacheOk hr)
    refine ⟨k2, hk2, ?_⟩
    simp only [Except.map_ok, Except.ok_bind, h2, h3, Functor.map_map]

theorem orCacheFree_nil : OrCacheFree idx [] :=
  fun _ acc k hk => ⟨k, hk, by simp only [evalOr_nil, Except.map_ok]⟩

theorem orCacheFree_cons {q : Query} {rest : List Query} (hq : CacheFree idx q)
    (hrest : OrCacheFree idx rest) : OrCacheFree idx (q :: rest) := by
  intro c acc k hk
  obtain ⟨k1, hk1, h1⟩ := hq c k hk
  rw [evalOr_cons, evalOr_cons, h1]
  rcases hr : evalNode idx false q none with e | ⟨s, kf⟩
  · exact ⟨k, hk, rfl⟩
  · obtain ⟨k2, hk2, h2⟩ := hrest c (ResourceSet.union acc s) k1 hk1
    obtain ⟨k3, -, h3⟩ := hrest false (ResourceSet.union acc s) kf (hq.cacheOk hr)
    refine ⟨k2, hk2, ?_⟩
    simp only [Except.map_ok, Except.ok_bind, h2, h3, Functor.map_map]

mutual

/-- **Every query evaluates the same from any cache.** -/
theorem cacheFree (idx : Index) : ∀ q : Query, CacheFree idx q
  | .simple r => cacheFree_simple r
  | .and [] => cacheFree_and_nil
  | .and (q :: qs) => cacheFree_and_cons (andCacheFree idx (q :: qs))
  | .or qs => cacheFree_or (orCacheFree idx qs)
  | .not (.simple r) => cacheFree_not_simple r
  | .not (.not q) => cacheFree_not_not (cacheFree idx q)
  | .not (.and qs) => cacheFree_negatedCompound rfl (cacheFree idx (.and qs))
  | .not (.or qs) => cacheFree_negatedCompound rfl (cacheFree idx (.or qs))
termination_by q => sizeOf q

theorem andCacheFree (idx : Index) : ∀ qs : List Query, AndCacheFree idx qs
  | [] => andCacheFree_nil
  | q :: rest => andCacheFree_cons (cacheFree idx (andTarget q)) (andCacheFree idx rest)
termination_by qs => sizeOf qs
decreasing_by
  all_goals simp_wf
  have := sizeOf_andTarget_le q
  omega

theorem orCacheFree (idx : Index) : ∀ qs : List Query, OrCacheFree idx qs
  | [] => orCacheFree_nil
  | q :: rest => orCacheFree_cons (cacheFree idx q) (orCacheFree idx rest)
termination_by qs => sizeOf qs

end

/-! ### What a query gives -/

/-- An evaluation from a cache that holds nothing or the universe gives the set
of the query, and leaves such a cache. -/
theorem evalNode_eq (idx : Index) (c : Bool) (q : Query) {k : Cache} (hk : CacheOk idx k) :
    ∃ k', CacheOk idx k' ∧ evalNode idx c q k = (fun s => (s, k')) <$> eval idx false q := by
  obtain ⟨k', hk', h⟩ := cacheFree idx q c k hk
  exact ⟨k', hk', by rw [h, eval, Functor.map_map]⟩

/-- **Caching the universe does not change what a query gives.** -/
theorem eval_caching (idx : Index) (c : Bool) (q : Query) : eval idx c q = eval idx false q := by
  obtain ⟨k', -, h⟩ := evalNode_eq idx c q cacheOk_none
  rw [eval, h, Functor.map_map]
  exact id_map _

theorem evalNode_of_eval_ok {c : Bool} {q : Query} {k : Cache} (hk : CacheOk idx k)
    {s : ResourceSet} (h : eval idx false q = .ok s) :
    ∃ k', CacheOk idx k' ∧ evalNode idx c q k = .ok (s, k') := by
  obtain ⟨k', hk', h'⟩ := evalNode_eq idx c q hk
  exact ⟨k', hk', by rw [h', h]; rfl⟩

theorem evalNode_of_eval_error {c : Bool} {q : Query} {k : Cache} (hk : CacheOk idx k)
    {e : EvalError} (h : eval idx false q = .error e) : evalNode idx c q k = .error e := by
  obtain ⟨k', -, h'⟩ := evalNode_eq idx c q hk
  rw [h', h]
  rfl

section Meaning

variable (idx : Index) (c : Bool)

theorem eval_simple (r : Requirement) : eval idx c (.simple r) = simpleSet idx r := by
  rw [eval, evalNode_simple, Functor.map_map]
  exact id_map _

theorem eval_and_nil : eval idx c (.and []) = .ok [] := by
  rw [eval, evalNode_and_nil]
  rfl

theorem eval_not_simple (r : Requirement) :
    eval idx c (.not (.simple r)) = negateRequirement r >>= simpleSet idx := by
  rw [eval, evalNode_not_simple]
  rcases negateRequirement r with e | r'
  · rfl
  · simp only [Except.ok_bind, Functor.map_map]
    exact id_map _

theorem eval_not_not (q : Query) : eval idx c (.not (.not q)) = eval idx c q := by
  rw [eval, eval, evalNode_not_not]

/-- **The negation of a conjunction or disjunction gives the universe less the
set of the inner query.** -/
theorem eval_negatedCompound {p q : Query} (h : negatedCompound p = some q) :
    eval idx c p = ResourceSet.diff (everyResource idx) <$> eval idx c q := by
  rw [eval_caching, eval_caching idx c q]
  unfold eval
  rw [evalNode_negatedCompound idx false none h]
  rcases evalNode idx false q none with e | ⟨s, k⟩
  · rfl
  · simp only [Except.ok_bind, everything_false, Except.map_ok]

end Meaning

/-! ### Children in order -/

section MapM

variable {α β ε : Type} {f : α → Except ε β}

theorem mapM_cons_eq_ok {a : α} {l : List α} {bs : List β} :
    (a :: l).mapM f = .ok bs ↔ ∃ b bs', f a = .ok b ∧ l.mapM f = .ok bs' ∧ bs = b :: bs' := by
  rw [List.mapM_cons]
  rcases f a with e | b
  · simp
  · rcases l.mapM f with e | bs' <;> simp [eq_comm]

theorem mapM_cons_eq_error {a : α} {l : List α} {e : ε} :
    (a :: l).mapM f = .error e ↔ f a = .error e ∨ ∃ b, f a = .ok b ∧ l.mapM f = .error e := by
  rw [List.mapM_cons]
  rcases f a with e' | b
  · simp
  · rcases l.mapM f with e' | bs' <;> simp

/-- Every result of a run of children in order is the result of one of them. -/
theorem exists_of_mapM_ok {l : List α} {bs : List β} (h : l.mapM f = .ok bs) {b : β}
    (hb : b ∈ bs) : ∃ a ∈ l, f a = .ok b := by
  induction l generalizing bs with
  | nil =>
    cases h
    simp at hb
  | cons a l ih =>
    obtain ⟨b', bs', ha, hl, rfl⟩ := mapM_cons_eq_ok.1 h
    rcases List.mem_cons.1 hb with rfl | hb
    · exact ⟨a, List.mem_cons_self, ha⟩
    · obtain ⟨a', ha', hfa'⟩ := ih hl hb
      exact ⟨a', List.mem_cons_of_mem a ha', hfa'⟩

end MapM

/-- The children of a disjunction are evaluated in order and their sets
united. -/
theorem evalOr_eq (idx : Index) (c : Bool) (qs : List Query) (acc : ResourceSet) {k : Cache}
    (hk : CacheOk idx k) :
    ∃ k', evalOr idx c qs acc k =
      (fun ss => (ss.foldl ResourceSet.union acc, k')) <$> qs.mapM (eval idx false) := by
  induction qs generalizing acc k with
  | nil => exact ⟨k, by rw [evalOr_nil]; rfl⟩
  | cons q qs ih =>
    rw [evalOr_cons, List.mapM_cons]
    rcases hq : eval idx false q with e | s
    · exact ⟨k, by rw [evalNode_of_eval_error hk hq]; rfl⟩
    · obtain ⟨k1, hk1, h1⟩ := evalNode_of_eval_ok (c := c) hk hq
      obtain ⟨k', h'⟩ := ih (ResourceSet.union acc s) hk1
      refine ⟨k', ?_⟩
      rw [h1, Except.ok_bind, h', Except.ok_bind]
      rcases qs.mapM (eval idx false) with e | ss <;> rfl

/-- **A disjunction gives the union of the sets of its children**, the first
error if there is one. -/
theorem eval_or (idx : Index) (c : Bool) (qs : List Query) :
    eval idx c (.or qs) = (·.foldl ResourceSet.union []) <$> qs.mapM (eval idx c) := by
  have hc : eval idx c = eval idx false := funext (eval_caching idx c)
  rw [hc]
  obtain ⟨k', h⟩ := evalOr_eq idx false qs [] (cacheOk_none : CacheOk idx none)
  rw [eval, evalNode_or, h, Functor.map_map]

/-! ### The conjunction

The evaluator keeps the sets of negated conjunctions and disjunctions apart and
subtracts them at the end. Inside the universe, subtracting a set is
intersecting with its complement there, which is what the negation gives; so
for a resource of the universe, surviving what the conjunction took in is being
in the set of every child taken in (`Depot.Query.survives_andStep`). -/

/-- **What survives the children a conjunction has taken in**: membership of
the running intersection, if there is one, and of none of the sets to
subtract. -/
def Survives (acc : Option ResourceSet) (ex : List ResourceSet) (x : ResourceId) : Prop :=
  (∀ s, acc = some s → x ∈ s) ∧ ∀ e ∈ ex, x ∉ e

theorem survives_start (x : ResourceId) : Survives none [] x := by
  simp [Survives]

/-- A child's target gives a set exactly when the child does, and fails as the
child does. -/
theorem eval_andTarget_error {q : Query} {e : EvalError} (h : eval idx false q = .error e) :
    eval idx false (andTarget q) = .error e := by
  unfold andTarget
  cases hq : negatedCompound q with
  | none => exact h
  | some inner =>
    rw [eval_negatedCompound idx false hq] at h
    rcases hi : eval idx false inner with e' | s <;> rw [hi] at h <;> cases h
    exact hi

theorem eval_andTarget_ok {q : Query} {t : ResourceSet} (h : eval idx false q = .ok t) :
    ∃ s, eval idx false (andTarget q) = .ok s := by
  unfold andTarget
  cases hq : negatedCompound q with
  | none => exact ⟨t, h⟩
  | some inner =>
    rw [eval_negatedCompound idx false hq] at h
    rcases hi : eval idx false inner with e | s <;> rw [hi] at h <;> cases h
    exact ⟨s, hi⟩

/-- **Taking in one child**: a resource of the universe survives exactly when it
survived before and is in the set of the child. -/
theorem survives_andStep {q : Query} {t s : ResourceSet} (ht : eval idx false q = .ok t)
    (hs : eval idx false (andTarget q) = .ok s) (acc : Option ResourceSet)
    (ex : List ResourceSet) {x : ResourceId} (hx : x ∈ everyResource idx) :
    Survives (andStep q acc ex s).1 (andStep q acc ex s).2 x ↔ Survives acc ex x ∧ x ∈ t := by
  unfold andTarget at hs
  unfold andStep Survives
  cases hq : negatedCompound q with
  | none =>
    rw [hq, Option.getD, ht] at hs
    cases hs
    cases acc <;> simp only [ResourceSet.mem_inter, Option.some.injEq, forall_eq'] <;> tauto
  | some inner =>
    -- a negated conjunction or disjunction is the universe less the set kept to subtract
    rw [hq, Option.getD] at hs
    rw [eval_negatedCompound idx false hq, hs, Except.map_ok] at ht
    cases ht
    simp only [ResourceSet.mem_diff, hx, true_and, List.mem_append, List.mem_singleton]
    constructor
    · rintro ⟨hacc, hex⟩
      exact ⟨⟨hacc, fun e he => hex e (Or.inl he)⟩, hex s (Or.inr rfl)⟩
    · rintro ⟨⟨hacc, hex⟩, hxs⟩
      exact ⟨hacc, fun e he => he.elim (hex e) fun h => h ▸ hxs⟩

/-- The running intersection stays inside the universe. -/
theorem andStep_within {q : Query} {t s : ResourceSet} (ht : eval idx false q = .ok t)
    (hs : eval idx false (andTarget q) = .ok s) (htU : t ⊆ everyResource idx)
    {acc : Option ResourceSet} (hacc : ∀ a, acc = some a → a ⊆ everyResource idx)
    (ex : List ResourceSet) : ∀ a, (andStep q acc ex s).1 = some a → a ⊆ everyResource idx := by
  unfold andTarget at hs
  unfold andStep
  cases hq : negatedCompound q with
  | none =>
    rw [hq, Option.getD, ht] at hs
    cases hs
    intro a ha x hx
    cases acc <;> simp only [Option.some.injEq] at ha <;> subst ha
    · exact htU hx
    · exact htU ((ResourceSet.mem_inter _ _ x).1 hx).2
  | some inner => exact hacc

/-- A conjunction fails with the first failing child. -/
theorem evalAnd_of_mapM_error {qs : List Query} {e : EvalError}
    (h : qs.mapM (eval idx false) = .error e) (c : Bool) (acc : Option ResourceSet)
    (ex : List ResourceSet) {k : Cache} (hk : CacheOk idx k) :
    evalAnd idx c qs acc ex k = .error e := by
  induction qs generalizing acc ex k with
  | nil => cases h
  | cons q rest ih =>
    rw [evalAnd_cons]
    rcases mapM_cons_eq_error.1 h with hq | ⟨t, hq, hrest⟩
    · rw [evalNode_of_eval_error hk (eval_andTarget_error hq)]
      rfl
    · obtain ⟨s, hs⟩ := eval_andTarget_ok hq
      obtain ⟨k1, hk1, h1⟩ := evalNode_of_eval_ok (c := c) hk hs
      rw [h1, Except.ok_bind]
      exact ih hrest _ _ hk1

/-- **A conjunction whose children all give sets inside the universe** ends
with what survives exactly the resources of the universe in all of them. -/
theorem evalAnd_of_mapM_ok {qs : List Query} {ss : List ResourceSet}
    (h : qs.mapM (eval idx false) = .ok ss) (hss : ∀ t ∈ ss, t ⊆ everyResource idx) (c : Bool)
    (acc : Option ResourceSet) (ex : List ResourceSet) {k : Cache} (hk : CacheOk idx k)
    (hacc : ∀ a, acc = some a → a ⊆ everyResource idx) :
    ∃ acc' ex' k', evalAnd idx c qs acc ex k = .ok (acc', ex', k') ∧
      (∀ a, acc' = some a → a ⊆ everyResource idx) ∧
      ∀ x ∈ everyResource idx, Survives acc' ex' x ↔ Survives acc ex x ∧ ∀ t ∈ ss, x ∈ t := by
  induction qs generalizing ss acc ex k with
  | nil =>
    cases h
    exact ⟨acc, ex, k, evalAnd_nil idx c k acc ex, hacc, fun x _ => by simp⟩
  | cons q rest ih =>
    obtain ⟨t, ts, hq, hrest, rfl⟩ := mapM_cons_eq_ok.1 h
    obtain ⟨s, hs⟩ := eval_andTarget_ok hq
    obtain ⟨k1, hk1, h1⟩ := evalNode_of_eval_ok (c := c) hk hs
    have htU : t ⊆ everyResource idx := hss t List.mem_cons_self
    obtain ⟨acc', ex', k', hrun, hacc', hsurv⟩ :=
      ih hrest (fun t' ht' => hss t' (List.mem_cons_of_mem t ht')) _ _ hk1
        (andStep_within hq hs htU hacc ex)
    refine ⟨acc', ex', k', by rw [evalAnd_cons, h1, Except.ok_bind, hrun], hacc', fun x hx => ?_⟩
    rw [hsurv x hx, survives_andStep hq hs acc ex hx, List.forall_mem_cons, and_assoc]

/-- **A conjunction fails with its first failing child.** -/
theorem eval_and_error (idx : Index) (c : Bool) {cs : List Query} {e : EvalError}
    (h : cs.mapM (eval idx false) = .error e) : eval idx c (.and cs) = .error e := by
  cases cs with
  | nil => cases h
  | cons q qs =>
    rw [eval_caching, eval, evalNode.eq_3, evalAnd_of_mapM_error h false none [] cacheOk_none]
    rfl

/-- **A conjunction of children that give sets inside the universe gives the
resources in all of them.** -/
theorem eval_and_ok (idx : Index) (c : Bool) {cs : List Query} {ss : List ResourceSet}
    (hcs : cs ≠ []) (h : cs.mapM (eval idx false) = .ok ss)
    (hss : ∀ t ∈ ss, t ⊆ everyResource idx) :
    ∃ s, eval idx c (.and cs) = .ok s ∧ ∀ x, x ∈ s ↔ ∀ t ∈ ss, x ∈ t := by
  obtain ⟨q, qs, rfl⟩ := List.exists_cons_of_ne_nil hcs
  obtain ⟨acc', ex', k', hrun, hacc', hsurv⟩ :=
    evalAnd_of_mapM_ok h hss false none [] cacheOk_none (fun _ h => by cases h)
  have hend : ∃ s, eval idx false (.and (q :: qs)) = .ok s ∧
      ∀ x, x ∈ s ↔ x ∈ everyResource idx ∧ Survives acc' ex' x := by
    rw [eval, evalNode.eq_3, hrun]
    cases acc' with
    | none =>
      refine ⟨ex'.foldl ResourceSet.diff (everyResource idx), by simp [everything_false], ?_⟩
      simp [ResourceSet.mem_foldl_diff, Survives]
    | some a =>
      refine ⟨ex'.foldl ResourceSet.diff a, rfl, fun x => ?_⟩
      simp only [ResourceSet.mem_foldl_diff, Survives, Option.some.injEq, forall_eq']
      exact ⟨fun hx => ⟨hacc' a rfl hx.1, hx⟩, fun hx => hx.2⟩
  obtain ⟨s, hs, hmem⟩ := hend
  -- a resource in the set of every child is in the universe, the first child's set being inside it
  obtain ⟨t, ts, -, -, rfl⟩ := mapM_cons_eq_ok.1 h
  have hU : ∀ x, (∀ t' ∈ t :: ts, x ∈ t') → x ∈ everyResource idx :=
    fun x hx => hss t List.mem_cons_self (hx t List.mem_cons_self)
  refine ⟨s, by rw [eval_caching, hs], fun x => ?_⟩
  rw [hmem x]
  constructor
  · rintro ⟨hx, hsx⟩
    exact ((hsurv x hx).1 hsx).2
  · intro hx
    exact ⟨hU x hx, (hsurv x (hU x hx)).2 ⟨survives_start x, hx⟩⟩

/-! ### Every set lies inside the universe -/

theorem subset_of_negatedCompound {p q : Query} (hpq : negatedCompound p = some q)
    {s : ResourceSet} (h : eval idx false p = .ok s) : s ⊆ everyResource idx := by
  rw [eval_negatedCompound idx false hpq] at h
  rcases hq : eval idx false q with e | t <;> rw [hq] at h <;> cases h
  exact fun x hx => ((ResourceSet.mem_diff _ _ x).1 hx).1

/-- **Every set an evaluation gives lies inside the universe**, when the set of
every requirement does. -/
theorem eval_subset (hS : ∀ r s, simpleSet idx r = .ok s → s ⊆ everyResource idx) :
    ∀ (q : Query) (s : ResourceSet), eval idx false q = .ok s → s ⊆ everyResource idx
  | .simple r, s, h => hS r s (by rwa [eval_simple] at h)
  | .and [], s, h => by
    rw [eval_and_nil] at h
    cases h
    exact List.nil_subset _
  | .and (q :: qs), s, h => by
    rcases hm : (q :: qs).mapM (eval idx false) with e | ss
    · rw [eval_and_error idx false hm] at h
      cases h
    · have hss : ∀ t ∈ ss, t ⊆ everyResource idx := fun t ht => by
        obtain ⟨q', hq', hq't⟩ := exists_of_mapM_ok hm ht
        exact eval_subset hS q' t hq't
      obtain ⟨s', hs', hmem⟩ := eval_and_ok idx false (List.cons_ne_nil q qs) hm hss
      rw [hs'] at h
      cases h
      obtain ⟨t, ts, -, -, rfl⟩ := mapM_cons_eq_ok.1 hm
      exact fun x hx => hss t List.mem_cons_self ((hmem x).1 hx t List.mem_cons_self)
  | .or qs, s, h => by
    rw [eval_or] at h
    rcases hm : qs.mapM (eval idx false) with e | ss <;> rw [hm] at h <;> cases h
    intro x hx
    obtain ⟨t, ht, hxt⟩ := ((ResourceSet.mem_foldl_union ss [] x).1 hx).resolve_left
      List.not_mem_nil
    obtain ⟨q', hq', hq't⟩ := exists_of_mapM_ok hm ht
    exact eval_subset hS q' t hq't hxt
  | .not (.simple r), s, h => by
    rw [eval_not_simple] at h
    rcases hn : negateRequirement r with e | r' <;> rw [hn] at h
    · cases h
    · exact hS r' s h
  | .not (.not q), s, h => eval_subset hS q s (by rwa [eval_not_not] at h)
  | .not (.and qs), s, h => subset_of_negatedCompound rfl h
  | .not (.or qs), s, h => subset_of_negatedCompound rfl h
termination_by q => sizeOf q
decreasing_by
  all_goals simp_wf
  -- a child of a conjunction or disjunction is smaller than the list it is in
  all_goals
    try have := List.sizeOf_lt_of_mem ‹(_ : Query) ∈ _›
    try simp only [List.cons.sizeOf_spec] at this
    omega

/-- **A conjunction whose children all evaluate gives what is in all their
sets**, when the set of every requirement lies inside the universe. -/
theorem eval_and_of_subset (hS : ∀ r s, simpleSet idx r = .ok s → s ⊆ everyResource idx)
    (c : Bool) {cs : List Query} {ss : List ResourceSet} (hcs : cs ≠ [])
    (h : cs.mapM (eval idx false) = .ok ss) :
    ∃ s, eval idx c (.and cs) = .ok s ∧ ∀ x, x ∈ s ↔ ∀ t ∈ ss, x ∈ t :=
  eval_and_ok idx c hcs h fun t ht => by
    obtain ⟨q, -, hq⟩ := exists_of_mapM_ok h ht
    exact eval_subset hS q t hq

/-- On a valid index of built resources the set of every requirement lies
inside the universe. -/
theorem Valid.simpleSet_subset (h : idx.Valid) (hb : ∀ q ∈ idx.resources, q.Built)
    (r : Requirement) (s : ResourceSet) (hs : simpleSet idx r = .ok s) :
    s ⊆ everyResource idx := by
  cases hc : r.compile with
  | error e =>
    rw [simpleSet_of_compile_error hc] at hs
    cases hs
  | ok c =>
    obtain ⟨s', hs', hmem⟩ := Valid.mem_simpleSet_iff h hc
    rw [hs'] at hs
    cases hs
    intro x hx
    obtain ⟨q, hq, rfl, -⟩ := (hmem x).1 hx
    exact (Valid.mem_everyResource_iff h hb _).2 ⟨q, hq, rfl⟩

/-! ### The plain rule for a conjunction -/

/-- **Two results that agree**: the same error, or sets with the same
members. -/
def SameResult : Except EvalError ResourceSet → Except EvalError ResourceSet → Prop
  | .error e, .error e' => e = e'
  | .ok s, .ok t => ∀ x, x ∈ s ↔ x ∈ t
  | _, _ => False

theorem SameResult.refl (r : Except EvalError ResourceSet) : SameResult r r := by
  cases r <;> simp [SameResult]

theorem SameResult.symm {r r' : Except EvalError ResourceSet} (h : SameResult r r') :
    SameResult r' r := by
  rcases r with e | s <;> rcases r' with e' | t <;> simp only [SameResult] at h ⊢
  · exact Eq.symm h
  · exact fun x => (h x).symm

theorem SameResult.trans {r r' r'' : Except EvalError ResourceSet} (h : SameResult r r')
    (h' : SameResult r' r'') : SameResult r r'' := by
  rcases r with e | s <;> rcases r' with e' | t <;> rcases r'' with e'' | u <;>
    simp only [SameResult] at h h' ⊢
  · exact Eq.trans h h'
  · exact fun x => (h x).trans (h' x)

/-- **A child of a conjunction under the plain rule**: evaluated on its own,
the negation of a conjunction or disjunction giving every resource held less
the set of the inner query. -/
def plainChild (idx : Index) (c : Bool) (q : Query) : Except EvalError ResourceSet :=
  match negatedCompound q with
  | some inner => ResourceSet.diff (idx.resources.map (·.id)) <$> eval idx c inner
  | none => eval idx c q

/-- **The plain rule for a conjunction**: the children in order, the first
error, or the intersection of their sets. -/
def plainAnd (idx : Index) (c : Bool) (cs : List Query) : Except EvalError ResourceSet :=
  ResourceSet.interAll <$> cs.mapM (plainChild idx c)

/-- On a valid index of built resources a child under the plain rule gives what
it gives on its own. -/
theorem Valid.plainChild_same (h : idx.Valid) (hb : ∀ q ∈ idx.resources, q.Built) (c : Bool)
    (q : Query) : SameResult (plainChild idx c q) (eval idx false q) := by
  unfold plainChild
  cases hq : negatedCompound q with
  | none =>
    dsimp only
    rw [eval_caching]
    exact SameResult.refl _
  | some inner =>
    dsimp only
    rw [eval_negatedCompound idx false hq, eval_caching]
    rcases eval idx false inner with e | s
    · exact SameResult.refl _
    · -- the universe is every resource held
      simp only [Except.map_ok, SameResult]
      intro x
      rw [ResourceSet.mem_diff, ResourceSet.mem_diff, Valid.mem_everyResource_iff h hb, List.mem_map]

theorem forall_mem_iff_of_forall₂ {ss ts : List ResourceSet}
    (h : List.Forall₂ (fun s t => ∀ x, x ∈ s ↔ x ∈ t) ss ts) (x : ResourceId) :
    (∀ s ∈ ss, x ∈ s) ↔ ∀ t ∈ ts, x ∈ t := by
  induction h with
  | nil => simp
  | cons hst _ ih => rw [List.forall_mem_cons, List.forall_mem_cons, hst x, ih]

/-- Children that agree one by one fail alike, or give sets that agree one by
one. -/
theorem sameResult_mapM {f g : Query → Except EvalError ResourceSet} (cs : List Query)
    (h : ∀ q ∈ cs, SameResult (f q) (g q)) :
    (∃ e, cs.mapM f = .error e ∧ cs.mapM g = .error e) ∨
      ∃ ss ts, cs.mapM f = .ok ss ∧ cs.mapM g = .ok ts ∧
        List.Forall₂ (fun s t => ∀ x, x ∈ s ↔ x ∈ t) ss ts := by
  induction cs with
  | nil => exact Or.inr ⟨[], [], rfl, rfl, .nil⟩
  | cons q cs ih =>
    have hq := h q List.mem_cons_self
    rw [List.mapM_cons, List.mapM_cons]
    rcases hf : f q with e | s <;> rcases hg : g q with e' | t <;> rw [hf, hg] at hq <;>
      first | cases hq | skip
    · exact Or.inl ⟨e, rfl, rfl⟩
    · rcases ih fun q' hq' => h q' (List.mem_cons_of_mem q hq') with
        ⟨e, hfs, hgs⟩ | ⟨ss, ts, hfs, hgs, hst⟩
      · exact Or.inl ⟨e, by simp [hfs], by simp [hgs]⟩
      · exact Or.inr ⟨s :: ss, t :: ts, by simp [hfs], by simp [hgs], .cons hq hst⟩

/-- Children that agree one by one give plain conjunctions that agree. -/
theorem sameResult_interAll {f g : Query → Except EvalError ResourceSet} {cs : List Query}
    (h : ∀ q ∈ cs, SameResult (f q) (g q)) :
    SameResult (ResourceSet.interAll <$> cs.mapM f) (ResourceSet.interAll <$> cs.mapM g) := by
  rcases sameResult_mapM cs h with ⟨e, hf, hg⟩ | ⟨ss, ts, hf, hg, hst⟩
  · rw [hf, hg]
    exact SameResult.refl _
  · rw [hf, hg]
    simp only [Except.map_ok, SameResult]
    intro x
    cases hst with
    | nil => rfl
    | cons hst' htail =>
      simp only [ResourceSet.interAll, ResourceSet.mem_foldl_inter]
      rw [hst' x, forall_mem_iff_of_forall₂ htail x]

/-- **The evaluator's conjunction is the plain one** over children evaluated on
their own, when every set lies inside the universe. -/
theorem sameResult_eval_and (hS : ∀ r s, simpleSet idx r = .ok s → s ⊆ everyResource idx)
    (c : Bool) {cs : List Query} (hcs : cs ≠ []) :
    SameResult (eval idx c (.and cs)) (ResourceSet.interAll <$> cs.mapM (eval idx false)) := by
  rcases hm : cs.mapM (eval idx false) with e | ss
  · rw [eval_and_error idx c hm]
    exact SameResult.refl _
  · obtain ⟨s, hs, hmem⟩ := eval_and_of_subset hS c hcs hm
    obtain ⟨q, qs, rfl⟩ := List.exists_cons_of_ne_nil hcs
    obtain ⟨t, ts, -, -, rfl⟩ := mapM_cons_eq_ok.1 hm
    rw [hs, Except.map_ok]
    simp only [SameResult]
    intro x
    rw [hmem x, ResourceSet.mem_interAll (List.cons_ne_nil t ts)]

/-- A run that adds only built resources holds only built resources. -/
theorem IndexOp.run_built {ops : List IndexOp} (hb : ∀ r, IndexOp.add r ∈ ops → r.Built) :
    ∀ q ∈ (Index.run ops).resources, q.Built := fun q hq =>
  hb q (IndexOp.mem_held ((Index.run_valid ops).2 ▸ hq))

/-- **A conjunction gives what the plain rule gives.** On an index built by
additions of built resources and removals, evaluating a conjunction —
intersecting its ordinary children as it goes, subtracting its negated
conjunctions and disjunctions at the end, and starting from the universe when
it has no ordinary child — fails with the same error, or gives the same set, as
evaluating every child on its own, in order, and intersecting their sets, with
caching on or off. -/
theorem eval_and_eq_plainAnd (ops : List IndexOp) (hb : ∀ r, IndexOp.add r ∈ ops → r.Built)
    (caching : Bool) (cs : List Query) (hcs : cs ≠ []) :
    SameResult (eval (Index.run ops) caching (.and cs)) (plainAnd (Index.run ops) caching cs) := by
  have hvalid := (Index.run_valid ops).1
  have hbuilt := IndexOp.run_built hb
  refine (sameResult_eval_and (Valid.simpleSet_subset hvalid hbuilt) caching hcs).trans ?_
  exact (sameResult_interAll fun q _ => Valid.plainChild_same hvalid hbuilt caching q).symm

/-- A resource the builder makes: an application with the identity offer only. -/
def sampleResource : Resource :=
  match (Draft.empty.identity "app" Version.zero "tool").build with
  | .ok r => r
  | .error _ => default

theorem sampleResource_built : sampleResource.Built :=
  ⟨Draft.empty.identity "app" Version.zero "tool", rfl⟩

theorem eval_and_eq_plainAnd_sample :
    (∀ r, IndexOp.add r ∈ [IndexOp.add sampleResource] → r.Built) ∧
      [Query.not (.and [.simple (Requirement.wildcard contentNamespace)]),
        .simple (Requirement.wildcard identityNamespace)] ≠ [] ∧
      SameResult (eval (Index.run [.add sampleResource]) true
          (.and [.not (.and [.simple (Requirement.wildcard contentNamespace)]),
            .simple (Requirement.wildcard identityNamespace)]))
        (plainAnd (Index.run [.add sampleResource]) true
          [.not (.and [.simple (Requirement.wildcard contentNamespace)]),
            .simple (Requirement.wildcard identityNamespace)]) :=
  have hb : ∀ r, IndexOp.add r ∈ [IndexOp.add sampleResource] → r.Built := fun r hr => by
    rw [List.mem_singleton, IndexOp.add.injEq] at hr
    exact hr ▸ sampleResource_built
  ⟨hb, List.cons_ne_nil _ _, eval_and_eq_plainAnd _ hb true _ (List.cons_ne_nil _ _)⟩

/-! ### The cache and the universe, for every query -/

/-- **Caching the universe changes nothing**: on any index, a query gives with
caching on what it gives with caching off, the same set in the same order or
the same error. -/
theorem eval_cached_eq_uncached (idx : Index) (q : Query) : eval idx true q = eval idx false q :=
  eval_caching idx true q

/-- Taking the complement in `U` twice gives back a set that lies inside `U`. -/
theorem sameResult_diff_diff {U : ResourceSet} {r : Except EvalError ResourceSet}
    (hr : ∀ s, r = .ok s → s ⊆ U) :
    SameResult r (ResourceSet.diff U <$> (ResourceSet.diff U <$> r)) := by
  rcases r with e | s
  · exact SameResult.refl _
  · have hsU := hr s rfl
    simp only [Except.map_ok, SameResult]
    intro x
    rw [ResourceSet.mem_diff, ResourceSet.mem_diff]
    constructor
    · intro hx
      exact ⟨hsU hx, fun h => h.2 hx⟩
    · rintro ⟨hxU, hx⟩
      by_contra hxs
      exact hx ⟨hxU, hxs⟩

/-- The negation of a negated conjunction or disjunction gives what the universe
less the negated one gives, when every set lies inside the universe. -/
theorem sameResult_not_not_negatedCompound
    (hS : ∀ r s, simpleSet idx r = .ok s → s ⊆ everyResource idx) (c : Bool) {x : Query}
    (hx : negatedCompound (.not x) = some x) :
    SameResult (eval idx c (.not (.not x)))
      (ResourceSet.diff (everyResource idx) <$> eval idx c (.not x)) := by
  rw [eval_not_not, eval_negatedCompound idx c hx]
  exact sameResult_diff_diff fun s h => eval_subset hS x s (by rwa [eval_caching] at h)

/-- **Every set a query gives lies inside the universe, and the universe is
every resource held.** On an index built by additions of built resources and
removals, with caching on or off: the requirement of any identity capability
gives a set `U`; `U` holds exactly the identities of the resources held; every
set an evaluation gives lies inside `U`; and so the shortcut for a double
negation agrees with the complement: the negation of a negated conjunction or
disjunction gives, as a set, `U` less what the negated one gives. -/
theorem eval_subset_universe (ops : List IndexOp) (hb : ∀ r, IndexOp.add r ∈ ops → r.Built)
    (caching : Bool) :
    ∃ U, eval (Index.run ops) caching (.simple (Requirement.wildcard identityNamespace)) = .ok U ∧
      (∀ x, x ∈ U ↔ ∃ q ∈ (Index.run ops).resources, q.id = x) ∧
      (∀ q s, eval (Index.run ops) caching q = .ok s → s ⊆ U) ∧
      ∀ qs, SameResult (eval (Index.run ops) caching (.not (.not (.and qs))))
          (ResourceSet.diff U <$> eval (Index.run ops) caching (.not (.and qs))) ∧
        SameResult (eval (Index.run ops) caching (.not (.not (.or qs))))
          (ResourceSet.diff U <$> eval (Index.run ops) caching (.not (.or qs))) := by
  have hvalid := (Index.run_valid ops).1
  have hS := Valid.simpleSet_subset hvalid (IndexOp.run_built hb)
  refine ⟨everyResource (Index.run ops), by rw [eval_simple, simpleSet_wildcard],
    Valid.mem_everyResource_iff hvalid (IndexOp.run_built hb), fun q s h => ?_, fun qs => ?_⟩
  · rw [eval_caching] at h
    exact eval_subset hS q s h
  · exact ⟨sameResult_not_not_negatedCompound hS caching rfl,
      sameResult_not_not_negatedCompound hS caching rfl⟩

theorem eval_subset_universe_sample :
    (∀ r, IndexOp.add r ∈ [IndexOp.add sampleResource] → r.Built) ∧
      ∃ U, eval (Index.run [.add sampleResource]) true
          (.simple (Requirement.wildcard identityNamespace)) = .ok U ∧
        (∀ x, x ∈ U ↔ ∃ q ∈ (Index.run [.add sampleResource]).resources, q.id = x) ∧
        (∀ q s, eval (Index.run [.add sampleResource]) true q = .ok s → s ⊆ U) ∧
        ∀ qs, SameResult (eval (Index.run [.add sampleResource]) true (.not (.not (.and qs))))
            (ResourceSet.diff U <$> eval (Index.run [.add sampleResource]) true (.not (.and qs))) ∧
          SameResult (eval (Index.run [.add sampleResource]) true (.not (.not (.or qs))))
            (ResourceSet.diff U <$> eval (Index.run [.add sampleResource]) true (.not (.or qs))) :=
  have hb : ∀ r, IndexOp.add r ∈ [IndexOp.add sampleResource] → r.Built := fun r hr => by
    rw [List.mem_singleton, IndexOp.add.injEq] at hr
    exact hr ▸ sampleResource_built
  ⟨hb, eval_subset_universe _ hb true⟩

end Query

end Depot

import Depot.Proofs.Query
import Depot.Proofs.FilterText

/-!
# Negation within a namespace, and De Morgan's laws

A negated conjunction or disjunction is taken against the universe of every
resource held (`Depot.Query.eval_negatedCompound`). A negated requirement is
not: its filter `f` is rewritten to `(!f)` and read in the requirement's own
namespace. The rewritten text reads as the negation of the filter, and reads
only when the filter does (`Depot.Filter.parse_negate_iff`), so the negated
requirement fails exactly when the requirement fails, and otherwise gives the
resources with a capability in that namespace which the filter rejects
(`Depot.Query.eval_not_simple_iff`).

The two complements agree on a resource when the filter decides it
(`Depot.Filter.Decides`): the resource has a capability in the namespace and the
filter gives one answer on all of them. A resource with no capability there is
in the universe but in neither set; one with an accepted and a rejected
capability is in both. De Morgan's laws between the two kinds of negation hold
where both requirements decide every resource held
(`Depot.Query.eval_deMorgan_of_decides`), and not in general
(`Depot.Query.eval_not_and_ne_or_not`).
-/

namespace Depot

namespace Table

variable {α : Type}

theorem find?_put_self (k : String) (v : α) (es : List (String × α)) :
    ((put k v es).find? (·.1 == k)).map (·.2) = some v := by
  induction es with
  | nil => simp [put]
  | cons e es ih =>
    by_cases hk : e.1 = k
    · simp [put, hk]
    · simp [put, hk, ih]

@[simp] theorem get?_insert_self (t : Table α) (k : String) (v : α) :
    (t.insert k v).get? k = some v :=
  find?_put_self k v t.entries

end Table

namespace Requirement

@[simp] theorem filter_withFilter (r : Requirement) (f : String) :
    (r.withFilter f).filter = some f :=
  Table.get?_insert_self _ _ _

@[simp] theorem ns_withFilter (r : Requirement) (f : String) : (r.withFilter f).ns = r.ns := rfl

theorem compile_of_parse {r : Requirement} {f : String} {F : Filter} (hf : r.filter = some f)
    (hF : Filter.parse f = .ok F) : r.compile = .ok ⟨r, some F⟩ := by
  simp [compile, hf, hF]

end Requirement

theorem Compiled.accepts_filter (r : Requirement) (F : Filter) (cap : Capability) :
    (⟨r, some F⟩ : Compiled).accepts cap = true ↔ cap.ns = r.ns ∧ F.accepts cap.attributes = true := by
  by_cases h : cap.ns = r.ns <;> simp [Compiled.accepts, h]

/-- **A filter decides a resource within a namespace** when the resource has a
capability there and the filter gives the same answer on all of them. -/
def Filter.Decides (F : Filter) (ns : String) (q : Resource) : Prop :=
  (∃ cap ∈ q.capabilities, cap.ns = ns) ∧
    ∃ b, ∀ cap ∈ q.capabilities, cap.ns = ns → F.accepts cap.attributes = b

instance (F : Filter) (ns : String) (q : Resource) : Decidable (F.Decides ns q) :=
  inferInstanceAs (Decidable ((∃ cap ∈ q.capabilities, cap.ns = ns) ∧
    ∃ b, ∀ cap ∈ q.capabilities, cap.ns = ns → F.accepts cap.attributes = b))

namespace Query

variable {idx : Index}

/-! ### The sets of a requirement and of its negation -/

/-- A resource held under the id `x` has a capability in namespace `ns` on whose
attributes the filter answers `b`. -/
def Answers (idx : Index) (F : Filter) (ns : String) (b : Bool) (x : ResourceId) : Prop :=
  ∃ q ∈ idx.resources, q.id = x ∧ ∃ cap ∈ q.capabilities, cap.ns = ns ∧ F.accepts cap.attributes = b

theorem negateRequirement_of_filter {r : Requirement} {f : String} (hf : r.filter = some f) :
    negateRequirement r = .ok (r.withFilter ("(!" ++ Text.trim f ++ ")")) := by
  simp [negateRequirement, hf]

section Filtered

variable {r : Requirement} {f : String} {F : Filter}

/-- **A requirement whose filter reads** gives the resources with a capability
in its namespace that the filter accepts. -/
theorem Valid.eval_simple_answers (h : idx.Valid) (hf : r.filter = some f)
    (hF : Filter.parse f = .ok F) (c : Bool) :
    ∃ s, eval idx c (.simple r) = .ok s ∧ ∀ x, x ∈ s ↔ Answers idx F r.ns true x := by
  obtain ⟨s, hs, hmem⟩ := Valid.mem_simpleSet_iff h (Requirement.compile_of_parse hf hF)
  refine ⟨s, by rw [eval_simple, hs], fun x => ?_⟩
  simp only [hmem, Compiled.accepts_filter, Answers]

/-- **Its negation** gives the resources with a capability in the namespace that
the filter rejects: the rewritten filter reads as the negation of the filter. -/
theorem Valid.eval_not_simple_answers (h : idx.Valid) (hf : r.filter = some f)
    (hF : Filter.parse f = .ok F) (c : Bool) :
    ∃ s, eval idx c (.not (.simple r)) = .ok s ∧ ∀ x, x ∈ s ↔ Answers idx F r.ns false x := by
  have hc := Requirement.compile_of_parse (Requirement.filter_withFilter r _) (Filter.parse_negate hF)
  obtain ⟨s, hs, hmem⟩ := Valid.mem_simpleSet_iff h hc
  refine ⟨s, by rw [eval_not_simple, negateRequirement_of_filter hf, Except.ok_bind, hs],
    fun x => ?_⟩
  simp only [hmem, Compiled.accepts_filter, Requirement.ns_withFilter, Filter.accepts_not,
    Bool.not_eq_true', Answers]

end Filtered

/-- **Where a filter decides every resource held, what it rejects is the
complement of what it accepts** in the universe. -/
theorem Valid.answers_false_iff (h : idx.Valid) (hb : ∀ q ∈ idx.resources, q.Built)
    {F : Filter} {ns : String} (hd : ∀ q ∈ idx.resources, F.Decides ns q) (x : ResourceId) :
    Answers idx F ns false x ↔ x ∈ everyResource idx ∧ ¬ Answers idx F ns true x := by
  rw [Valid.mem_everyResource_iff h hb]
  constructor
  · rintro ⟨q, hq, rfl, cap, hcap, hns, hrej⟩
    refine ⟨⟨q, hq, rfl⟩, ?_⟩
    rintro ⟨q', hq', hid, cap', hcap', hns', hacc⟩
    -- ids are distinct, so both capabilities are of `q`, on which the filter has one answer
    obtain rfl : q' = q := List.inj_on_of_nodup_map h.ids hq' hq hid
    obtain ⟨-, b, hall⟩ := hd q' hq'
    have : false = true := calc
      false = F.accepts cap.attributes := hrej.symm
      _ = b := hall cap hcap hns
      _ = F.accepts cap'.attributes := (hall cap' hcap' hns').symm
      _ = true := hacc
    exact Bool.false_ne_true this
  · rintro ⟨⟨q, hq, rfl⟩, hnot⟩
    obtain ⟨⟨cap, hcap, hns⟩, -⟩ := hd q hq
    refine ⟨q, hq, rfl, cap, hcap, hns, ?_⟩
    cases hacc : F.accepts cap.attributes
    · rfl
    · exact absurd ⟨q, hq, rfl, cap, hcap, hns, hacc⟩ hnot

/-- **A negated requirement is the complement of the requirement in the
universe** where its filter decides every resource held. -/
theorem Valid.eval_not_simple_compl (h : idx.Valid) (hb : ∀ q ∈ idx.resources, q.Built)
    {r : Requirement} {f : String} {F : Filter} (hf : r.filter = some f)
    (hF : Filter.parse f = .ok F) (hd : ∀ q ∈ idx.resources, F.Decides r.ns q) (c : Bool) :
    ∃ s t, eval idx c (.simple r) = .ok s ∧ eval idx c (.not (.simple r)) = .ok t ∧
      ∀ x, x ∈ t ↔ x ∈ everyResource idx ∧ x ∉ s := by
  obtain ⟨s, hs, hms⟩ := Valid.eval_simple_answers h hf hF c
  obtain ⟨t, ht, hmt⟩ := Valid.eval_not_simple_answers h hf hF c
  exact ⟨s, t, hs, ht, fun x => by rw [hmt, hms, Valid.answers_false_iff h hb hd]⟩

/-- A requirement with a filter fails exactly when its filter does not read. -/
theorem exists_simpleSet_error_iff {r : Requirement} {f : String} (hf : r.filter = some f) :
    (∃ e, simpleSet idx r = .error e) ↔ ∃ e, Filter.parse f = .error e := by
  constructor
  · rintro ⟨e, he⟩
    unfold simpleSet at he
    rcases hp : idx.providers r with e' | refs <;> rw [hp] at he
    · obtain ⟨t, ht, hparse⟩ := (Index.providers_eq_error_iff r e').1 hp
      rw [hf, Option.some.injEq] at ht
      exact ⟨e', ht ▸ hparse⟩
    · cases he
  · rintro ⟨e, he⟩
    have hp : idx.providers r = .error e := (Index.providers_eq_error_iff r e).2 ⟨f, hf, he⟩
    exact ⟨.filter e, by simp [simpleSet, hp]⟩

/-! ### Compound queries over children that evaluate -/

theorem mapM_pair {f : Query → Except EvalError ResourceSet} {p q : Query} {s t : ResourceSet}
    (hp : f p = .ok s) (hq : f q = .ok t) : [p, q].mapM f = .ok [s, t] := by
  simp [List.mapM_cons, hp, hq]

section Compound

variable (c : Bool) {cs : List Query} {ss : List ResourceSet}
  (hss : cs.mapM (eval idx false) = .ok ss)
include hss

theorem eval_or_ok : ∃ s, eval idx c (.or cs) = .ok s ∧ ∀ x, x ∈ s ↔ ∃ t ∈ ss, x ∈ t := by
  rw [eval_or, show eval idx c = eval idx false from funext (eval_caching idx c), hss]
  refine ⟨_, rfl, fun x => ?_⟩
  simp [ResourceSet.mem_foldl_union]

theorem eval_not_or_ok :
    ∃ s, eval idx c (.not (.or cs)) = .ok s ∧
      ∀ x, x ∈ s ↔ x ∈ everyResource idx ∧ ¬ ∃ t ∈ ss, x ∈ t := by
  obtain ⟨u, hu, hmem⟩ := eval_or_ok c hss
  refine ⟨_, by rw [eval_negatedCompound _ _ rfl, hu]; rfl, fun x => ?_⟩
  rw [ResourceSet.mem_diff, hmem]

theorem eval_not_and_ok (hS : ∀ r s, simpleSet idx r = .ok s → s ⊆ everyResource idx)
    (hcs : cs ≠ []) :
    ∃ s, eval idx c (.not (.and cs)) = .ok s ∧
      ∀ x, x ∈ s ↔ x ∈ everyResource idx ∧ ¬ ∀ t ∈ ss, x ∈ t := by
  obtain ⟨u, hu, hmem⟩ := eval_and_of_subset hS c hcs hss
  refine ⟨_, by rw [eval_negatedCompound _ _ rfl, hu]; rfl, fun x => ?_⟩
  rw [ResourceSet.mem_diff, hmem]

end Compound

/-! ### De Morgan's laws -/

/-- **De Morgan's laws between the two kinds of negation** hold, for either
setting of the cache, where each of the two requirements decides every resource
held: the negation of the conjunction is the disjunction of the negations, and
the negation of the disjunction the conjunction of the negations. -/
theorem eval_deMorgan_of_decides (ops : List IndexOp) (hb : ∀ r, IndexOp.add r ∈ ops → r.Built)
    (caching : Bool) {a b : Requirement} {fa fb : String} {Fa Fb : Filter}
    (ha : a.filter = some fa) (hFa : Filter.parse fa = .ok Fa)
    (hb' : b.filter = some fb) (hFb : Filter.parse fb = .ok Fb)
    (hda : ∀ q ∈ (Index.run ops).resources, Fa.Decides a.ns q)
    (hdb : ∀ q ∈ (Index.run ops).resources, Fb.Decides b.ns q) :
    SameResult (eval (Index.run ops) caching (.not (.and [.simple a, .simple b])))
        (eval (Index.run ops) caching (.or [.not (.simple a), .not (.simple b)])) ∧
      SameResult (eval (Index.run ops) caching (.not (.or [.simple a, .simple b])))
        (eval (Index.run ops) caching (.and [.not (.simple a), .not (.simple b)])) := by
  have hv := (Index.run_valid ops).1
  have hbuilt := IndexOp.run_built hb
  have hS := Valid.simpleSet_subset hv hbuilt
  obtain ⟨A, nA, hA, hnA, hcA⟩ := Valid.eval_not_simple_compl hv hbuilt ha hFa hda false
  obtain ⟨B, nB, hB, hnB, hcB⟩ := Valid.eval_not_simple_compl hv hbuilt hb' hFb hdb false
  have hpos := mapM_pair hA hB
  have hneg := mapM_pair hnA hnB
  obtain ⟨s1, h1, hm1⟩ := eval_not_and_ok caching hpos hS (List.cons_ne_nil _ _)
  obtain ⟨t1, ht1, hmt1⟩ := eval_or_ok caching hneg
  obtain ⟨s2, h2, hm2⟩ := eval_not_or_ok caching hpos
  obtain ⟨t2, ht2, hmt2⟩ := eval_and_of_subset hS caching (List.cons_ne_nil _ _) hneg
  rw [h1, ht1, h2, ht2]
  refine ⟨fun x => ?_, fun x => ?_⟩
  · simp only [hm1, hmt1, List.mem_cons, List.not_mem_nil, or_false, forall_eq_or_imp, forall_eq,
      exists_eq_or_imp, exists_eq_left, hcA, hcB]
    tauto
  · simp only [hm2, hmt2, List.mem_cons, List.not_mem_nil, or_false, forall_eq_or_imp, forall_eq,
      exists_eq_or_imp, exists_eq_left, hcA, hcB]
    tauto

/-- The requirement of a capability in namespace `x` whose attribute `attr` is `v`. -/
def attrIs (v : String) : Requirement := (Requirement.wildcard "x").withFilter ("(attr=" ++ v ++ ")")

/-- An application with one capability in namespace `x`, whose attribute `attr`
is `1`. -/
def taggedDraft : Draft :=
  (Draft.empty.identity "app" Version.zero "tool").offer
    ⟨"x", Table.ofList [("attr", .scalar (.long 1))], Table.empty⟩

/-- The resource the builder makes of it. -/
def taggedResource : Resource :=
  match taggedDraft.build with
  | .ok r => r
  | .error _ => default

theorem eval_deMorgan_of_decides_tagged :
    (∀ r, IndexOp.add r ∈ [IndexOp.add taggedResource] → r.Built) ∧
      (attrIs "1").filter = some "(attr=1)" ∧
      Filter.parse "(attr=1)" = .ok (.compare "attr" .equal "1") ∧
      (attrIs "2").filter = some "(attr=2)" ∧
      Filter.parse "(attr=2)" = .ok (.compare "attr" .equal "2") ∧
      (∀ q ∈ (Index.run [.add taggedResource]).resources,
        (Filter.compare "attr" .equal "1").Decides (attrIs "1").ns q) ∧
      (∀ q ∈ (Index.run [.add taggedResource]).resources,
        (Filter.compare "attr" .equal "2").Decides (attrIs "2").ns q) ∧
      SameResult (eval (Index.run [.add taggedResource]) true
          (.not (.and [.simple (attrIs "1"), .simple (attrIs "2")])))
        (eval (Index.run [.add taggedResource]) true
          (.or [.not (.simple (attrIs "1")), .not (.simple (attrIs "2"))])) ∧
      SameResult (eval (Index.run [.add taggedResource]) true
          (.not (.or [.simple (attrIs "1"), .simple (attrIs "2")])))
        (eval (Index.run [.add taggedResource]) true
          (.and [.not (.simple (attrIs "1")), .not (.simple (attrIs "2"))])) :=
  have hb : ∀ r, IndexOp.add r ∈ [IndexOp.add taggedResource] → r.Built := fun r hr => by
    rw [List.mem_singleton, IndexOp.add.injEq] at hr
    exact hr ▸ ⟨taggedDraft, rfl⟩
  have hda : ∀ q ∈ (Index.run [.add taggedResource]).resources,
      (Filter.compare "attr" .equal "1").Decides (attrIs "1").ns q := by decide
  have hdb : ∀ q ∈ (Index.run [.add taggedResource]).resources,
      (Filter.compare "attr" .equal "2").Decides (attrIs "2").ns q := by decide
  ⟨hb, rfl, rfl, rfl, rfl, hda, hdb,
    eval_deMorgan_of_decides _ hb true rfl rfl rfl rfl hda hdb⟩

/-- **Without a capability in the namespace De Morgan's laws fail.** A resource
with the identity capability only is in the negation of a conjunction, as every
resource is, but the filter of neither requirement rejects it. -/
theorem eval_not_and_ne_or_not :
    (∀ r, IndexOp.add r ∈ [IndexOp.add sampleResource] → r.Built) ∧
      (attrIs "1").compile = .ok ⟨attrIs "1", some (.compare "attr" .equal "1")⟩ ∧
      (attrIs "2").compile = .ok ⟨attrIs "2", some (.compare "attr" .equal "2")⟩ ∧
      eval (Index.run [.add sampleResource]) true
        (.not (.and [.simple (attrIs "1"), .simple (attrIs "2")])) = .ok [sampleResource.id] ∧
      eval (Index.run [.add sampleResource]) true
        (.or [.not (.simple (attrIs "1")), .not (.simple (attrIs "2"))]) = .ok [] := by
  refine ⟨fun r hr => ?_, rfl, rfl, ?_, ?_⟩
  · rw [List.mem_singleton, IndexOp.add.injEq] at hr
    exact hr ▸ sampleResource_built
  · rw [eval_negatedCompound _ _ rfl]
    unfold eval
    simp only [evalNode.eq_3, evalAnd_cons, evalAnd_nil, evalNode_simple, andTarget, andStep,
      negatedCompound, Option.getD]
    rfl
  · rw [eval_or]
    simp only [List.mapM_cons, List.mapM_nil, eval_not_simple]
    rfl

/-! ### A negated requirement, for every filter text -/

/-- **A negated requirement fails exactly when the requirement does, and
otherwise gives what its filter rejects.** The text `(!f)` of the negated
filter, with `f` trimmed, reads exactly when `f` does, and then as the negation
of `f`. So on every index reached by additions and removals, with caching on or
off, the negation of a requirement whose filter is `f` fails exactly when the
requirement fails, and otherwise gives the resources held with a capability in
the requirement's namespace that the filter of `f` rejects. -/
theorem eval_not_simple_iff (f : String) :
    (∀ G, Filter.parse ("(!" ++ Text.trim f ++ ")") = .ok G ↔
        ∃ F, Filter.parse f = .ok F ∧ G = .not F) ∧
      ∀ (ops : List IndexOp) (caching : Bool) (r : Requirement), r.filter = some f →
        ((∃ e, eval (Index.run ops) caching (.not (.simple r)) = .error e) ↔
            ∃ e, eval (Index.run ops) caching (.simple r) = .error e) ∧
          ∀ F, Filter.parse f = .ok F →
            ∃ s, eval (Index.run ops) caching (.not (.simple r)) = .ok s ∧
              ∀ x, x ∈ s ↔ Answers (Index.run ops) F r.ns false x := by
  refine ⟨fun G => Filter.parse_negate_iff, fun ops caching r hf => ⟨?_, fun F hF =>
    Valid.eval_not_simple_answers (Index.run_valid ops).1 hf hF caching⟩⟩
  rw [eval_not_simple, negateRequirement_of_filter hf, Except.ok_bind, eval_simple,
    exists_simpleSet_error_iff (Requirement.filter_withFilter r _), exists_simpleSet_error_iff hf]
  exact Filter.parse_negate_error_iff

theorem eval_not_simple_iff_tagged :
    (attrIs "1").filter = some "(attr=1)" ∧
      (((∃ e, eval (Index.run [.add taggedResource]) true (.not (.simple (attrIs "1"))) = .error e) ↔
          ∃ e, eval (Index.run [.add taggedResource]) true (.simple (attrIs "1")) = .error e) ∧
        ∀ F, Filter.parse "(attr=1)" = .ok F →
          ∃ s, eval (Index.run [.add taggedResource]) true (.not (.simple (attrIs "1"))) = .ok s ∧
            ∀ x, x ∈ s ↔ Answers (Index.run [.add taggedResource]) F (attrIs "1").ns false x) :=
  ⟨rfl, (eval_not_simple_iff "(attr=1)").2 _ true (attrIs "1") rfl⟩

end Query

end Depot

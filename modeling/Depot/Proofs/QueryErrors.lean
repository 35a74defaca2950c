import Depot.Proofs.Negation

/-!
# Which error a query reports

A query fails exactly when one of its leaves is *bad*: the filter of the
requirement does not read, or the leaf is negated and has no filter
(`Depot.Query.BadLeaf`). The leaves are taken in the order the evaluator meets
them, each marked negated when an odd number of negations stands right above
it (`Depot.Query.leaves`): two negations cancel, and the children of a
conjunction or disjunction start afresh, since the negation of a conjunction or
disjunction is taken against the universe once its children are evaluated.

The error reported is the one of the first bad leaf
(`Depot.Query.eval_fails_at_first_bad_leaf`), and what that error is
(`Depot.Query.leafError`) has one subtlety. A negated leaf is not evaluated
with its own filter `f` but with the text `(!f)` the evaluator writes, `f`
trimmed, and when `f` does not read, neither does `(!f)`
(`Depot.Filter.parse_negate_error_iff`) — but the error is the one of reading
`(!f)`: it names that text, and its position counts the two characters in
front. So the error of a negated leaf is not the error of reading its own
filter (`Depot.Query.eval_not_malformed_reports_negated_text`).

The proof follows the evaluator: one lemma per kind of node, stated on the
first error of the leaves (`Depot.Query.ErrorsAsLeaves`), and a recursion over
the query that puts them together, as for the cache.
-/

namespace Except

variable {ε α β : Type}

/-- The error of a result, if it failed. -/
def error? : Except ε α → Option ε
  | .error e => some e
  | .ok _ => none

@[simp] theorem error?_error (e : ε) : (Except.error e : Except ε α).error? = some e := rfl

@[simp] theorem error?_ok (a : α) : (Except.ok a : Except ε α).error? = none := rfl

@[simp] theorem error?_eq_some_iff {x : Except ε α} {e : ε} : x.error? = some e ↔ x = .error e := by
  cases x <;> simp

@[simp] theorem isSome_error?_iff {x : Except ε α} : x.error?.isSome ↔ ∃ e, x = .error e := by
  cases x <;> simp

@[simp] theorem error?_map (f : α → β) (x : Except ε α) : (f <$> x).error? = x.error? := by
  cases x <;> rfl

end Except

namespace Depot

/-! ### The leaves of a query -/

namespace Query

mutual

/-- **The leaves of a query**, in the order the evaluator meets them, each with
whether it is evaluated negated; `neg` says whether an odd number of negations
stands right above. -/
def leaves : Bool → Query → List (Requirement × Bool)
  | neg, .simple r => [(r, neg)]
  | _, .and qs => leavesAll qs
  | _, .or qs => leavesAll qs
  | neg, .not q => leaves (!neg) q

/-- The leaves of the children of a conjunction or disjunction, child by
child. -/
def leavesAll : List Query → List (Requirement × Bool)
  | [] => []
  | q :: qs => leaves false q ++ leavesAll qs

end

/-- The negation of a conjunction or disjunction has the leaves of the
conjunction or disjunction. -/
theorem leaves_negatedCompound {p q : Query} (h : negatedCompound p = some q) (neg : Bool) :
    p.leaves neg = q.leaves false := by
  rcases p with r | qs | qs | (r | qs | qs | p) <;> simp [negatedCompound] at h <;>
    subst h <;> rfl

/-- **The error of a leaf**, if evaluating it fails. A negated leaf without a
filter cannot be negated. A leaf with a filter fails as the text it is
evaluated with fails to read: its own filter, or for a negated leaf the
negation `(!f)` of its trimmed filter that the evaluator writes. -/
def leafError : Requirement × Bool → Option EvalError
  | (r, false) => r.filter.bind fun f => (Filter.parse f).error?.map .filter
  | (r, true) => match r.filter with
    | none => some (.unsupportedNegation r.render)
    | some f => (Filter.parse ("(!" ++ Text.trim f ++ ")")).error?.map .filter

/-- **A bad leaf**: its filter does not read, or it is negated and has no
filter. -/
def BadLeaf (l : Requirement × Bool) : Prop :=
  (∃ f e, l.1.filter = some f ∧ Filter.parse f = .error e) ∨ (l.2 = true ∧ l.1.filter = none)

/-- **A leaf has an error exactly when it is bad**: the negation of a filter
that does not read does not read either. -/
theorem isSome_leafError_iff (l : Requirement × Bool) : (leafError l).isSome ↔ BadLeaf l := by
  obtain ⟨r, _ | _⟩ := l
  · cases hf : r.filter <;> simp [leafError, BadLeaf, hf]
  · cases hf : r.filter with
    | none => simp [leafError, BadLeaf, hf]
    | some f =>
      simp only [leafError, BadLeaf, hf, Option.isSome_map, Except.isSome_error?_iff,
        Filter.parse_negate_error_iff]
      simp

/-! ### Reading the error off the leaves, one kind of node at a time -/

variable {idx : Index}

/-- Looking providers up fails as compiling the requirement does. -/
theorem error?_simpleSet (r : Requirement) :
    (simpleSet idx r).error? = r.compile.error?.map .filter := by
  cases hc : r.compile with
  | error e => simp [simpleSet_of_compile_error hc]
  | ok c => simp [simpleSet, Index.providers, hc, bind, Except.bind, pure, Except.pure]

theorem error?_compile (r : Requirement) :
    r.compile.error? = r.filter.bind fun f => (Filter.parse f).error? := by
  unfold Requirement.compile
  cases r.filter with
  | none => rfl
  | some f => cases hp : Filter.parse f <;> simp [hp]

/-- A conjunction whose children all give sets takes each of them in. -/
theorem evalAnd_ok_of_mapM_ok {qs : List Query} {ss : List ResourceSet}
    (h : qs.mapM (eval idx false) = .ok ss) (c : Bool) (acc : Option ResourceSet)
    (ex : List ResourceSet) {k : Cache} (hk : CacheOk idx k) :
    ∃ acc' ex' k', evalAnd idx c qs acc ex k = .ok (acc', ex', k') := by
  induction qs generalizing ss acc ex k with
  | nil => exact ⟨acc, ex, k, evalAnd_nil idx c k acc ex⟩
  | cons q rest ih =>
    obtain ⟨t, ts, hq, hrest, rfl⟩ := mapM_cons_eq_ok.1 h
    obtain ⟨s, hs⟩ := eval_andTarget_ok hq
    obtain ⟨k1, hk1, h1⟩ := evalNode_of_eval_ok (c := c) hk hs
    obtain ⟨acc', ex', k', hrun⟩ := ih hrest _ _ hk1
    exact ⟨acc', ex', k', by rw [evalAnd_cons, h1, Except.ok_bind, hrun]⟩

/-- A conjunction whose children all give sets gives a set. -/
theorem eval_and_ok_of_mapM {qs : List Query} {ss : List ResourceSet}
    (h : qs.mapM (eval idx false) = .ok ss) : ∃ s, eval idx false (.and qs) = .ok s := by
  cases qs with
  | nil => exact ⟨[], eval_and_nil idx false⟩
  | cons q qs =>
    obtain ⟨acc', ex', k', hrun⟩ := evalAnd_ok_of_mapM_ok h false none [] cacheOk_none
    rw [eval, evalNode.eq_3, hrun]
    -- without an ordinary child the subtraction starts from the universe
    cases acc' <;> simp [everything_false]

/-- A conjunction fails exactly as the run of its children in order does. -/
theorem error?_eval_and (qs : List Query) :
    (eval idx false (.and qs)).error? = (qs.mapM (eval idx false)).error? := by
  rcases h : qs.mapM (eval idx false) with e | ss
  · rw [eval_and_error idx false h]
    rfl
  · obtain ⟨s, hs⟩ := eval_and_ok_of_mapM h
    rw [hs]
    rfl

/-- **What a query reports on failure**: its result fails exactly with the
error of its first leaf that has one. -/
def ErrorsAsLeaves (idx : Index) (q : Query) : Prop :=
  (eval idx false q).error? = (q.leaves false).findSome? leafError

/-- The same for the children of a conjunction or disjunction, evaluated in
order. -/
def AllErrorsAsLeaves (idx : Index) (qs : List Query) : Prop :=
  (qs.mapM (eval idx false)).error? = (leavesAll qs).findSome? leafError

theorem errorsAsLeaves_simple (r : Requirement) : ErrorsAsLeaves idx (.simple r) := by
  rw [ErrorsAsLeaves, eval_simple, error?_simpleSet, error?_compile]
  simp only [leaves, List.findSome?_cons, List.findSome?_nil, leafError]
  cases r.filter with
  | none => rfl
  | some f =>
    simp only [Option.bind_some]
    cases Filter.parse f <;> rfl

theorem errorsAsLeaves_not_simple (r : Requirement) : ErrorsAsLeaves idx (.not (.simple r)) := by
  rw [ErrorsAsLeaves, eval_not_simple]
  cases hf : r.filter with
  | none => simp [negateRequirement, hf, leaves, leafError]
  | some f =>
    rw [negateRequirement_of_filter hf, Except.ok_bind, error?_simpleSet, error?_compile,
      Requirement.filter_withFilter]
    simp only [leaves, Bool.not_false, List.findSome?_cons, List.findSome?_nil, leafError, hf,
      Option.bind_some]
    cases Filter.parse ("(!" ++ Text.trim f ++ ")") <;> rfl

theorem errorsAsLeaves_not_not {q : Query} (h : ErrorsAsLeaves idx q) :
    ErrorsAsLeaves idx (.not (.not q)) := by
  rw [ErrorsAsLeaves, eval_not_not, h]
  simp [leaves]

theorem errorsAsLeaves_negatedCompound {p q : Query} (hpq : negatedCompound p = some q)
    (h : ErrorsAsLeaves idx q) : ErrorsAsLeaves idx p := by
  rw [ErrorsAsLeaves, eval_negatedCompound idx false hpq, Except.error?_map, h,
    leaves_negatedCompound hpq]

theorem errorsAsLeaves_and {qs : List Query} (h : AllErrorsAsLeaves idx qs) :
    ErrorsAsLeaves idx (.and qs) := by
  rw [ErrorsAsLeaves, error?_eval_and, h, leaves]

theorem errorsAsLeaves_or {qs : List Query} (h : AllErrorsAsLeaves idx qs) :
    ErrorsAsLeaves idx (.or qs) := by
  rw [ErrorsAsLeaves, eval_or, Except.error?_map, h, leaves]

theorem allErrorsAsLeaves_nil : AllErrorsAsLeaves idx [] := rfl

theorem allErrorsAsLeaves_cons {q : Query} {qs : List Query} (hq : ErrorsAsLeaves idx q)
    (hqs : AllErrorsAsLeaves idx qs) : AllErrorsAsLeaves idx (q :: qs) := by
  rw [AllErrorsAsLeaves, List.mapM_cons, leavesAll, List.findSome?_append, ← hq, ← hqs]
  cases eval idx false q with
  | error e => rfl
  | ok s => cases qs.mapM (eval idx false) <;> rfl

mutual

/-- **Every query fails with the error of its first bad leaf.** -/
theorem errorsAsLeaves (idx : Index) : ∀ q : Query, ErrorsAsLeaves idx q
  | .simple r => errorsAsLeaves_simple r
  | .and qs => errorsAsLeaves_and (allErrorsAsLeaves idx qs)
  | .or qs => errorsAsLeaves_or (allErrorsAsLeaves idx qs)
  | .not (.simple r) => errorsAsLeaves_not_simple r
  | .not (.not q) => errorsAsLeaves_not_not (errorsAsLeaves idx q)
  | .not (.and qs) => errorsAsLeaves_negatedCompound rfl (errorsAsLeaves idx (.and qs))
  | .not (.or qs) => errorsAsLeaves_negatedCompound rfl (errorsAsLeaves idx (.or qs))
termination_by q => sizeOf q

theorem allErrorsAsLeaves (idx : Index) : ∀ qs : List Query, AllErrorsAsLeaves idx qs
  | [] => allErrorsAsLeaves_nil
  | q :: qs => allErrorsAsLeaves_cons (errorsAsLeaves idx q) (allErrorsAsLeaves idx qs)
termination_by qs => sizeOf qs

end

/-! ### The first bad leaf -/

/-- **A query fails exactly when it has a bad leaf, and with the error of the
first one.** On every index, with caching on or off, the evaluation of a query
fails exactly when one of its leaves, taken in the order of evaluation and
marked negated under an odd number of negations, has a filter that does not
read or is negated without a filter. It then fails with the error of the first
such leaf: the unsupported negation of the requirement's text for a negated
leaf without a filter, and otherwise the error of reading the text the leaf is
evaluated with — its own filter, or for a negated leaf the negated text `(!f)`
the evaluator writes, whose error names that text and counts its position
there. There is no result beside the error. -/
theorem eval_fails_at_first_bad_leaf (idx : Index) (caching : Bool) (q : Query) :
    ((∃ e, eval idx caching q = .error e) ↔ ∃ l ∈ q.leaves false, BadLeaf l) ∧
      ∀ e, eval idx caching q = .error e ↔
        ∃ pre l post, q.leaves false = pre ++ l :: post ∧ (∀ l' ∈ pre, ¬ BadLeaf l') ∧
          leafError l = some e := by
  have h := errorsAsLeaves idx q
  rw [ErrorsAsLeaves, ← eval_caching idx caching] at h
  have hgood : ∀ l, leafError l = none ↔ ¬ BadLeaf l := fun l => by
    rw [← isSome_leafError_iff, Option.not_isSome_iff_eq_none]
  constructor
  · rw [← Except.isSome_error?_iff, h, List.findSome?_isSome_iff]
    simp only [isSome_leafError_iff]
  · intro e
    rw [← Except.error?_eq_some_iff, h, List.findSome?_eq_some_iff]
    simp only [hgood]
    constructor
    · rintro ⟨pre, l, post, hl, he, hpre⟩
      exact ⟨pre, l, post, hl, hpre, he⟩
    · rintro ⟨pre, l, post, hl, hpre, he⟩
      exact ⟨pre, l, post, hl, he, hpre⟩

/-- The error of a negated leaf is not the error of reading its own filter:
`(a=1)(b=2)` stops at its fifth character with text left over, while the
negated text `(!(a=1)(b=2))` the evaluator reads stops at its seventh, where
the negation should close. -/
theorem eval_not_malformed_reports_negated_text :
    Filter.parse "(a=1)(b=2)" = .error ⟨"(a=1)(b=2)", 5, .trailing⟩ ∧
      eval (Index.run []) true (.not (.simple ((Requirement.wildcard "x").withFilter "(a=1)(b=2)"))) =
        .error (.filter ⟨"(!(a=1)(b=2))", 7, .expected ')'⟩) := by
  refine ⟨rfl, ?_⟩
  rw [eval_not_simple, negateRequirement_of_filter rfl, Except.ok_bind]
  exact simpleSet_of_compile_error rfl

end Query

end Depot

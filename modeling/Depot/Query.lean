import Depot.Provider
import Depot.Text.Blank

/-!
# Queries over requirements

A query combines requirements with conjunction, disjunction and negation, and
evaluates on an index to a set of resources:

* a requirement gives the resources of its providers;
* a disjunction gives the union of its children, and the empty one nothing;
* a conjunction gives the intersection of its children, and the empty one
  nothing; a child that negates a conjunction or disjunction is not
  intersected but subtracted at the end, and when every child is of that kind
  the subtraction starts from every resource;
* the negation of a requirement keeps its namespace and negates its filter,
  written `(!filter)` with the filter trimmed, so it gives the resources with
  a capability of that namespace that the filter refuses; a requirement
  without a filter cannot be negated;
* a double negation gives its inner query, and the negation of a conjunction
  or disjunction every resource except those the inner query gives.

*Every resource* is the set of providers of the identity namespace, the
*universe*. With caching on, it is computed at most once per evaluation and
kept for later uses; `Depot.Query.eval` threads that cache through the
evaluation explicitly. The first error in the order of evaluation is the
result.
-/

namespace Depot

/-- **A query.** -/
inductive Query where
  | simple (r : Requirement)
  | and (children : List Query)
  | or (children : List Query)
  | not (child : Query)
  deriving Inhabited

/-- **Why a query cannot be evaluated.** -/
inductive EvalError where
  /-- A negated requirement has no filter; its text. -/
  | unsupportedNegation (requirement : String)
  /-- A filter does not read. -/
  | filter (e : FilterError)
  deriving DecidableEq, Repr

/-- The text of an evaluation error. -/
def EvalError.message : EvalError → String
  | .unsupportedNegation r => "Unsupported negation: requirement '" ++ r ++ "' has no filter to invert"
  | .filter e => "Invalid filter in requirement: " ++ e.message

/-- A set of resources, as their identities without repeats. -/
abbrev ResourceSet := List ResourceId

namespace ResourceSet

/-- The identities of either set. -/
def union (a b : ResourceSet) : ResourceSet :=
  b.foldl (fun acc x => if acc.contains x then acc else acc ++ [x]) a

/-- The identities of both sets. -/
def inter (a b : ResourceSet) : ResourceSet := a.filter b.contains

/-- The identities of the first set and not the second. -/
def diff (a b : ResourceSet) : ResourceSet := a.filter fun x => !b.contains x

end ResourceSet

namespace Query

/-- The state of an evaluation: the universe, once cached. -/
abbrev Cache := Option ResourceSet

/-- The resources of the providers of a requirement. -/
def simpleSet (idx : Index) (r : Requirement) : Except EvalError ResourceSet :=
  match idx.providers r with
  | .error e => .error (.filter e)
  | .ok refs => .ok (ResourceSet.union [] (refs.map (·.resource.id)))

/-- The universe: the providers of the identity namespace, from the cache when
caching is on and it is there. -/
def everything (idx : Index) (caching : Bool) (cache : Cache) :
    Except EvalError (ResourceSet × Cache) :=
  match caching, cache with
  | true, some u => .ok (u, cache)
  | _, _ => match simpleSet idx (Requirement.wildcard identityNamespace) with
    | .ok u => .ok (u, if caching then some u else cache)
    | .error e => .error e

/-- The negation of a requirement: its filter, trimmed, negated. -/
def negateRequirement (r : Requirement) : Except EvalError Requirement :=
  match r.filter with
  | none => .error (.unsupportedNegation r.render)
  | some f => .ok (r.withFilter ("(!" ++ Text.trim f ++ ")"))

mutual

/-- **Evaluates a query**, threading the cache of the universe. -/
def evalNode (idx : Index) (caching : Bool) : Query → Cache → Except EvalError (ResourceSet × Cache)
  | .simple r, cache => (fun s => (s, cache)) <$> simpleSet idx r
  | .and [], cache => .ok ([], cache)
  | .and (q :: qs), cache =>
    match evalAnd idx caching (q :: qs) none [] cache with
    | .error e => .error e
    | .ok (some s, excluded, cache) => .ok (excluded.foldl ResourceSet.diff s, cache)
    | .ok (none, excluded, cache) => match everything idx caching cache with
      | .ok (u, cache) => .ok (excluded.foldl ResourceSet.diff u, cache)
      | .error e => .error e
  | .or qs, cache => evalOr idx caching qs [] cache
  | .not q, cache => evalNot idx caching q cache

/-- Evaluates the negation of a query. -/
def evalNot (idx : Index) (caching : Bool) : Query → Cache → Except EvalError (ResourceSet × Cache)
  | .simple r, cache => match negateRequirement r with
    | .ok r' => (fun s => (s, cache)) <$> simpleSet idx r'
    | .error e => .error e
  | .not q, cache => evalNode idx caching q cache
  | .and qs, cache => match evalNode idx caching (.and qs) cache with
    | .ok (inner, cache) => match everything idx caching cache with
      | .ok (u, cache) => .ok (ResourceSet.diff u inner, cache)
      | .error e => .error e
    | .error e => .error e
  | .or qs, cache => match evalNode idx caching (.or qs) cache with
    | .ok (inner, cache) => match everything idx caching cache with
      | .ok (u, cache) => .ok (ResourceSet.diff u inner, cache)
      | .error e => .error e
    | .error e => .error e

/-- Evaluates the children of a conjunction in order: the intersection of the
ordinary children so far, and the sets of the negated conjunctions and
disjunctions to subtract. -/
def evalAnd (idx : Index) (caching : Bool) :
    List Query → Option ResourceSet → List ResourceSet → Cache →
      Except EvalError (Option ResourceSet × List ResourceSet × Cache)
  | [], acc, excluded, cache => .ok (acc, excluded, cache)
  | .not (.and qs) :: rest, acc, excluded, cache =>
    match evalNode idx caching (.and qs) cache with
    | .ok (s, cache) => evalAnd idx caching rest acc (excluded ++ [s]) cache
    | .error e => .error e
  | .not (.or qs) :: rest, acc, excluded, cache =>
    match evalNode idx caching (.or qs) cache with
    | .ok (s, cache) => evalAnd idx caching rest acc (excluded ++ [s]) cache
    | .error e => .error e
  | q :: rest, acc, excluded, cache =>
    match evalNode idx caching q cache with
    | .ok (s, cache) =>
      let acc := match acc with
        | none => some s
        | some running => some (ResourceSet.inter running s)
      evalAnd idx caching rest acc excluded cache
    | .error e => .error e

/-- Evaluates the children of a disjunction in order and unites their sets. -/
def evalOr (idx : Index) (caching : Bool) :
    List Query → ResourceSet → Cache → Except EvalError (ResourceSet × Cache)
  | [], acc, cache => .ok (acc, cache)
  | q :: rest, acc, cache =>
    match evalNode idx caching q cache with
    | .ok (s, cache) => evalOr idx caching rest (ResourceSet.union acc s) cache
    | .error e => .error e

end

/-- **The resources a query gives** on an index, with caching of the universe
on or off. -/
def eval (idx : Index) (caching : Bool) (q : Query) : Except EvalError ResourceSet :=
  (·.1) <$> evalNode idx caching q none

end Query

end Depot

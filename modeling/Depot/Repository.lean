import Depot.Query
import Depot.Store
import Depot.Resource.Builder
import Depot.Config

/-!
# The repository

A repository joins an index of resources, a content store and a count of
references: for each digest, how many indexed resources carry content with it.

* Adding a resource with content needs the content stored already; then the
  resource is indexed and its digest gains a reference.
* Adding with content stores the bytes first, builds the draft with that
  content and indexes the resource. When either step fails, the bytes are
  removed again if this call stored them and no reference names them.
* Removing a resource drops it from the index and its digest loses a
  reference; at none, the count is dropped and the blob removed.
* Collecting garbage removes every stored blob that no count names.

`Depot.RepoOp` names these calls, with bytes put into the store ahead of the
resources that will name them, and `Depot.Repository.run` performs a sequence
of them on a fresh repository.
-/

namespace Depot

/-- **Why a repository operation fails.** -/
inductive RepoError where
  | store (e : StoreError)
  | duplicate (e : DuplicateResource)
  | resource (e : ResourceError)
  deriving DecidableEq, Repr

/-- The text of a repository error. -/
def RepoError.message : RepoError → String
  | .store e => e.message
  | .duplicate e => e.message
  | .resource e => e.message

/-- **A repository.** -/
structure Repository where
  config : Config
  index : Index
  store : Store
  refs : Table Nat
  deriving Inhabited

namespace Repository

/-- The empty repository of some settings. -/
def empty (config : Config) : Repository := ⟨config, Index.empty, Store.empty config.verifyOnRead, Table.empty⟩

/-- Adds a reference to a digest. -/
def retain (refs : Table Nat) (d : Digest) : Table Nat :=
  refs.insert d.text ((refs.get? d.text).getD 0 + 1)

/-- **Adds a resource** whose content, if any, is stored. -/
def add (repo : Repository) (r : Resource) : Except RepoError Repository := do
  if let some c := r.content then
    if !repo.store.has c.digest then throw (.store (.notFound c.digest))
  let index ← match repo.index.add r with
    | .ok idx => pure idx
    | .error e => throw (.duplicate e)
  let refs := match r.content with
    | some c => retain repo.refs c.digest
    | none => repo.refs
  pure { repo with index, refs }

/-- Indexes a draft with content, the bytes being stored already. -/
def indexDraft (index : Index) (d : Draft) : Except RepoError (Resource × Index) := do
  let r ← match d.build with
    | .ok r => pure r
    | .error e => throw (.resource e)
  match index.add r with
  | .ok idx => pure (r, idx)
  | .error e => throw (.duplicate e)

/-- **Adds a draft with its content bytes** and an optional media type. -/
def addWithContent (repo : Repository) (d : Draft) (bytes : List UInt8) (mime : Option String) :
    Repository × Except RepoError Resource :=
  let (store, digest, size, created) := repo.store.putStream bytes
  match indexDraft repo.index (d.withContent ⟨digest, size, mime⟩) with
  | .ok (r, index) => ({ repo with store, index, refs := retain repo.refs digest }, .ok r)
  | .error e =>
    let store := if created && !repo.refs.contains digest.text then (store.remove digest).1 else store
    ({ repo with store }, .error e)

/-- Releases a reference to a digest: the count drops by one, and at none the
count goes and the blob is removed. A digest without a count is left alone. -/
def release (repo : Repository) (d : Digest) : Repository :=
  match repo.refs.get? d.text with
  | none => repo
  | some n =>
    if n - 1 = 0 then { repo with refs := repo.refs.erase d.text, store := (repo.store.remove d).1 }
    else { repo with refs := repo.refs.insert d.text (n - 1) }

/-- **Removes the resource with an identity**, and tells whether there was
one. -/
def remove (repo : Repository) (id : ResourceId) : Repository × Bool :=
  match repo.index.get? id with
  | none => (repo, false)
  | some r =>
    let repo := { repo with index := (repo.index.remove id).1 }
    match r.content with
    | none => (repo, true)
    | some c => (repo.release c.digest, true)

/-- **The content of a resource**, if it has any. -/
def content (repo : Repository) (r : Resource) : Except RepoError (Option (List UInt8)) :=
  match r.content with
  | none => .ok none
  | some c => match repo.store.get c.digest with
    | .ok bs => .ok (some bs)
    | .error e => .error (.store e)

/-- **Removes every blob that no reference names**, and counts them. -/
def collectGarbage (repo : Repository) : Repository × Nat :=
  repo.store.digests.foldl (fun (acc : Repository × Nat) d =>
    if acc.1.refs.contains d.text then acc
    else
      let (store, removed) := acc.1.store.remove d
      ({ acc.1 with store }, if removed then acc.2 + 1 else acc.2)) (repo, 0)

/-- The capabilities that provide for a requirement. -/
def findProviders (repo : Repository) (r : Requirement) : Except FilterError (List CapRef) :=
  repo.index.providers r

/-- The resources a query gives, caching the universe as the settings say. -/
def eval (repo : Repository) (q : Query) : Except EvalError ResourceSet :=
  Query.eval repo.index repo.config.cacheUniverse q

end Repository

/-- **A call that changes a repository**: adding a resource, adding a draft with
its content, removing the resource of an identity, collecting garbage, or
putting bytes into the store ahead of the resources that will name them. -/
inductive RepoOp where
  | add (r : Resource)
  | addWithContent (d : Draft) (bytes : List UInt8) (mime : Option String)
  | remove (id : ResourceId)
  | collectGarbage
  | put (bytes : List UInt8)
  | putStream (bytes : List UInt8)

namespace Repository

/-- Performs a call: the repository after it, and the error it reports. A
refused addition leaves the repository as it is. -/
def perform (repo : Repository) : RepoOp → Repository × Option RepoError
  | .add r => match repo.add r with
    | .ok repo' => (repo', none)
    | .error e => (repo, some e)
  | .addWithContent d bytes mime => match repo.addWithContent d bytes mime with
    | (repo', .ok _) => (repo', none)
    | (repo', .error e) => (repo', some e)
  | .remove id => ((repo.remove id).1, none)
  | .collectGarbage => (repo.collectGarbage.1, none)
  | .put bytes => ({ repo with store := (repo.store.put bytes).1 }, none)
  | .putStream bytes => ({ repo with store := (repo.store.putStream bytes).1 }, none)

/-- **The repository after a sequence of calls**, from a fresh one. -/
def run (config : Config) (ops : List RepoOp) : Repository :=
  ops.foldl (fun repo op => (repo.perform op).1) (empty config)

end Repository

end Depot

import Depot.Proofs.References

/-!
# What building a draft gives, and when

A draft is any list of offers, requirements and content, so it stands for
every sequence of builder calls. `Depot.Draft.build` makes four checks in a
fixed order: that exactly one offer is in the identity namespace, that its
`identity` attribute is a non-empty text (`Depot.Offer.HasName`), that its
`version` attribute is absent, a version, or a text that reads as one
(`Depot.Offer.HasVersion`), and that the content size, if any, fits a long
(`Depot.Draft.SizeFits`).

The specification has three parts, assembled in `Depot.Draft.build_outcome`:

* **Success is exactly the four checks passing** (`Depot.Draft.Accepted`).
* **What success gives** (`Depot.Resource.AssembledFrom`): the identity is the
  name and the version read from the identity offer; the capabilities are the
  offers in the order given, the identity offer carrying the version itself,
  followed by one offer describing the content exactly when there is content;
  every capability names the resource; and the resource's identity capability
  is the one in the identity namespace, with the version under `version`.
* **A failure reports the first check that fails** (`Depot.Draft.FirstFault`),
  with the error that check gives.

Each check is a function of the model, and each has its own pair of lemmas:
it succeeds with a value exactly when the predicate above holds of it, and
fails with an error exactly when the matching refusal holds. The build lemmas
only chain these.
-/

namespace Except

theorem bind_eq_error_iff {ε α β : Type} {x : Except ε α} {f : α → Except ε β} {e : ε} :
    x >>= f = .error e ↔ x = .error e ∨ ∃ a, x = .ok a ∧ f a = .error e := by
  cases x <;> simp

end Except

namespace Depot

/-! ### What the checks accept and refuse -/

namespace Offer

/-- **The name an identity offer gives**: its `identity` attribute, a text
that is not empty. -/
def HasName (o : Offer) (name : String) : Prop :=
  o.attributes.get? "identity" = some (.scalar (.string name)) ∧ name ≠ ""

/-- **The version an identity offer gives**: `0.0.0` when it has no `version`
attribute, the version it holds there, or the version that the text it holds
there reads as. -/
def HasVersion (o : Offer) (v : Version) : Prop :=
  (o.attributes.get? "version" = none ∧ v = Version.zero) ∨
    o.attributes.get? "version" = some (.scalar (.version v)) ∨
    ∃ s, o.attributes.get? "version" = some (.scalar (.string s)) ∧ Version.parse s = .ok v

/-- **The name check refuses an identity offer**, with its error: no name or
the empty text is a missing name, and a value that is not a text is reported
with its type spec. -/
def NameRefused (o : Offer) (e : ResourceError) : Prop :=
  ((o.attributes.get? "identity" = none ∨
      o.attributes.get? "identity" = some (.scalar (.string ""))) ∧
      e = .invalidIdentity .missingName) ∨
    ∃ val, o.attributes.get? "identity" = some val ∧ (∀ n, val ≠ .scalar (.string n)) ∧
      e = .invalidIdentity (.nameNotText val.typeSpec.render)

/-- **The version check refuses an identity offer**, with its error: a text
that does not read as a version is reported with the name and the reading's
error, and a value that is neither a version nor a text with its type spec. -/
def VersionRefused (name : String) (o : Offer) (e : ResourceError) : Prop :=
  (∃ s err, o.attributes.get? "version" = some (.scalar (.string s)) ∧
      Version.parse s = .error err ∧ e = .invalidIdentity (.badVersion name err)) ∨
    ∃ val, o.attributes.get? "version" = some val ∧ (∀ v, val ≠ .scalar (.version v)) ∧
      (∀ s, val ≠ .scalar (.string s)) ∧
      e = .invalidIdentity (.versionNotVersion val.typeSpec.render)

/-- An offer as the builder completes it: an offer in the identity namespace
gets the version under `version`, and every other is kept. -/
def completed (v : Version) (o : Offer) : Offer :=
  if o.ns == identityNamespace then
    { o with attributes := o.attributes.insert "version" (.scalar (.version v)) }
  else o

/-- **The offer of some content**: in the content namespace, with the text of
the digest under `content`, the size as a long under `size`, and the media
type, if there is one, under `mime`. -/
def Describes (o : Offer) (c : ContentInfo) : Prop :=
  o.ns = contentNamespace ∧ o.attributes.get? "content" = some (.scalar (.string c.digest.text)) ∧
    o.attributes.get? "size" = some (.scalar (.long c.size)) ∧
    o.attributes.get? "mime" = c.mime.map fun m => .scalar (.string m)

end Offer

namespace Draft

/-- The offers of a draft in the identity namespace. -/
def identityOffers (d : Draft) : List Offer := d.offers.filter (·.ns == identityNamespace)

/-- **The content of a draft fits**: its size, if it has content, is at most
the largest long. -/
def SizeFits (d : Draft) : Prop := ∀ c ∈ d.content, c.size ≤ Numeral.Long.maxValue.toNat

/-- The size check refuses the content of a draft, with its error: the size
is above the largest long. -/
def SizeRefused (d : Draft) (e : ResourceError) : Prop :=
  ∃ c, d.content = some c ∧ Numeral.Long.maxValue.toNat < c.size ∧
    e = .invalidIdentity (.sizeOutOfRange c.size)

/-- **A draft that passes the four checks**: one identity offer, with a name
and a version, and content that fits. -/
def Accepted (d : Draft) : Prop :=
  ∃ o, d.identityOffers = [o] ∧ (∃ n, o.HasName n) ∧ (∃ v, o.HasVersion v) ∧ d.SizeFits

/-- **The first check a draft fails, and the error it gives**: the count of
identity offers, then the name, the version and the content size. -/
def FirstFault (d : Draft) (e : ResourceError) : Prop :=
  (d.identityOffers = [] ∧ e = .missingIdentity) ∨
    (2 ≤ d.identityOffers.length ∧ e = .multipleIdentities d.identityOffers.length) ∨
    ∃ o, d.identityOffers = [o] ∧
      (o.NameRefused e ∨ (∃ n, o.HasName n ∧ o.VersionRefused n e) ∨
        ((∃ n, o.HasName n) ∧ (∃ v, o.HasVersion v) ∧ d.SizeRefused e))

end Draft

/-- **A resource assembled from a draft**: its identity comes from the
identity offer, its capabilities are the completed offers in order and then
the offer of the content when there is content, each capability names the
resource, the identity capability is the one in the identity namespace and
holds the version, and the requirements and the content are the draft's. -/
structure Resource.AssembledFrom (r : Resource) (d : Draft) : Prop where
  identity : ∃ o, d.identityOffers = [o] ∧ o.HasName r.id.name ∧ o.HasVersion r.id.version
  offers : ∃ extra, r.capabilities.map Capability.toOffer =
      d.offers.map (Offer.completed r.id.version) ++ extra ∧
    ((d.content = none ∧ extra = []) ∨ ∃ c o, d.content = some c ∧ extra = [o] ∧ o.Describes c)
  stamped : ∀ cap ∈ r.capabilities, cap.resource = r.id
  identityCapability : ∃ cap, r.identity = some cap ∧
    r.capabilities.filter (·.ns == identityNamespace) = [cap] ∧
    cap.attributes.get? "version" = some (.scalar (.version r.id.version))
  requirements : r.requirements = d.requirements
  content : r.content = d.content

/-! ### One lemma pair per check -/

namespace Draft

variable {o : Offer} {name : String} {v : Version} {e : ResourceError}

theorem identityName_eq_ok_iff : identityName o = .ok name ↔ o.HasName name := by
  unfold identityName Offer.HasName
  rcases h : o.attributes.get? "identity" with _ | ((n | w | k | x) | xs)
  · simp
  · by_cases hn : n = ""
    · simp [hn]
    · simp only [String.isEmpty_iff, hn, if_false, Except.ok.injEq, Option.some.injEq,
        Value.scalar.injEq, Scalar.string.injEq]
      constructor
      · rintro rfl
        exact ⟨rfl, hn⟩
      · rintro ⟨rfl, -⟩
        rfl
  all_goals simp

theorem identityName_eq_error_iff : identityName o = .error e ↔ o.NameRefused e := by
  unfold identityName Offer.NameRefused
  rcases h : o.attributes.get? "identity" with _ | ((n | w | k | x) | xs)
  · simp [eq_comm]
  · by_cases hn : n = ""
    · subst hn
      simp only [String.isEmpty_iff, if_true, Except.error.injEq, or_true, true_and,
        Option.some.injEq]
      -- the empty text is a text, so the second refusal cannot hold
      exact ⟨fun he => .inl he.symm, fun
        | .inl he => he.symm
        | .inr ⟨_, hval, hnot, _⟩ => absurd hval.symm (hnot "")⟩
    · simp only [String.isEmpty_iff, hn, if_false, reduceCtorEq, false_iff]
      rintro (⟨h1 | h1, -⟩ | ⟨val, h1, h2, -⟩)
      · cases h1
      · exact hn (by simpa using h1)
      · exact h2 n (Option.some.inj h1).symm
  all_goals simp [eq_comm]

theorem identityVersion_eq_ok_iff : identityVersion name o = .ok v ↔ o.HasVersion v := by
  unfold identityVersion Offer.HasVersion
  rcases h : o.attributes.get? "version" with _ | ((s | w | k | x) | xs)
  · simp [eq_comm]
  · rcases hs : Version.parse s with err | w <;> simp [hs]
  all_goals simp

theorem identityVersion_eq_error_iff :
    identityVersion name o = .error e ↔ o.VersionRefused name e := by
  unfold identityVersion Offer.VersionRefused
  rcases h : o.attributes.get? "version" with _ | ((s | w | k | x) | xs)
  · simp
  · rcases hs : Version.parse s with err | w <;> simp [hs, eq_comm]
  all_goals simp [eq_comm]

variable {d : Draft} {offers : List Offer}

theorem finalOffers_eq_ok_iff :
    d.finalOffers v = .ok offers ↔
      d.SizeFits ∧
        offers = d.offers.map (Offer.completed v) ++ (d.content.map contentOffer).toList := by
  unfold finalOffers SizeFits
  rcases hc : d.content with _ | c
  · simp only [Except.ok.injEq, Option.map_none, Option.toList_none, List.append_nil,
      Option.mem_def, reduceCtorEq, false_implies, implies_true, true_and]
    exact eq_comm
  · by_cases hs : c.size ≤ Numeral.Long.maxValue.toNat
    · simp only [hs, if_true, Except.ok.injEq, Option.map_some, Option.toList_some,
        Option.mem_def, Option.some.injEq, forall_eq', true_and]
      exact eq_comm
    · simp [hs]

theorem finalOffers_eq_error_iff : d.finalOffers v = .error e ↔ d.SizeRefused e := by
  unfold finalOffers SizeRefused
  rcases hc : d.content with _ | c
  · simp
  · by_cases hs : c.size ≤ Numeral.Long.maxValue.toNat
    · simp [hs]
    · have hlt : Numeral.Long.maxValue.toNat < c.size := Nat.lt_of_not_le hs
      simp [hs, hlt, eq_comm]

/-- The offer of some content describes it. -/
theorem contentOffer_describes (c : ContentInfo) : (contentOffer c).Describes c := by
  rcases c with ⟨digest, size, _ | m⟩ <;>
    simp [contentOffer, Offer.Describes, Table.ofList, Table.get?_insert_ne, contentNamespace,
      Value.ofString]

/-! ### The build -/

variable {r : Resource}

/-- **A build fails exactly with the error of the first check the draft
fails.** -/
theorem build_eq_error_iff : d.build = .error e ↔ d.FirstFault e := by
  unfold FirstFault
  rcases hf : d.identityOffers with _ | ⟨o, _ | ⟨o', rest⟩⟩ <;> unfold identityOffers at hf <;>
    unfold build <;> rw [hf]
  · simp [eq_comm]
  · -- one identity offer: the name, the version and the size are checked in turn
    simp only [Except.ok_bind, Except.bind_eq_error_iff, identityName_eq_error_iff,
      identityName_eq_ok_iff, identityVersion_eq_error_iff, identityVersion_eq_ok_iff,
      finalOffers_eq_error_iff, Except.pure_eq_ok, reduceCtorEq, and_false, exists_false, or_false]
    simp only [false_and, false_or, List.length_singleton, Nat.reduceLeDiff, List.cons.injEq,
      and_true, exists_eq_left', and_or_left, exists_or, exists_and_right]
  · simp [eq_comm]

/-- **A build succeeds exactly when the draft passes the checks**, with the
resource assembled from the one identity offer: its name and version, its
type, the completed offers and the content offer stamped with the identity,
and the requirements and the content of the draft. -/
theorem build_eq_ok_iff :
    d.build = .ok r ↔ ∃ o, d.identityOffers = [o] ∧ o.HasName r.id.name ∧
      o.HasVersion r.id.version ∧ d.SizeFits ∧ r.typeName = identityType o ∧
      r.capabilities = (d.offers.map (Offer.completed r.id.version) ++
        (d.content.map contentOffer).toList).map (fun o' => { o' with resource := r.id }) ∧
      r.requirements = d.requirements ∧ r.content = d.content := by
  rcases r with ⟨⟨name, version⟩, typeName, caps, reqs, content⟩
  rcases hf : d.identityOffers with _ | ⟨o, _ | ⟨o', rest⟩⟩ <;> unfold identityOffers at hf <;>
    unfold build <;> rw [hf]
  · simp
  · simp only [Except.ok_bind, Except.bind_eq_ok, identityName_eq_ok_iff,
      identityVersion_eq_ok_iff, finalOffers_eq_ok_iff, Except.pure_eq_ok, Except.ok.injEq,
      Resource.mk.injEq, ResourceId.mk.injEq, List.cons.injEq, and_true, exists_eq_left']
    constructor
    · rintro ⟨n, hn, v, hv, offers, ⟨hfits, rfl⟩, ⟨rfl, rfl⟩, htype, hcaps, hreqs, hcontent⟩
      exact ⟨hn, hv, hfits, htype.symm, hcaps.symm, hreqs.symm, hcontent.symm⟩
    · rintro ⟨hn, hv, hfits, htype, hcaps, hreqs, hcontent⟩
      exact ⟨name, hn, version, hv, _, ⟨hfits, rfl⟩, ⟨rfl, rfl⟩, htype.symm, hcaps.symm, hreqs.symm,
        hcontent.symm⟩
  · simp

end Draft

/-- **What a build gives is a resource assembled from the draft.** -/
theorem Resource.assembledFrom_of_build {d : Draft} {r : Resource} (h : d.build = .ok r) :
    r.AssembledFrom d := by
  obtain ⟨o, hf, hname, hversion, hfits, -, hcaps, hreqs, hcontent⟩ := Draft.build_eq_ok_iff.1 h
  have hfinal : d.finalOffers r.id.version = .ok (d.offers.map (Offer.completed r.id.version) ++
      (d.content.map Draft.contentOffer).toList) := Draft.finalOffers_eq_ok_iff.2 ⟨hfits, rfl⟩
  have hfilter : r.capabilities.filter (·.ns == identityNamespace) =
      [⟨{ o with attributes := o.attributes.insert "version" (.scalar (.version r.id.version)) },
        r.id⟩] := by
    rw [hcaps, Draft.filter_stamp, Draft.filter_finalOffers hfinal,
      show d.offers.filter (·.ns == identityNamespace) = [o] from hf]
    rfl
  refine ⟨⟨o, hf, hname, hversion⟩, ⟨(d.content.map Draft.contentOffer).toList, ?_, ?_⟩, ?_, ?_,
    hreqs, hcontent⟩
  · rw [hcaps]
    simp [List.map_map, Function.comp_def]
  · rcases hc : d.content with _ | c
    · exact .inl ⟨rfl, rfl⟩
    · exact .inr ⟨c, Draft.contentOffer c, rfl, rfl, Draft.contentOffer_describes c⟩
  · rw [hcaps]
    intro cap hcap
    obtain ⟨o', -, rfl⟩ := List.mem_map.1 hcap
    rfl
  · refine ⟨_, ?_, hfilter, Table.get?_insert_self _ _ _⟩
    rw [Resource.identity, ← List.head?_filter, hfilter]
    rfl

namespace Draft

/-- **What building a draft gives, and when.** Every draft, so every sequence
of builder calls, is built exactly when it passes the four checks: one offer
in the identity namespace, a name there that is a non-empty text, a version
there that is absent, a version or a text that reads as one, and content whose
size fits a long. The resource built then has the name and that version as
its identity, the offers in order with the identity offer holding the version
itself, then the offer of the content exactly when there is content, every
capability stamped with the identity, and the identity capability as its one
capability in the identity namespace. A build that fails reports the first
check that fails, with that check's error. -/
theorem build_outcome (d : Draft) :
    ((∃ r, d.build = .ok r) ↔ d.Accepted) ∧
      (∀ r, d.build = .ok r → r.AssembledFrom d) ∧
      (∀ e, d.build = .error e ↔ d.FirstFault e) := by
  refine ⟨⟨fun ⟨r, h⟩ => ?_, fun h => ?_⟩, fun r h => Resource.assembledFrom_of_build h,
    fun e => build_eq_error_iff⟩
  · obtain ⟨o, hf, hname, hversion, hfits, -⟩ := build_eq_ok_iff.1 h
    exact ⟨o, hf, ⟨_, hname⟩, ⟨_, hversion⟩, hfits⟩
  · -- the checks give the name and the version, and those fix the resource
    obtain ⟨o, hf, ⟨n, hname⟩, ⟨v, hversion⟩, hfits⟩ := h
    exact ⟨⟨⟨n, v⟩, identityType o, (d.offers.map (Offer.completed v) ++
        (d.content.map contentOffer).toList).map (fun o' => { o' with resource := ⟨n, v⟩ }),
        d.requirements, d.content⟩,
      build_eq_ok_iff.2 ⟨o, hf, hname, hversion, hfits, rfl, rfl, rfl, rfl⟩⟩

end Draft

end Depot

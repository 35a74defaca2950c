import Depot.Proofs.References
import Depot.Proofs.RangeFilter
import Depot.Proofs.Assembly

/-!
# Finding a resource by name and version

`Depot.Requirement.identity` asks for the identity capability of a name, and of
a version in a range when one is given, through a filter written as text: the
name escaped, in `(identity=name)`, and the range as
`Depot.VersionRange.toFilter` writes it, with `>=`, `<=` and their negations.
On every index reached by additions of built resources and removals, the
providers of that requirement are exactly the identity capabilities of the
resources held with that name and a version in the range
(`Depot.Requirement.providers_identity`). Three facts carry it.

* **The text reads as the filter it spells** (`Depot.Requirement.identityTree`).
  An escaped name is how the printer writes an operand, and the text of a
  version that was read from a text has no character the printer would escape,
  so the text is the canonical text of that filter, which reads back
  (`Depot.Filter.parse_render`).
* **That filter holds on an identity capability exactly when the name is the
  name and the range includes the version**
  (`Depot.VersionRange.accepts_filterTree`, with the other facts about ranges
  as filters in `Depot.Proofs.RangeFilter`).
* **The builder writes the name and the version into the identity
  capability** (`Depot.Resource.Built.identity_attributes`).
-/

namespace Depot

/-! ### The identity requirement -/

namespace Requirement

/-- **The filter of an identity requirement**, as a tree: the name, and the
range over the version if there is one. -/
def identityTree (name : String) (range : Option VersionRange) : Filter :=
  let byName : Filter := .compare identityNamespace .equal name
  match range with
  | none => byName
  | some r => .and [byName, r.filterTree "version"]

theorem identityFilter_eq_render {name : String} {range : Option VersionRange}
    (hq : ∀ r ∈ range, ∀ v ∈ r.bounds, v.PlainQualifier) :
    identityFilter name range = (identityTree name range).render := by
  rcases range with _ | r
  · rw [Filter.render, ← String.toList_inj, String.toList_ofList]
    simp [identityFilter, identityTree, Filter.renderChars, Filter.escape, identityNamespace,
      Op.symbol]
  · have hr := VersionRange.toFilter_eq_render (hq r rfl) "version"
    rw [Filter.render, ← String.toList_inj, String.toList_ofList]
    rw [Filter.render, ← String.toList_inj, String.toList_ofList] at hr
    simp [identityFilter, identityTree, Filter.renderChars, Filter.renderAll, Filter.escape,
      identityNamespace, Op.symbol, hr]

theorem wellFormed_identityTree (name : String) (range : Option VersionRange) :
    (identityTree name range).WellFormed := by
  have hid : Filter.NameOk identityNamespace := by decide
  rcases range with _ | r
  · exact hid
  · exact ⟨List.cons_ne_nil _ _, hid, r.wellFormed_filterTree (by decide), trivial⟩

/-- **The filter of an identity requirement reads as its tree**, for a range
the library makes. -/
theorem compile_identity {name : String} {range : Option VersionRange}
    (hr : ∀ r ∈ range, r.FromText) :
    (identity name range).compile = .ok ⟨identity name range, some (identityTree name range)⟩ := by
  apply compile_of_parse (filter_withFilter _ _)
  rw [identityFilter_eq_render fun r hr' v hv => ((hr r hr').bounds v hv).2]
  exact Filter.parse_render (wellFormed_identityTree name range)

/-- On the attributes of an identity capability, the filter of an identity
requirement holds exactly when the name is the name and the range includes
the version. -/
theorem accepts_identityTree {name n : String} {v : Version} {range : Option VersionRange}
    (hr : ∀ r ∈ range, r.FromText) {attrs : Table Value}
    (hname : attrs.get? "identity" = some (.scalar (.string n)))
    (hversion : attrs.get? "version" = some (.scalar (.version v))) :
    (identityTree name range).accepts attrs = true ↔
      n = name ∧ ∀ r ∈ range, r.includes v = true := by
  have hn : (Filter.compare identityNamespace .equal name).accepts attrs = (n == name) := by
    simp [Filter.accepts, identityNamespace, hname, Value.elements, Scalar.satisfies]
  rcases range with _ | r
  · simp [identityTree, hn]
  · have hrange := VersionRange.accepts_filterTree (hr r rfl).bounds hversion
    simp [identityTree, hn, hrange]

end Requirement

/-! ### Identity capabilities -/

/-- **The identity capability of a built resource holds its name under
`identity` and its version under `version`.** -/
theorem Resource.Built.identity_attributes {q : Resource} (h : q.Built) {cap : Capability}
    (hcap : cap ∈ q.capabilities) (hns : cap.ns = identityNamespace) :
    cap.attributes.get? "identity" = some (.scalar (.string q.id.name)) ∧
      cap.attributes.get? "version" = some (.scalar (.version q.id.version)) := by
  obtain ⟨d, hd⟩ := h
  obtain ⟨o, offers, ho, hname, -, hoffers, hcaps⟩ := Draft.build_eq_ok hd
  rw [hcaps] at hcap
  obtain ⟨o', ho', rfl⟩ := List.mem_map.1 hcap
  have hmem : o' ∈ offers.filter (·.ns == identityNamespace) :=
    List.mem_filter.2 ⟨ho', by simpa using hns⟩
  rw [Draft.filter_finalOffers hoffers, ho, List.map_singleton, List.mem_singleton] at hmem
  subst hmem
  refine ⟨?_, Table.get?_insert_self _ _ _⟩
  rw [Table.get?_insert_ne _ _ (by decide), (Draft.identityName_eq_ok_iff.1 hname).1]

/-! ### Providers of an identity requirement -/

namespace Requirement

/-- **The providers of the requirement of a name and a range are the identity
capabilities of the resources held with that name and a version in the
range.** On every index reached by additions of built resources and removals,
for every name and every range the library makes (read from a text, or the
range of one version or of every version at or above one, read from a text),
the lookup succeeds and gives, each once, the references to the capabilities
held in the identity namespace whose resource has that name and a version the
range includes. -/
theorem providers_identity (ops : List IndexOp) (hb : ∀ r, IndexOp.add r ∈ ops → r.Built)
    (name : String) (range : Option VersionRange) (hr : ∀ r ∈ range, r.FromText) :
    ∃ refs, (Index.run ops).providers (identity name range) = .ok refs ∧
      (∀ x, x ∈ refs ↔ x ∈ (Index.run ops).capRefs ∧ x.capability.ns = identityNamespace ∧
        x.resource.id.name = name ∧ ∀ r ∈ range, r.includes x.resource.id.version = true) ∧
      (refs.map CapRef.key).Nodup := by
  have hbuilt := Query.IndexOp.run_built hb
  obtain ⟨refs, hrefs, hmem, hnodup⟩ :=
    Index.Valid.providers_eq (Index.run_valid ops).1 (compile_identity hr)
  refine ⟨refs, hrefs, fun x => ?_, hnodup⟩
  rw [hmem, Compiled.accepts_filter]
  have hfilter : x ∈ (Index.run ops).capRefs → x.capability.ns = identityNamespace →
      ((identityTree name range).accepts x.capability.attributes = true ↔
        x.resource.id.name = name ∧ ∀ r ∈ range, r.includes x.resource.id.version = true) := by
    intro hx hns
    obtain ⟨q, hq, hxq, hcap⟩ := (Index.mem_capRefs_iff _ x).1 hx
    obtain ⟨hname, hversion⟩ :=
      (hbuilt q hq).identity_attributes (List.mem_of_getElem? hcap) hns
    rw [← hxq] at hname hversion
    exact accepts_identityTree hr hname hversion
  constructor
  · rintro ⟨hx, hns, hacc⟩
    exact ⟨hx, hns, (hfilter hx hns).1 hacc⟩
  · rintro ⟨hx, hns, hid⟩
    exact ⟨hx, hns, (hfilter hx hns).2 hid⟩

theorem providers_identity_sample :
    (∀ r, IndexOp.add r ∈ [IndexOp.add Query.sampleResource] → r.Built) ∧
      (∀ r ∈ some (VersionRange.atLeast Version.zero), r.FromText) ∧
      ∃ refs, (Index.run [.add Query.sampleResource]).providers
          (identity "app" (some (VersionRange.atLeast Version.zero))) = .ok refs ∧
        (∀ x, x ∈ refs ↔ x ∈ (Index.run [.add Query.sampleResource]).capRefs ∧
          x.capability.ns = identityNamespace ∧ x.resource.id.name = "app" ∧
          ∀ r ∈ some (VersionRange.atLeast Version.zero),
            r.includes x.resource.id.version = true) ∧
        (refs.map CapRef.key).Nodup :=
  have hb : ∀ r, IndexOp.add r ∈ [IndexOp.add Query.sampleResource] → r.Built := fun r hr => by
    rw [List.mem_singleton, IndexOp.add.injEq] at hr
    exact hr ▸ Query.sampleResource_built
  have hr : ∀ r ∈ some (VersionRange.atLeast Version.zero), r.FromText := fun r hr => by
    rw [Option.mem_some_iff] at hr
    exact hr ▸ .inr ⟨"0", Version.zero, rfl, .inr rfl⟩
  ⟨hb, hr, providers_identity _ hb "app" _ hr⟩

end Requirement

end Depot

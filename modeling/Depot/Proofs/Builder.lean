import Depot.Resource.Builder

/-!
# What the builder gives

A resource is made by `Depot.Draft.build`, which refuses a draft without
exactly one offer in the identity namespace. The content offer it may add is in
the content namespace, and the version it writes into the identity offer keeps
that offer where it is. So every resource the builder gives has exactly one
capability in the identity namespace (`Depot.Resource.Built.identity_count`),
and every capability names the resource it belongs to.

These are the facts the rest of the library relies on when it takes the
providers of the identity namespace for *every resource*.
-/

namespace Depot

/-- **A resource the builder gives.** -/
def Resource.Built (r : Resource) : Prop := ∃ d : Draft, d.build = .ok r

namespace Draft

/-- What a successful build is made of: the one identity offer, its name and
version read as the identity of the resource, and the offers of the draft,
completed with that version, as the capabilities of the resource. -/
theorem build_eq_ok {d : Draft} {r : Resource} (h : d.build = .ok r) :
    ∃ o offers, d.offers.filter (·.ns == identityNamespace) = [o] ∧
      identityName o = .ok r.id.name ∧ identityVersion r.id.name o = .ok r.id.version ∧
      d.finalOffers r.id.version = .ok offers ∧
      r.capabilities = offers.map fun o => { o with resource := r.id } := by
  unfold Draft.build at h
  simp only [bind, Except.bind] at h
  split at h
  · cases h
  · rename_i o ho
    rcases hname : identityName o with e | name <;> simp only [hname] at h
    · cases h
    rcases hversion : identityVersion name o with e | version <;> simp only [hversion] at h
    · cases h
    rcases hoffers : d.finalOffers version with e | offers <;> simp only [hoffers] at h
    · cases h
    cases h
    exact ⟨o, offers, ho, hname, hversion, hoffers, rfl⟩
  · cases h

/-- Completing the offers keeps their namespaces and adds the content offer,
which is not an identity offer. -/
theorem filter_finalOffers {d : Draft} {version : Version} {offers : List Offer}
    (h : d.finalOffers version = .ok offers) :
    offers.filter (·.ns == identityNamespace) = (d.offers.filter (·.ns == identityNamespace)).map
      fun o => { o with attributes := o.attributes.insert "version" (.scalar (.version version)) } := by
  unfold finalOffers at h
  have hmap : (d.offers.map fun o =>
      if o.ns == identityNamespace then
        { o with attributes := o.attributes.insert "version" (.scalar (.version version)) }
      else o).filter (·.ns == identityNamespace) =
      (d.offers.filter (·.ns == identityNamespace)).map
        fun o => { o with attributes := o.attributes.insert "version" (.scalar (.version version)) } := by
    rw [List.filter_map]
    have hns : ((·.ns == identityNamespace) ∘ fun o : Offer =>
        if o.ns == identityNamespace then
          { o with attributes := o.attributes.insert "version" (.scalar (.version version)) }
        else o) = (·.ns == identityNamespace) := by
      funext o
      by_cases ho : o.ns = identityNamespace <;> simp [ho]
    rw [hns]
    refine List.map_congr_left fun o ho => ?_
    have hid : o.ns = identityNamespace := by simpa using (List.mem_filter.1 ho).2
    simp [hid]
  split at h
  · cases h
    exact hmap
  · split at h
    · cases h
      rw [List.filter_append, hmap]
      simp [contentOffer, contentNamespace, identityNamespace]
    · cases h

/-- Stamping offers with an identity keeps their namespaces. -/
theorem filter_stamp (offers : List Offer) (id : ResourceId) :
    (offers.map fun o => ({ o with resource := id } : Capability)).filter
        (·.ns == identityNamespace) =
      (offers.filter (·.ns == identityNamespace)).map fun o => { o with resource := id } := by
  rw [List.filter_map]
  rfl

end Draft

namespace Resource.Built

variable {r : Resource}

/-- **A built resource has exactly one capability in the identity
namespace.** -/
theorem identity_count (h : r.Built) :
    (r.capabilities.filter (·.ns == identityNamespace)).length = 1 := by
  obtain ⟨d, hd⟩ := h
  obtain ⟨o, offers, ho, -, -, hoffers, hcaps⟩ := Draft.build_eq_ok hd
  have hfilter : (r.capabilities.filter (·.ns == identityNamespace)).length =
      (offers.filter (·.ns == identityNamespace)).length := by
    rw [hcaps, Draft.filter_stamp, List.length_map]
  rw [hfilter, Draft.filter_finalOffers hoffers, List.length_map, ho, List.length_singleton]

theorem exists_identity (h : r.Built) : ∃ cap ∈ r.capabilities, cap.ns = identityNamespace := by
  have hlen := h.identity_count
  obtain ⟨cap, hcap⟩ := List.exists_mem_of_length_pos (by omega :
    0 < (r.capabilities.filter (·.ns == identityNamespace)).length)
  rw [List.mem_filter, beq_iff_eq] at hcap
  exact ⟨cap, hcap⟩

end Resource.Built

end Depot

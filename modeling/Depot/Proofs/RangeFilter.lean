import Depot.Proofs.FilterText
import Depot.Filter.Match
import Depot.Version.Range

/-!
# Ranges of versions as filters

`Depot.VersionRange.toFilter` writes membership of a range as filter text over
a version attribute. The filter language compares with `>=` and `<=` only, so
an exclusive bound is written as the negation of the inclusive comparison the
other way, and each bound goes out as the text of its version, to be read back
as a version when the filter is matched.

For every range the library makes (read from a text, or the range of one
version or of every version at or above one, read from a text) and every
attribute name a reading gives, that text reads as a filter, and on an
attribute map holding a version under the name the filter holds exactly when
the range includes the version (`Depot.VersionRange.parse_toFilter_matches_includes`).
Two facts carry it.

* **The text is the canonical text of a filter tree**
  (`Depot.VersionRange.toFilter_eq_render`): the text of a version read from a
  text is made of digits, dots and qualifier characters, none of which the
  printer escapes, so the text reads back as that tree
  (`Depot.Filter.parse_render`).
* **The tree means membership** (`Depot.VersionRange.accepts_filterTree`): the
  text of each bound reads back as the bound, and a negated `<=` is the strict
  `>`, a negated `>=` the strict `<`.
-/

namespace Depot

/-! ### The texts of versions -/

namespace Version

/-- Every character of a version's text is a digit, a dot or a character of
its qualifier. -/
theorem qualifierChar_or_dot_of_mem_render {v : Version} (hq : v.PlainQualifier) {c : Char}
    (hc : c ∈ v.render.toList) : isQualifierChar c = true ∨ c = '.' := by
  rw [toList_render] at hc
  simp only [List.mem_append, List.mem_cons] at hc
  have hdigit : ∀ n, c ∈ Nat.toDigits 10 n → isQualifierChar c = true := fun n h => by
    have hd := Nat.isDigit_of_mem_toDigits (by decide) (by decide) h
    simp [isQualifierChar, Char.isAlphanum, hd]
  rcases hc with h | rfl | h | rfl | h | h
  · exact .inl (hdigit _ h)
  · exact .inr rfl
  · exact .inl (hdigit _ h)
  · exact .inr rfl
  · exact .inl (hdigit _ h)
  · split_ifs at h
    · cases h
    · rcases List.mem_cons.1 h with rfl | h
      · exact .inr rfl
      · exact .inl (hq c h)

end Version

namespace Filter

/-- Escaping leaves a text of qualifier characters and dots as it is. -/
theorem escapeChars_eq_self {cs : List Char}
    (h : ∀ c ∈ cs, Version.isQualifierChar c = true ∨ c = '.') : escapeChars cs = cs := by
  induction cs with
  | nil => rfl
  | cons c cs ih =>
    have hc : ¬ (c = '\\' ∨ c = '(' ∨ c = ')' ∨ c = '*') := by
      rcases h c List.mem_cons_self with hq | rfl
      · rintro (rfl | rfl | rfl | rfl) <;> exact absurd hq (by decide)
      · decide
    rw [escapeChars, if_neg hc, ih fun x hx => h x (List.mem_cons_of_mem c hx)]

theorem escapeChars_render {v : Version} (hq : v.PlainQualifier) :
    escapeChars v.render.toList = v.render.toList :=
  escapeChars_eq_self fun _ hc => Version.qualifierChar_or_dot_of_mem_render hq hc

end Filter

/-! ### Ranges and their filters -/

namespace VersionRange

/-- The versions that bound a range: the floor, and the ceiling if there is
one. -/
def bounds (r : VersionRange) : List Version := r.floor :: (r.ceiling.map Prod.fst).toList

/-- **A range the library makes**: read from a text, or the range of one
version or of every version at or above one, that version read from a text. -/
def FromText (r : VersionRange) : Prop :=
  (∃ s, parse s = .ok r) ∨ ∃ s v, Version.parse s = .ok v ∧ (r = exact v ∨ r = atLeast v)

/-- **Membership of a range as a filter** over a version attribute: the tree of
what `Depot.VersionRange.toFilter` writes. -/
def filterTree (r : VersionRange) (attr : String) : Filter :=
  let floor : Filter :=
    if r.floorInclusive then .compare attr .greaterEq r.floor.render
    else .not (.compare attr .lessEq r.floor.render)
  match r.ceiling with
  | none => floor
  | some (c, true) => .and [floor, .compare attr .lessEq c.render]
  | some (c, false) => .and [floor, .not (.compare attr .greaterEq c.render)]

theorem ofInterval_bounds {input : String} {fi ci : Bool} {inner : List Char} {r : VersionRange}
    (h : ofInterval input fi ci inner = .ok r) : ∀ v ∈ r.bounds, ∃ s, Version.parse s = .ok v := by
  unfold ofInterval at h
  split at h
  · cases h
  obtain ⟨floor, hfloor, h⟩ := Except.bind_eq_ok.1 h
  split_ifs at h
  · cases h
    simpa [bounds] using ⟨_, hfloor⟩
  · obtain ⟨ceiling, hceiling, h⟩ := Except.bind_eq_ok.1 h
    split_ifs at h
    cases h
    intro v hv
    simp only [bounds, Option.map_some, Option.toList_some, List.mem_cons, List.not_mem_nil,
      or_false] at hv
    rcases hv with rfl | rfl
    · exact ⟨_, hfloor⟩
    · exact ⟨_, hceiling⟩

/-- **The bounds of a range read from a text are versions read from a text.** -/
theorem parse_bounds {s : String} {r : VersionRange} (h : parse s = .ok r) :
    ∀ v ∈ r.bounds, ∃ t, Version.parse t = .ok v := by
  unfold parse at h
  dsimp only at h
  split at h
  · cases h
  split_ifs at h
  · split at h
    · exact ofInterval_bounds h
    · exact ofInterval_bounds h
    · cases h
  · rcases hv : Version.parse (String.ofList (Text.trimList s.toList)) with e | v <;>
      rw [hv] at h <;> cases h
    simpa [bounds, atLeast] using ⟨_, hv⟩

/-- The bounds of a range the library makes are versions that a reading gives:
numbers below `2 ^ 64` and a plain qualifier. -/
theorem FromText.bounds {r : VersionRange} (h : r.FromText) :
    ∀ v ∈ r.bounds, v.InRange ∧ v.PlainQualifier := by
  intro v hv
  rcases h with ⟨s, hs⟩ | ⟨s, w, hw, rfl | rfl⟩
  · obtain ⟨t, ht⟩ := parse_bounds hs v hv
    exact Version.parse_eq_ok ht
  · -- both bounds of the range of one version are that version
    simp only [VersionRange.bounds, exact, Option.map_some, Option.toList_some, List.mem_cons,
      List.not_mem_nil, or_false, or_self] at hv
    exact hv ▸ Version.parse_eq_ok hw
  · simp only [VersionRange.bounds, atLeast, Option.map_none, Option.toList_none, List.mem_cons,
      List.not_mem_nil, or_false] at hv
    exact hv ▸ Version.parse_eq_ok hw

/-- **The text of membership is the text of its filter**, when the bounds
have plain qualifiers. -/
theorem toFilter_eq_render {r : VersionRange} (hq : ∀ v ∈ r.bounds, v.PlainQualifier)
    (attr : String) : r.toFilter attr = (r.filterTree attr).render := by
  have hfloor := Filter.escapeChars_render (hq r.floor List.mem_cons_self)
  rw [Filter.render, ← String.toList_inj, String.toList_ofList]
  obtain ⟨floor, fi, ceiling⟩ := r
  rcases ceiling with _ | ⟨c, ci⟩
  · cases fi <;> simp_all [toFilter, filterTree, Filter.renderChars, Op.symbol]
  · have hc := Filter.escapeChars_render (hq c (by simp [bounds]))
    cases fi <;> cases ci <;>
      simp_all [toFilter, filterTree, Filter.renderChars, Filter.renderAll, Op.symbol]

theorem wellFormed_filterTree (r : VersionRange) {attr : String} (ha : Filter.NameOk attr) :
    (r.filterTree attr).WellFormed := by
  obtain ⟨floor, fi, ceiling⟩ := r
  rcases ceiling with _ | ⟨c, _ | _⟩ <;> cases fi <;> simp [filterTree, ha]

/-- A comparison of a version attribute with the text of a bound compares with
the bound. -/
theorem accepts_compare_render {attrs : Table Value} {attr : String} {v w : Version}
    (hattr : attrs.get? attr = some (.scalar (.version v))) (hw : w.InRange ∧ w.PlainQualifier)
    (op : Op) : (Filter.compare attr op w.render).accepts attrs = op.holds (compare v w) := by
  simp [Filter.accepts, hattr, Value.elements, Scalar.satisfies, Version.parse_render hw.1 hw.2]

/-- **The filter of a range holds on a version attribute exactly when the range
includes the version**: each bound's text reads back as the bound, and an
exclusive bound is written as the negation of the inclusive comparison the
other way. -/
theorem accepts_filterTree {r : VersionRange} (hv : ∀ v ∈ r.bounds, v.InRange ∧ v.PlainQualifier)
    {attrs : Table Value} {attr : String} {v : Version}
    (hattr : attrs.get? attr = some (.scalar (.version v))) :
    (r.filterTree attr).accepts attrs = r.includes v := by
  obtain ⟨floor, fi, ceiling⟩ := r
  have hfloor := accepts_compare_render hattr (hv floor List.mem_cons_self)
  -- a negated `<=` is the strict `>`, and a negated `>=` the strict `<`
  rcases ceiling with _ | ⟨c, ci⟩
  · cases fi <;> simp [filterTree, includes, hfloor, Op.holds, bne]
  · have hc := accepts_compare_render hattr (hv c (by simp [bounds]))
    cases fi <;> cases ci <;>
      simp [filterTree, includes, hfloor, hc, Op.holds, bne]

/-- **The filter a range writes means membership of the range.** For a range
the library makes and an attribute name a reading gives, the text of
membership reads as a filter, and on every attribute map that holds a version
under that name the filter holds exactly when the range includes the version. -/
theorem parse_toFilter_matches_includes {r : VersionRange} (hr : r.FromText) {attr : String}
    (ha : Filter.NameOk attr) :
    ∃ f, Filter.parse (r.toFilter attr) = .ok f ∧
      ∀ (attrs : Table Value) (v : Version), attrs.get? attr = some (.scalar (.version v)) →
        f.accepts attrs = r.includes v := by
  have hbounds := hr.bounds
  refine ⟨r.filterTree attr, ?_, fun attrs v hattr => accepts_filterTree hbounds hattr⟩
  rw [toFilter_eq_render fun w hw => (hbounds w hw).2]
  exact Filter.parse_render (r.wellFormed_filterTree ha)

/-- The half-open range `[1.0,2.0)`, read from its text, written over the
`version` attribute. -/
theorem parse_toFilter_matches_includes_halfOpen :
    (⟨⟨1, 0, 0, ""⟩, true, some (⟨2, 0, 0, ""⟩, false)⟩ : VersionRange).FromText ∧
      Filter.NameOk "version" ∧
      ∃ f, Filter.parse
          ((⟨⟨1, 0, 0, ""⟩, true, some (⟨2, 0, 0, ""⟩, false)⟩ : VersionRange).toFilter "version") =
          .ok f ∧
        ∀ (attrs : Table Value) (v : Version), attrs.get? "version" = some (.scalar (.version v)) →
          f.accepts attrs =
            (⟨⟨1, 0, 0, ""⟩, true, some (⟨2, 0, 0, ""⟩, false)⟩ : VersionRange).includes v :=
  have hr : (⟨⟨1, 0, 0, ""⟩, true, some (⟨2, 0, 0, ""⟩, false)⟩ : VersionRange).FromText :=
    .inl ⟨"[1.0,2.0)", by decide⟩
  have ha : Filter.NameOk "version" := by decide
  ⟨hr, ha, parse_toFilter_matches_includes hr ha⟩

end VersionRange
end Depot

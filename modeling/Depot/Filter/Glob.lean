import Depot.Filter.Match

/-!
# Patterns are globs

A pattern `(a=p₀*p₁*…*pₖ)` is meant to match the texts
`p₀ ++ x₁ ++ p₁ ++ … ++ xₖ ++ pₖ`, each `*` standing for any text
(`Depot.Filter.Glob`). The matcher `Depot.Filter.matchSegments` does not search
over the ways of cutting a text: it takes the first segment at the front, each
inner segment at its leftmost occurrence after the previous one, and asks the
last segment to end the text. This file shows that the greedy choice loses
nothing.

## Why the leftmost occurrence is enough

After the first segment every remaining segment is preceded by a star, so the
set of texts that the rest of a pattern accepts is closed under putting any
text in front (`Depot.Filter.Glob` with a leading filler). Cutting at the
leftmost occurrence of an inner segment leaves the longest possible rest, and
every other cut leaves a suffix of it (`Depot.Filter.afterFirst_of_eq`).

## Main statements

* `Depot.Filter.matchSegments_eq_true_iff`: the matcher accepts a text exactly
  when the text is spelt by the segments with any texts between them.
* `Depot.Filter.substring_accepts_iff_glob`: the same, and hence a pattern
  filter accepts an attribute map exactly when some text element of the
  attribute is spelt that way.
-/

namespace Depot

namespace Filter

/-- **A text spelt by the segments of a pattern with any texts between them**:
`Glob [p₀, p₁, …, pₖ] s` holds when `s = p₀ ++ x₁ ++ p₁ ++ … ++ xₖ ++ pₖ` for
some texts `xᵢ`, each star of the pattern standing for one of them. -/
inductive Glob : List (List Char) → List Char → Prop
  /-- The last segment spells itself. -/
  | last (seg : List Char) : Glob [seg] seg
  /-- A segment, any text, and a text spelt by the segments after it. -/
  | cons (seg x : List Char) {segs : List (List Char)} {t : List Char} :
      Glob segs t → Glob (seg :: segs) (seg ++ x ++ t)

/-- No text is spelt by no segments. -/
theorem not_glob_nil (s : List Char) : ¬ Glob [] s := by
  intro h
  cases h

/-- A single segment spells only itself. -/
theorem glob_singleton_iff (seg s : List Char) : Glob [seg] s ↔ s = seg := by
  constructor
  · intro h
    cases h with
    | last => rfl
    | cons _ _ h => exact absurd h (not_glob_nil _)
  · intro h
    rw [h]
    exact Glob.last seg

/-- Two or more segments spell a text exactly when it is the first segment,
any text, and a text spelt by the others. -/
theorem glob_cons_cons_iff (seg seg' : List Char) (segs : List (List Char)) (s : List Char) :
    Glob (seg :: seg' :: segs) s ↔ ∃ x t, s = seg ++ x ++ t ∧ Glob (seg' :: segs) t := by
  constructor
  · intro h
    cases h with
    | cons _ x h => exact ⟨x, _, rfl, h⟩
  · rintro ⟨x, t, rfl, h⟩
    exact Glob.cons seg x h

/-! ### The leftmost occurrence -/

/-- Whatever follows an occurrence found by `afterFirst` is what the text has
after some prefix and the searched segment. -/
theorem afterFirst_eq_some {p r : List Char} :
    ∀ {s : List Char}, afterFirst p s = some r → ∃ y, s = y ++ p ++ r
  | [], h => by
    by_cases hp : p = []
    · subst hp
      simp only [afterFirst, if_true, Option.some.injEq] at h
      subst h
      exact ⟨[], rfl⟩
    · simp [afterFirst, hp] at h
  | c :: cs, h => by
    by_cases hp : p.isPrefixOf (c :: cs) = true
    · simp only [afterFirst, hp, if_true, Option.some.injEq] at h
      subst h
      refine ⟨[], ?_⟩
      have := List.prefix_iff_eq_append.mp (List.isPrefixOf_iff_prefix.mp hp)
      simpa using this.symm
    · simp only [afterFirst, hp, Bool.false_eq_true, if_false] at h
      obtain ⟨y, rfl⟩ := afterFirst_eq_some h
      exact ⟨c :: y, rfl⟩

/-- A segment found at the front of a text leaves the rest of the text. -/
theorem afterFirst_append_self (p t : List Char) : afterFirst p (p ++ t) = some t := by
  cases h : p ++ t with
  | nil =>
    obtain ⟨rfl, rfl⟩ := List.append_eq_nil_iff.mp h
    simp [afterFirst]
  | cons c cs =>
    have hp : p.isPrefixOf (c :: cs) = true := by
      rw [← h]
      exact List.isPrefixOf_iff_prefix.mpr (List.prefix_append p t)
    rw [afterFirst, if_pos hp, ← h, List.drop_left]

/-- **The leftmost occurrence leaves the longest rest**: when a text is a
prefix, a segment and a rest, `afterFirst` finds the segment and leaves a text
that ends with that rest. -/
theorem afterFirst_of_eq (p : List Char) :
    ∀ (y t : List Char), ∃ z, afterFirst p (y ++ p ++ t) = some (z ++ t)
  | [], t => ⟨[], by simpa using afterFirst_append_self p t⟩
  | c :: y, t => by
    by_cases hp : p.isPrefixOf (c :: (y ++ p ++ t)) = true
    · have hs : t <:+ (c :: (y ++ p ++ t)).drop p.length := by
        refine List.suffix_of_suffix_length_le ?_ (List.drop_suffix _ _) ?_
        · exact ⟨c :: (y ++ p), by simp⟩
        · simp only [List.length_drop, List.length_cons, List.length_append]
          omega
      obtain ⟨z, hz⟩ := hs
      refine ⟨z, ?_⟩
      simp only [List.cons_append] at hp ⊢
      simp only [afterFirst, hp, if_true, hz]
    · obtain ⟨z, hz⟩ := afterFirst_of_eq p y t
      refine ⟨z, ?_⟩
      simp only [List.cons_append] at hp ⊢
      simp only [afterFirst, hp, Bool.false_eq_true, if_false]
      simpa using hz

/-! ### The matcher against the glob -/

/-- **The segments after the first match a rest of a text** exactly when
some text followed by a text they spell makes that rest: each inner segment
taken at its leftmost occurrence, the last at the end. -/
theorem matchTail_eq_true_iff :
    ∀ (segs : List (List Char)), segs ≠ [] → ∀ (r : List Char),
      matchTail r segs = true ↔ ∃ x u, r = x ++ u ∧ Glob segs u
  | [], hs, _ => absurd rfl hs
  | [seg], _, r => by
    simp only [matchTail, glob_singleton_iff, List.isSuffixOf_iff_suffix]
    constructor
    · rintro ⟨x, rfl⟩
      exact ⟨x, seg, rfl, rfl⟩
    · rintro ⟨x, u, rfl, rfl⟩
      exact ⟨x, rfl⟩
  | seg :: seg' :: segs, _, r => by
    have ih := matchTail_eq_true_iff (seg' :: segs) (List.cons_ne_nil _ _)
    simp only [matchTail]
    constructor
    · intro h
      cases hr : afterFirst seg r with
      | none => simp [hr] at h
      | some r' =>
        simp only [hr] at h
        obtain ⟨x, u, rfl, hu⟩ := (ih r').mp h
        obtain ⟨y, rfl⟩ := afterFirst_eq_some hr
        exact ⟨y, seg ++ x ++ u, by simp, Glob.cons seg x hu⟩
    · rintro ⟨x, u, rfl, hu⟩
      obtain ⟨x', t, rfl, ht⟩ := (glob_cons_cons_iff seg seg' segs u).mp hu
      obtain ⟨z, hz⟩ := afterFirst_of_eq seg x (x' ++ t)
      have hr : afterFirst seg (x ++ (seg ++ x' ++ t)) = some (z ++ (x' ++ t)) := by
        simpa using hz
      simp only [hr]
      exact (ih _).mpr ⟨z ++ x', t, by simp, ht⟩

/-- **The matcher accepts a text exactly when the segments spell it** with
any texts between them. -/
theorem matchSegments_eq_true_iff (s : List Char) :
    ∀ (segs : List (List Char)), matchSegments s segs = true ↔ Glob segs s
  | [] => by simp [matchSegments, not_glob_nil]
  | [seg] => by
    simp only [matchSegments, matchTail, glob_singleton_iff]
    constructor
    · intro h
      by_cases hp : seg.isPrefixOf s = true
      · simp only [hp, if_true, decide_eq_true_eq] at h
        have := List.prefix_iff_eq_append.mp (List.isPrefixOf_iff_prefix.mp hp)
        rw [h, List.append_nil] at this
        exact this.symm
      · simp [hp] at h
    · intro h
      rw [h]
      have hp : seg.isPrefixOf seg = true :=
        List.isPrefixOf_iff_prefix.mpr (List.prefix_refl seg)
      simp [hp]
  | seg :: seg' :: segs => by
    rw [glob_cons_cons_iff]
    simp only [matchSegments]
    constructor
    · intro h
      by_cases hp : seg.isPrefixOf s = true
      · simp only [hp, if_true] at h
        obtain ⟨x, u, hxu, hu⟩ :=
          (matchTail_eq_true_iff (seg' :: segs) (List.cons_ne_nil _ _) _).mp h
        have := List.prefix_iff_eq_append.mp (List.isPrefixOf_iff_prefix.mp hp)
        refine ⟨x, u, ?_, hu⟩
        rw [← this, hxu, List.append_assoc]
      · simp [hp] at h
    · rintro ⟨x, t, rfl, ht⟩
      have hp : seg.isPrefixOf (seg ++ (x ++ t)) = true :=
        List.isPrefixOf_iff_prefix.mpr (List.prefix_append seg (x ++ t))
      rw [List.append_assoc, if_pos hp, List.drop_left]
      exact (matchTail_eq_true_iff (seg' :: segs) (List.cons_ne_nil _ _) _).mpr ⟨x, t, rfl, ht⟩

/-- A pattern filter accepts an attribute map exactly when the attribute is
present and one of its text elements matches the segments. -/
theorem accepts_substring_iff (attrs : Table Value) (a : String) (segs : List String) :
    accepts attrs (.substring a segs) = true ↔
      ∃ v, attrs.get? a = some v ∧
        ∃ t, Scalar.string t ∈ v.elements ∧ matchSegments t.toList (segs.map String.toList) = true := by
  simp only [accepts]
  cases attrs.get? a with
  | none => simp
  | some v =>
    simp only [List.any_eq_true, Option.some.injEq, exists_eq_left']
    constructor
    · rintro ⟨x, hx, h⟩
      cases x with
      | string t => exact ⟨t, hx, h⟩
      | version _ => simp at h
      | long _ => simp at h
      | double _ => simp at h
    · rintro ⟨t, ht, h⟩
      exact ⟨.string t, ht, h⟩

/-- **Patterns are globs**: the matcher accepts a text exactly when the
segments spell it with any texts between them, and so a pattern filter accepts
an attribute map exactly when some text element of the attribute is spelt that
way. -/
theorem substring_accepts_iff_glob :
    (∀ (s : List Char) (segs : List (List Char)), matchSegments s segs = true ↔ Glob segs s) ∧
    ∀ (attrs : Table Value) (a : String) (segs : List String),
      accepts attrs (.substring a segs) = true ↔
        ∃ v, attrs.get? a = some v ∧
          ∃ t, Scalar.string t ∈ v.elements ∧ Glob (segs.map String.toList) t.toList :=
  ⟨matchSegments_eq_true_iff, fun attrs a segs => by
    rw [accepts_substring_iff]
    simp only [matchSegments_eq_true_iff]⟩

end Filter

end Depot

import Depot.Proofs.RangeFilter

/-!
# The texts of versions and of ranges

A version is written as one, two or three numbers separated by dots, and
optionally, after the third number, a dot and a qualifier
(`Depot.Version.Spells`). Each number is a run of ASCII digits with a value that
fits in 64 bits, and the qualifier is a run of ASCII letters, digits, `_` and
`-`. Reading a text accepts exactly these forms, after trimming blanks, and
gives the numbers they spell (`Depot.Version.parse_eq_ok_iff_spells`).

The reader cuts the text at its first three dots and hands the parts to one
reader per slot. So the proof follows the text from dot to dot: at each of the
first three cuts the rest either holds no dot, and the text ends there, or
splits at its first dot (`Depot.Version.splitDots_succ_cases`).

A range is written as a bare floor when the floor is inclusive and there is no
ceiling, as `(floor,)` when the floor is exclusive and there is no ceiling, and
as an interval otherwise. Each range the library makes reads back from its
text (`Depot.VersionRange.parse_render_of_fromText`). Two facts carry that
proof. The text of a bound starts with a digit and holds no comma, so the
reader tells a bare floor from an interval and finds the bounds where the
printer put them. A ceiling the library makes is never below its floor
(`Depot.VersionRange.FromText.ordered`), so the reader's order check passes.
-/

namespace Depot

namespace Version

/-! ### The grammar of a version text -/

/-- The value of a run of decimal digits. -/
def numeralValue (cs : List Char) : Nat := Nat.ofDigitChars 10 cs 0

/-- **A number of a version text**: a non-empty run of ASCII digits whose value
is at most `2 ^ 64 - 1`. -/
def IsNumeral (cs : List Char) : Prop :=
  cs ≠ [] ∧ (∀ c ∈ cs, c.isDigit = true) ∧ numeralValue cs ≤ 2 ^ 64 - 1

/-- **A qualifier of a version text**: a non-empty run of ASCII letters and
digits, `_` and `-`. -/
def IsQualifier (q : List Char) : Prop :=
  q ≠ [] ∧ ∀ c ∈ q, c.isAlphanum = true ∨ c = '_' ∨ c = '-'

instance (cs : List Char) : Decidable (IsNumeral cs) :=
  decidable_of_iff (!cs.isEmpty && cs.all Char.isDigit && decide (numeralValue cs ≤ 2 ^ 64 - 1))
    (by simp [IsNumeral, and_assoc])

instance (q : List Char) : Decidable (IsQualifier q) :=
  decidable_of_iff (!q.isEmpty && q.all fun c => c.isAlphanum || c == '_' || c == '-')
    (by simp [IsQualifier, or_assoc])

/-- **The version a text spells**: one, two or three numbers separated by dots,
and after the third a qualifier. Missing numbers are zero and a missing
qualifier is empty. -/
inductive Spells : List Char → Version → Prop
  | major {a : List Char} : IsNumeral a → Spells a ⟨numeralValue a, 0, 0, ""⟩
  | minor {a b : List Char} : IsNumeral a → IsNumeral b →
      Spells (a ++ '.' :: b) ⟨numeralValue a, numeralValue b, 0, ""⟩
  | micro {a b c : List Char} : IsNumeral a → IsNumeral b → IsNumeral c →
      Spells (a ++ '.' :: (b ++ '.' :: c)) ⟨numeralValue a, numeralValue b, numeralValue c, ""⟩
  | qualified {a b c q : List Char} : IsNumeral a → IsNumeral b → IsNumeral c → IsQualifier q →
      Spells (a ++ '.' :: (b ++ '.' :: (c ++ '.' :: q)))
        ⟨numeralValue a, numeralValue b, numeralValue c, String.ofList q⟩

example : Spells "2.0.0.beta-1".toList ⟨2, 0, 0, "beta-1"⟩ :=
  .qualified (a := ['2']) (b := ['0']) (c := ['0']) (by decide) (by decide) (by decide) (by decide)

theorem IsNumeral.dot_not_mem {a : List Char} (h : IsNumeral a) : '.' ∉ a := fun hdot =>
  absurd (h.2.1 '.' hdot) (by decide)

theorem Spells.ne_nil {cs : List Char} {v : Version} (h : Spells cs v) : cs ≠ [] := by
  cases h with
  | major ha => exact ha.1
  | minor ha => simp
  | micro ha => simp
  | qualified ha => simp

/-! ### The reader of each part -/

theorem readNumber_eq_ok_iff {input : String} {part : List Char} {n : Nat} :
    readNumber input part = .ok n ↔ IsNumeral part ∧ n = numeralValue part := by
  have h64 : Nat.pow 2 64 = 2 ^ 64 - 1 + 1 := by norm_num
  -- the reader bounds the value strictly by `2 ^ 64`, the grammar by `2 ^ 64 - 1`
  have hcond : (part ≠ [] ∧ part.all Char.isDigit = true ∧ digitsValue part < Nat.pow 2 64) ↔
      IsNumeral part := by
    rw [List.all_eq_true, digitsValue_eq, ← numeralValue, IsNumeral]
    exact and_congr_right fun _ => and_congr_right fun _ => by omega
  unfold readNumber
  split_ifs with h
  · rw [Except.ok.injEq, digitsValue_eq, ← numeralValue]
    exact ⟨fun hn => ⟨hcond.1 h, hn.symm⟩, fun hn => hn.2.symm⟩
  · simp only [false_iff, not_and]
    exact fun hp => absurd (hcond.2 hp) h

theorem isQualifierChar_iff (c : Char) :
    isQualifierChar c = true ↔ c.isAlphanum = true ∨ c = '_' ∨ c = '-' := by
  simp [isQualifierChar, or_assoc]

theorem readQualifier_eq_ok_iff {input : String} {q : List Char} {w : String} :
    readQualifier input q = .ok w ↔ IsQualifier q ∧ w = String.ofList q := by
  have hplain : q.all isQualifierChar = true ↔ ∀ c ∈ q, c.isAlphanum = true ∨ c = '_' ∨ c = '-' :=
    by simp only [List.all_eq_true, isQualifierChar_iff]
  unfold readQualifier
  split_ifs with h0 hq hdot
  · simp [IsQualifier, h0]
  · simp only [Except.ok.injEq, IsQualifier]
    exact ⟨fun hw => ⟨⟨h0, hplain.1 hq⟩, hw.symm⟩, fun hw => hw.2.symm⟩
  all_goals
    simp only [false_iff]
    rintro ⟨⟨-, hall⟩, -⟩
    exact hq (hplain.2 hall)

/-- At each cut, the rest of the text either holds no dot and is the last part,
or splits at its first dot. -/
theorem splitDots_succ_cases (n : Nat) (cs : List Char) :
    ('.' ∉ cs ∧ splitDots (n + 1) cs = [cs]) ∨
      ∃ a r, '.' ∉ a ∧ cs = a ++ '.' :: r ∧ splitDots (n + 1) cs = a :: splitDots n r := by
  induction cs with
  | nil => exact .inl ⟨List.not_mem_nil, rfl⟩
  | cons c cs ih =>
    by_cases hc : c = '.'
    · subst hc
      exact .inr ⟨[], cs, List.not_mem_nil, rfl, splitDots_append List.not_mem_nil n cs⟩
    · rcases ih with ⟨hcs, -⟩ | ⟨a, r, ha, rfl, -⟩
      · have hnot : '.' ∉ c :: cs := by simp [Ne.symm hc, hcs]
        exact .inl ⟨hnot, splitDots_of_not_mem hnot _⟩
      · have hnot : '.' ∉ c :: a := by simp [Ne.symm hc, ha]
        exact .inr ⟨c :: a, r, hnot, rfl, splitDots_append hnot n r⟩

/-! ### Reading a version text

Each slot of the reader is a bind: it succeeds exactly when its part is in the
grammar, and passes on the value the part spells. -/

theorem readNumber_bind_eq_ok {input : String} {a : List Char}
    {f : Nat → Except VersionError Version} {v : Version} :
    readNumber input a >>= f = .ok v ↔ IsNumeral a ∧ f (numeralValue a) = .ok v := by
  rw [Except.bind_eq_ok]
  constructor
  · rintro ⟨n, hn, h⟩
    obtain ⟨ha, rfl⟩ := readNumber_eq_ok_iff.1 hn
    exact ⟨ha, h⟩
  · rintro ⟨ha, h⟩
    exact ⟨_, readNumber_eq_ok_iff.2 ⟨ha, rfl⟩, h⟩

theorem readQualifier_bind_eq_ok {input : String} {q : List Char}
    {f : String → Except VersionError Version} {v : Version} :
    readQualifier input q >>= f = .ok v ↔ IsQualifier q ∧ f (String.ofList q) = .ok v := by
  rw [Except.bind_eq_ok]
  constructor
  · rintro ⟨w, hw, h⟩
    obtain ⟨hq, rfl⟩ := readQualifier_eq_ok_iff.1 hw
    exact ⟨hq, h⟩
  · rintro ⟨hq, h⟩
    exact ⟨_, readQualifier_eq_ok_iff.2 ⟨hq, rfl⟩, h⟩

/-- **What a successful read of the parts is made of**: the text spells the
version read. -/
theorem spells_of_ofParts {input : String} {cs : List Char} {v : Version}
    (h : ofParts input (splitDots 3 cs) = .ok v) : Spells cs v := by
  rcases splitDots_succ_cases 2 cs with ⟨-, hs⟩ | ⟨a, r, -, rfl, hs⟩
  · -- one number
    simp only [hs, ofParts, readNumber_bind_eq_ok, pure, Except.pure, Except.ok.injEq] at h
    obtain ⟨ha, rfl⟩ := h
    exact .major ha
  rcases splitDots_succ_cases 1 r with ⟨-, hs'⟩ | ⟨b, r, -, rfl, hs'⟩
  · -- two numbers
    simp only [hs, hs', ofParts, readNumber_bind_eq_ok, pure, Except.pure, Except.ok.injEq] at h
    obtain ⟨ha, hb, rfl⟩ := h
    exact .minor ha hb
  rcases splitDots_succ_cases 0 r with ⟨-, hs''⟩ | ⟨c, q, -, rfl, hs''⟩
  · -- three numbers
    simp only [hs, hs', hs'', ofParts, readNumber_bind_eq_ok, pure, Except.pure,
      Except.ok.injEq] at h
    obtain ⟨ha, hb, hc, rfl⟩ := h
    exact .micro ha hb hc
  · -- three numbers and a qualifier, which keeps any further dot
    rw [hs, hs', hs''] at h
    simp only [splitDots, ofParts, readNumber_bind_eq_ok, readQualifier_bind_eq_ok, pure,
      Except.pure, Except.ok.injEq] at h
    obtain ⟨ha, hb, hc, hq, rfl⟩ := h
    exact .qualified ha hb hc hq

/-- **A text that spells a version reads as it**: its parts are cut where the
grammar puts its dots, since no number holds one. -/
theorem ofParts_of_spells {cs : List Char} {v : Version} (h : Spells cs v) (input : String) :
    ofParts input (splitDots 3 cs) = .ok v := by
  cases h with
  | major ha =>
    rw [splitDots_of_not_mem ha.dot_not_mem]
    simp only [ofParts, readNumber_bind_eq_ok, pure, Except.pure, and_true]
    exact ha
  | minor ha hb =>
    rw [splitDots_append ha.dot_not_mem, splitDots_of_not_mem hb.dot_not_mem]
    simp only [ofParts, readNumber_bind_eq_ok, pure, Except.pure, and_true]
    exact ⟨ha, hb⟩
  | micro ha hb hc =>
    rw [splitDots_append ha.dot_not_mem, splitDots_append hb.dot_not_mem,
      splitDots_of_not_mem hc.dot_not_mem]
    simp only [ofParts, readNumber_bind_eq_ok, pure, Except.pure, and_true]
    exact ⟨ha, hb, hc⟩
  | qualified ha hb hc hq =>
    rw [splitDots_append ha.dot_not_mem, splitDots_append hb.dot_not_mem,
      splitDots_append hc.dot_not_mem, splitDots]
    simp only [ofParts, readNumber_bind_eq_ok, readQualifier_bind_eq_ok, pure, Except.pure, and_true]
    exact ⟨ha, hb, hc, hq⟩

/-- **Reading a version accepts exactly the version texts.** A text reads as a
version exactly when, with the blanks at its ends trimmed, it is one, two or
three numbers separated by dots, optionally followed by a dot and a qualifier.
The numbers read are those the text spells, the missing ones zero, and the
qualifier is the one written or empty. The canonical text of every version read
reads back as that version. -/
theorem parse_eq_ok_iff_spells (s : String) (v : Version) :
    (parse s = .ok v ↔ Spells (Text.trimList s.toList) v) ∧
      (parse s = .ok v → parse v.render = .ok v) := by
  refine ⟨⟨fun h => ?_, fun h => ?_⟩, fun h => ?_⟩
  · unfold parse at h
    dsimp only at h
    split at h
    · cases h
    · exact spells_of_ofParts h
  · unfold parse
    dsimp only
    rw [if_neg h.ne_nil]
    exact ofParts_of_spells h _
  · obtain ⟨hr, hq⟩ := parse_eq_ok h
    exact parse_render hr hq

/-! ### What the text of a version holds -/

theorem compare_self (v : Version) : compare v v = .eq := by
  show Version.compare v v = .eq
  simp [Version.compare]

/-- The text of a version starts with a digit. -/
theorem render_head (v : Version) : ∃ d ds, v.render.toList = d :: ds ∧ d.isDigit = true := by
  obtain ⟨d, ds, hds⟩ := List.exists_cons_of_ne_nil (Nat.toDigits_ne_nil (b := 10) (n := v.major))
  refine ⟨d, _, by rw [toList_render, hds, List.cons_append], ?_⟩
  exact Nat.isDigit_of_mem_toDigits (by decide) (by decide) (hds ▸ List.mem_cons_self)

/-- The text of a version with a plain qualifier holds no comma. -/
theorem comma_not_mem_render {v : Version} (hq : v.PlainQualifier) : ',' ∉ v.render.toList :=
  fun h => by
    rcases qualifierChar_or_dot_of_mem_render hq h with h | h
    · exact absurd h (by decide)
    · exact absurd h (by decide)

end Version

/-! ### Reading the text of a range -/

namespace VersionRange

open Version

/-- **A text between two brackets is read as an interval**, whatever it holds
between them. -/
theorem parse_bracketed {o cl : Char} (ho : o = '[' ∨ o = '(') (hcl : cl = ']' ∨ cl = ')')
    (inner : List Char) :
    parse (String.ofList (o :: (inner ++ [cl]))) =
      ofInterval (String.ofList (o :: (inner ++ [cl]))) (decide (o = '[')) (decide (cl = ']'))
        inner := by
  have hblank : Text.isBlank o = false ∧ Text.isBlank cl = false := by
    rcases ho with rfl | rfl <;> rcases hcl with rfl | rfl <;> decide
  have hlast : (o :: (inner ++ [cl])).getLast? = some cl := by
    rw [← List.cons_append, List.getLast?_append]
    rfl
  have htrim : Text.trimList (o :: (inner ++ [cl])) = o :: (inner ++ [cl]) :=
    Text.trimList_eq_self (by simp [hblank.1]) (by simp [hlast, hblank.2])
  unfold parse
  simp only [String.toList_ofList, htrim]
  rcases ho with rfl | rfl <;> rcases hcl with rfl | rfl <;> simp

/-- Inside an interval the reader cuts the text of the floor at the comma after
it: the floor's text holds none. -/
theorem cut_at_comma {f : Version} (hq : f.PlainQualifier) (high : List Char) :
    (f.render.toList ++ ',' :: high).dropWhile (· ≠ ',') = ',' :: high ∧
      (f.render.toList ++ ',' :: high).takeWhile (· ≠ ',') = f.render.toList := by
  have hp : ∀ c ∈ f.render.toList, decide (c ≠ ',') = true := fun c hc =>
    decide_eq_true fun h => comma_not_mem_render hq (h ▸ hc)
  rw [List.dropWhile_append_of_pos hp, List.takeWhile_append_of_pos hp]
  simp

/-- An interval with nothing after the comma has no ceiling. -/
theorem ofInterval_open (input : String) (fi ci : Bool) {f : Version}
    (hf : f.InRange ∧ f.PlainQualifier) :
    ofInterval input fi ci (f.render.toList ++ [',']) = .ok ⟨f, fi, none⟩ := by
  obtain ⟨hdrop, htake⟩ := cut_at_comma hf.2 []
  unfold ofInterval
  rw [hdrop]
  simp only [htake, String.ofList_toList, parse_render hf.1 hf.2, bind, Except.bind]
  rfl

/-- An interval of two bounds in order has them as its floor and ceiling. -/
theorem ofInterval_closed (input : String) (fi ci : Bool) {f c : Version}
    (hf : f.InRange ∧ f.PlainQualifier) (hc : c.InRange ∧ c.PlainQualifier)
    (hle : compare c f ≠ .lt) :
    ofInterval input fi ci (f.render.toList ++ ',' :: c.render.toList) =
      .ok ⟨f, fi, some (c, ci)⟩ := by
  obtain ⟨hdrop, htake⟩ := cut_at_comma hf.2 c.render.toList
  obtain ⟨d, ds, hds, -⟩ := render_head c
  have hhigh : Text.trimList c.render.toList ≠ [] := by
    rw [(printable_render hc.2).trimList_eq, hds]
    exact List.cons_ne_nil d ds
  unfold ofInterval
  rw [hdrop]
  simp only [htake, String.ofList_toList, parse_render hf.1 hf.2, parse_render hc.1 hc.2,
    if_neg hhigh, bind, Except.bind, beq_iff_eq, hle, if_false]
  rfl

/-- A bare version reads as the range of every version at or above it. -/
theorem parse_bare {v : Version} (hv : v.InRange ∧ v.PlainQualifier) :
    parse v.render = .ok (atLeast v) := by
  obtain ⟨d, ds, hds, hd⟩ := render_head v
  have hnot : ¬ (d = '[' ∨ d = '(') := by
    rintro (rfl | rfl) <;> exact absurd hd (by decide)
  have htrim : Text.trimList v.render.toList = d :: ds := by
    rw [(printable_render hv.2).trimList_eq, hds]
  unfold parse
  simp only [htrim, if_neg hnot]
  rw [← hds, String.ofList_toList, Version.parse_render hv.1 hv.2]
  rfl

/-! ### The ranges the library makes -/

theorem ofInterval_ordered {input : String} {fi ci : Bool} {inner : List Char} {r : VersionRange}
    (h : ofInterval input fi ci inner = .ok r) :
    ∀ c ci', r.ceiling = some (c, ci') → compare c r.floor ≠ .lt := by
  unfold ofInterval at h
  split at h
  · cases h
  obtain ⟨floor, -, h⟩ := Except.bind_eq_ok.1 h
  split_ifs at h
  · cases h
    intro c ci' hc
    cases hc
  · obtain ⟨ceiling, -, h⟩ := Except.bind_eq_ok.1 h
    split_ifs at h with hlt
    cases h
    intro c ci' hc
    cases hc
    simpa using hlt

/-- **A ceiling is never below its floor** in a range the library makes: the
reader refuses such an interval, and the range of one version has that version
at both ends. -/
theorem FromText.ordered {r : VersionRange} (h : r.FromText) :
    ∀ c ci, r.ceiling = some (c, ci) → compare c r.floor ≠ .lt := by
  rcases h with ⟨s, hs⟩ | ⟨s, w, -, rfl | rfl⟩
  · unfold parse at hs
    dsimp only at hs
    split at hs
    · cases hs
    split_ifs at hs
    · split at hs
      · exact ofInterval_ordered hs
      · exact ofInterval_ordered hs
      · cases hs
    · -- a bare version has no ceiling
      rcases hv : Version.parse (String.ofList (Text.trimList s.toList)) with e | v <;>
        rw [hv] at hs <;> cases hs
      intro c ci hc
      cases hc
  · intro c ci hc
    cases hc
    simp [exact, compare_self]
  · intro c ci hc
    cases hc

/-- **Every range the library makes reads back from its text**: a range read
from a text, and the range of one version or of every version at or above one,
that version read from a text. -/
theorem parse_render_of_fromText {r : VersionRange} (hr : r.FromText) : parse r.render = .ok r := by
  obtain ⟨floor, fi, ceiling⟩ := r
  have hf := hr.bounds floor List.mem_cons_self
  rcases ceiling with _ | ⟨c, ci⟩
  · cases fi
    · -- `(floor,)`: an interval with nothing after the comma
      have htext : render ⟨floor, false, none⟩ =
          String.ofList ('(' :: (floor.render.toList ++ [','] ++ [')'])) := by
        rw [← String.toList_inj]
        simp [render]
      rw [htext, parse_bracketed (.inr rfl) (.inr rfl), ofInterval_open _ _ _ hf]
      rfl
    · -- a bare floor
      exact parse_bare hf
  · have hc := hr.bounds c (by simp [bounds])
    have htext : render ⟨floor, fi, some (c, ci)⟩ =
        String.ofList ((if fi then '[' else '(') ::
          (floor.render.toList ++ ',' :: c.render.toList ++ [if ci then ']' else ')'])) := by
      rw [← String.toList_inj]
      cases fi <;> cases ci <;> simp [render]
    rw [htext, parse_bracketed (by cases fi <;> simp) (by cases ci <;> simp),
      ofInterval_closed _ _ _ hf hc (hr.ordered c ci rfl)]
    cases fi <;> cases ci <;> rfl

/-- The open range above `1.2.3.rc-1`, read from its text. -/
theorem parse_render_of_fromText_openAbove :
    (⟨⟨1, 2, 3, "rc-1"⟩, false, none⟩ : VersionRange).FromText ∧
      parse (⟨⟨1, 2, 3, "rc-1"⟩, false, none⟩ : VersionRange).render =
        .ok ⟨⟨1, 2, 3, "rc-1"⟩, false, none⟩ :=
  have hr : (⟨⟨1, 2, 3, "rc-1"⟩, false, none⟩ : VersionRange).FromText :=
    .inl ⟨" (1.2.3.rc-1, ) ", by decide⟩
  ⟨hr, parse_render_of_fromText hr⟩

end VersionRange

end Depot

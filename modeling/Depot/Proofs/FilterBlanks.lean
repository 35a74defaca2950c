import Depot.Proofs.FilterText

/-!
# Blanks in the text of a filter

The reader of filters skips blanks in five places: around the whole text, after
every `(`, after `&`, `|` and `!`, before every node of a list and before every
`)` that closes a node. A leaf reads its name up to the operator and trims it,
so blanks before the operator are dropped as well. Blanks inside an operand are
read as part of it.

A **padded text** of a filter (`Depot.Filter.Padded`) is its canonical text with
a run of blanks, possibly empty, at each of these places: after every `(`, after
`&`, `|` and `!`, before every child of a conjunction or disjunction, before the
`)` that closes a conjunction, disjunction or negation, and before the operator
of a leaf. A padded text with blanks around it reads as the filter, for every
filter a reading can give (`Depot.Filter.parse_padded`).

The proof reuses the two notions of a stable read from
`Depot.Proofs.FilterReading`. A padded text is a node whose read depends only
on what it consumed (`Depot.Filter.FilterStable`), and padded children followed
by blanks are a list whose read depends only on what it consumed
(`Depot.Filter.ListStable`). Each kind of node gets one lemma that builds its
stable read from those of its parts, and `Depot.Filter.Padded.stable`
assembles them by recursion on the padding.

Blanks inside an operand are another matter: the text with blanks inserted
into the operand of a leaf is the padded text of another leaf, whose operand
holds the blanks (`Depot.Filter.leafParts`, `Depot.Filter.pattern_insert`).
-/

namespace Depot.Filter

open Text

/-! ### Padded texts -/

/-- A run of blank characters. -/
def Blanks (w : List Char) : Prop := ∀ c ∈ w, isBlank c = true

mutual

/-- **A padded text of a filter**: its canonical text with a run of blanks after
every `(`, after `&`, `|` and `!`, before every child of a conjunction or
disjunction, before the `)` that closes a conjunction, disjunction or negation,
and before the operator of a leaf. -/
inductive Padded : Filter → List Char → Prop
  | and {fs : List Filter} {w₁ t w₂ : List Char} : Blanks w₁ → PaddedAll fs t → Blanks w₂ →
      Padded (.and fs) ('(' :: (w₁ ++ '&' :: (t ++ w₂ ++ [')'])))
  | or {fs : List Filter} {w₁ t w₂ : List Char} : Blanks w₁ → PaddedAll fs t → Blanks w₂ →
      Padded (.or fs) ('(' :: (w₁ ++ '|' :: (t ++ w₂ ++ [')'])))
  | not {f : Filter} {w₁ w₂ t w₃ : List Char} : Blanks w₁ → Blanks w₂ → Padded f t → Blanks w₃ →
      Padded (.not f) ('(' :: (w₁ ++ '!' :: (w₂ ++ t ++ w₃ ++ [')'])))
  | compare {a : String} {op : Op} {v : String} {w₁ w₂ : List Char} : Blanks w₁ → Blanks w₂ →
      Padded (.compare a op v)
        ('(' :: (w₁ ++ a.toList ++ w₂ ++ op.symbol.toList ++ escapeChars v.toList ++ [')']))
  | substring {a : String} {ss : List String} {w₁ w₂ : List Char} : Blanks w₁ → Blanks w₂ →
      Padded (.substring a ss) ('(' :: (w₁ ++ a.toList ++ w₂ ++ '=' :: pattern ss ++ [')']))
  | present {a : String} {w₁ w₂ : List Char} : Blanks w₁ → Blanks w₂ →
      Padded (.present a) ('(' :: (w₁ ++ a.toList ++ w₂ ++ ['=', '*', ')']))

/-- **Padded texts of filters one after the other**, each after a run of
blanks. -/
inductive PaddedAll : List Filter → List Char → Prop
  | nil : PaddedAll [] []
  | cons {f : Filter} {fs : List Filter} {w t ts : List Char} : Blanks w → Padded f t →
      PaddedAll fs ts → PaddedAll (f :: fs) (w ++ t ++ ts)

end

/-- No character of an operator or forbidden in a name is blank. -/
theorem attrChar_of_isBlank {c : Char} (h : isBlank c = true) :
    endsAttr c = false ∧ badInAttr c = false := by
  simp only [endsAttr, badInAttr, decide_eq_false_iff_not]
  constructor <;> rintro (rfl | rfl | rfl | rfl) <;> exact absurd h (by decide)

/-! ### Each kind of node reads back through its blanks

Each lemma builds the stable read of a node, or of a list of nodes, from the
stable reads of its parts, with the blanks the padding puts between them. -/

/-- A node after blanks, then a list: a longer list. -/
theorem ListStable.cons_blanks {w q p : List Char} {f : Filter} {fs : List Filter}
    (hw : Blanks w) (hf : FilterStable q f) (hfs : ListStable p fs) :
    ListStable (w ++ '(' :: (q ++ ')' :: p)) (f :: fs) := by
  intro k r hk hr hopen
  simp only [List.length_append, List.length_cons] at hk
  obtain ⟨k, rfl⟩ : ∃ k', k = k' + 1 := ⟨k - 1, by omega⟩
  have hsk : skipBlank (w ++ '(' :: (q ++ ')' :: p) ++ r) = '(' :: (q ++ ')' :: (p ++ r)) := by
    rw [List.append_assoc, skipBlank_blanks_append hw]
    simp [skipBlank_cons]
  rw [readList.eq_2, hsk]
  simp only [hf k (p ++ r) (by omega), hfs k r (by omega) hr hopen]

/-- Blanks alone: the empty list. -/
theorem ListStable.blanks {w : List Char} (hw : Blanks w) : ListStable w [] :=
  fun k _ _ hr hopen => readList_of_not_open k hw hr hopen

/-- A conjunction or disjunction: blanks, its symbol, then a list with a node in
it. -/
theorem FilterStable.listNode {opc : Char} (hopc : isBlank opc = false)
    {mk : List Filter → Filter}
    (hstep : ∀ {k r0 r1 r2 g gs}, skipBlank r0 = opc :: r1 → readList k r1 = .ok (g :: gs, r2) →
      readFilter (k + 1) ('(' :: r0) = close (mk (g :: gs)) r2)
    {w p : List Char} (hw : Blanks w) {fs : List Filter} (hfs : fs ≠ []) (hL : ListStable p fs) :
    FilterStable (w ++ opc :: p) (mk fs) := by
  intro k r hk
  obtain ⟨g, gs, rfl⟩ := List.exists_cons_of_ne_nil hfs
  simp only [List.length_append, List.length_cons] at hk
  obtain ⟨k, rfl⟩ : ∃ k', k = k' + 1 := ⟨k - 1, by omega⟩
  have hl := hL k (')' :: r) (by omega) (skipBlank_cons isBlank_close _) (by simp)
  have hsk : skipBlank (w ++ opc :: p ++ ')' :: r) = opc :: (p ++ ')' :: r) := by
    rw [List.append_assoc, skipBlank_blanks_append hw, List.cons_append, skipBlank_cons hopc]
  rw [List.append_assoc, ← List.append_assoc w, hstep hsk hl]
  simp [close, skipBlank_cons]

/-- A negation: blanks, `!`, blanks, the node and blanks. -/
theorem FilterStable.not_blanks {w₁ w₂ w₃ q : List Char} {f : Filter} (hw₁ : Blanks w₁)
    (hw₂ : Blanks w₂) (hw₃ : Blanks w₃) (hf : FilterStable q f) :
    FilterStable (w₁ ++ '!' :: (w₂ ++ '(' :: (q ++ ')' :: w₃))) (.not f) := by
  intro k r hk
  simp only [List.length_append, List.length_cons] at hk
  obtain ⟨k, rfl⟩ : ∃ k', k = k' + 1 := ⟨k - 1, by omega⟩
  have hsk0 : skipBlank (w₁ ++ '!' :: (w₂ ++ '(' :: (q ++ ')' :: w₃)) ++ ')' :: r) =
      '!' :: (w₂ ++ '(' :: (q ++ ')' :: (w₃ ++ ')' :: r))) := by
    rw [List.append_assoc, skipBlank_blanks_append hw₁]
    simp [skipBlank_cons]
  have hsk1 : skipBlank (w₂ ++ '(' :: (q ++ ')' :: (w₃ ++ ')' :: r))) =
      '(' :: (q ++ ')' :: (w₃ ++ ')' :: r)) := by
    rw [skipBlank_blanks_append hw₂, skipBlank_cons isBlank_open]
  rw [readFilter_not hsk0 (by rw [hsk1]; exact hf k (w₃ ++ ')' :: r) (by omega))]
  simp [close, skipBlank_blanks_append hw₃, skipBlank_cons]

/-- A name followed by blanks trims to the name. -/
theorem trimList_append_blanks {a w : List Char} (ha : trimList a = a) (hw : Blanks w) :
    trimList (a ++ w) = a := by
  cases a with
  | nil => exact trimList_eq_nil_iff.2 hw
  | cons c a =>
    have hc : isBlank c = false := by
      have := head?_trimList (c :: a)
      rw [ha] at this
      exact this c rfl
    have hlast : ∀ x ∈ (c :: a).getLast?, isBlank x = false := by
      have := getLast?_trimList (c :: a)
      rwa [ha] at this
    have hback : trimBack (c :: a ++ w) = c :: a := by
      unfold trimBack
      rw [List.reverse_append, List.dropWhile_append_of_pos (fun x hx => hw x (List.mem_reverse.1 hx))]
      change (trimBack (c :: a)) = c :: a
      exact trimBack_eq_self hlast
    rw [trimList, List.cons_append, trimFront_eq_self (by simpa using hc), ← List.cons_append, hback]

/-- **A leaf's text with blanks before its operator is read as the leaf's name,
operator and operand.** -/
theorem readItem_blanks {a : String} (ha : NameOk a) {w : List Char} (hw : Blanks w) (op : Op)
    {rest r s : List Char} {ss : List (List Char)} (h : readOperand rest = .ok ((s, ss), r)) :
    readItem (a.toList ++ (w ++ (op.symbol.toList ++ rest))) = leaf a op s ss r := by
  obtain ⟨hne, htrim, hchars, -⟩ := ha
  obtain ⟨c, sym, hsym, hc⟩ := symbol_toList op
  have hname : ∀ x ∈ a.toList ++ w, endsAttr x = false ∧ badInAttr x = false := by
    intro x hx
    rcases List.mem_append.1 hx with hx | hx
    · exact hchars x hx
    · exact attrChar_of_isBlank (hw x hx)
  have hattr : readAttr (a.toList ++ (w ++ (op.symbol.toList ++ rest))) =
      .ok (a.toList ++ w, op.symbol.toList ++ rest) := by
    rw [← List.append_assoc, hsym, List.cons_append]
    exact readAttr_name hname hc _
  have htrimmed : trimList (a.toList ++ w) = a.toList :=
    trimList_append_blanks (trim_eq_self_iff.1 htrim) hw
  have hne' : a.toList ≠ [] := by simpa using hne
  simp only [readItem, hattr, htrimmed, if_neg hne', readOp_symbol, h, String.ofList_toList]

/-- A leaf: blanks, its name, blanks, and what follows the name up to the `)`. -/
theorem FilterStable.leaf_blanks {a : String} (ha : NameOk a) {w₁ w₂ : List Char}
    (hw₁ : Blanks w₁) {f : Filter} (rest : List Char)
    (hread : ∀ r, readItem (a.toList ++ w₂ ++ rest ++ ')' :: r) = .ok (f, ')' :: r)) :
    FilterStable (w₁ ++ a.toList ++ w₂ ++ rest) f := by
  obtain ⟨hne, htrim, -, hhead⟩ := ha
  obtain ⟨c, cs, hcs⟩ := List.exists_cons_of_ne_nil (by simpa using hne : a.toList ≠ [])
  have hc : isBlank c = false := by
    have := head?_trimList a.toList
    rw [trim_eq_self_iff.1 htrim, hcs] at this
    exact this c rfl
  obtain ⟨hamp, hbar, hbang⟩ := hhead c (by simp [hcs])
  intro k r hk
  simp only [List.length_append] at hk
  obtain ⟨k, rfl⟩ : ∃ k', k = k' + 1 := ⟨k - 1, by rw [hcs] at hk; simp at hk; omega⟩
  have hsk : skipBlank (w₁ ++ a.toList ++ w₂ ++ rest ++ ')' :: r) =
      a.toList ++ w₂ ++ rest ++ ')' :: r := by
    simp only [List.append_assoc]
    rw [skipBlank_blanks_append hw₁, hcs, List.cons_append]
    exact skipBlank_cons hc _
  have hhd : (a.toList ++ w₂ ++ rest ++ ')' :: r).head? = some c := by simp [hcs]
  rw [readFilter_leaf (by rw [hsk]; simp) (by rw [hsk, hhd]; simpa using hamp)
    (by rw [hsk, hhd]; simpa using hbar) (by rw [hsk, hhd]; simpa using hbang)
    (by rw [hsk]; exact hread r)]
  simp only [close, skipBlank_cons isBlank_close]

/-! ### Every padded text reads back -/

mutual

/-- **A padded text of a well-formed filter is a node that reads as the
filter**, whatever follows it. -/
theorem Padded.stable : ∀ {f : Filter} {t : List Char}, Padded f t → f.WellFormed →
    ∃ q, t = '(' :: (q ++ [')']) ∧ FilterStable q f
  | _, _, .and hw₁ hall hw₂, hf =>
    ⟨_, by simp, FilterStable.listNode isBlank_amp readFilter_and hw₁ hf.1 (hall.stable hf.2 hw₂)⟩
  | _, _, .or hw₁ hall hw₂, hf =>
    ⟨_, by simp, FilterStable.listNode isBlank_bar readFilter_or hw₁ hf.1 (hall.stable hf.2 hw₂)⟩
  | _, _, .not hw₁ hw₂ ht hw₃, hf => by
    obtain ⟨q, rfl, hq⟩ := ht.stable hf
    exact ⟨_, by simp, FilterStable.not_blanks hw₁ hw₂ hw₃ hq⟩
  | _, _, @Padded.compare a op v w₁ w₂ hw₁ hw₂, hf =>
    ⟨w₁ ++ a.toList ++ w₂ ++ (op.symbol.toList ++ escapeChars v.toList), by simp,
      FilterStable.leaf_blanks hf hw₁ (op.symbol.toList ++ escapeChars v.toList) fun r => by
        simp only [List.append_assoc]
        rw [readItem_blanks hf hw₂ op (readOperand_escape v.toList rfl), List.append_nil,
          leaf_compare]⟩
  | _, _, @Padded.substring a ss w₁ w₂ hw₁ hw₂, hf => by
    obtain ⟨ha, hlen, hpresent⟩ := hf
    obtain ⟨s, ss, rfl⟩ := List.exists_cons_of_ne_nil (List.ne_nil_of_length_pos (by omega) :
      ss ≠ [])
    have hss : ss ≠ [] := List.ne_nil_of_length_pos (by simp at hlen; omega)
    refine ⟨w₁ ++ a.toList ++ w₂ ++ (Op.equal.symbol.toList ++ pattern (s :: ss)),
      by simp [Op.symbol], FilterStable.leaf_blanks ha hw₁ _ fun r => ?_⟩
    simp only [List.append_assoc]
    rw [readItem_blanks ha hw₂ .equal (readOperand_pattern s ss r), leaf_substring a hss hpresent]
  | _, _, @Padded.present a w₁ w₂ hw₁ hw₂, hf =>
    ⟨w₁ ++ a.toList ++ w₂ ++ (Op.equal.symbol.toList ++ ['*']), by simp [Op.symbol],
      FilterStable.leaf_blanks hf hw₁ _ fun r => by
      simp only [List.append_assoc, List.cons_append, List.nil_append]
      rw [readItem_blanks hf hw₂ .equal
        (rfl : readOperand ('*' :: ')' :: r) = .ok (([], [[]]), ')' :: r))]
      rfl⟩

/-- **Padded texts of well-formed filters, then blanks, are a list that reads as
the filters.** -/
theorem PaddedAll.stable : ∀ {fs : List Filter} {ts : List Char}, PaddedAll fs ts →
    AllWellFormed fs → ∀ {w : List Char}, Blanks w → ListStable (ts ++ w) fs
  | _, _, .nil, _, _, hw => ListStable.blanks hw
  | _, _, .cons hw' ht hts, hf, _, hw => by
    obtain ⟨q, rfl, hq⟩ := ht.stable hf.1
    have h := ListStable.cons_blanks hw' hq (hts.stable hf.2 hw)
    simpa using h

end

/-- A node's text with blanks around it trims to the node's text. -/
theorem trimList_blanks_around {w₀ w₁ q : List Char} (hw₀ : Blanks w₀) (hw₁ : Blanks w₁) :
    trimList (w₀ ++ '(' :: (q ++ [')']) ++ w₁) = '(' :: (q ++ [')']) := by
  have hfront : trimFront (w₀ ++ '(' :: (q ++ [')']) ++ w₁) = '(' :: (q ++ ')' :: w₁) := by
    change skipBlank _ = _
    rw [List.append_assoc, skipBlank_blanks_append hw₀]
    simp [skipBlank_cons]
  rw [trimList, hfront]
  exact trimBack_close (q := '(' :: q) hw₁

/-! ### Blanks inside an operand -/

/-- **The parts of a leaf**: its name, its operator and the segments of its
operand, which a pattern separates by `*`. A comparison has one segment, a
presence test the two empty ones. -/
def leafParts : Filter → Option (String × Op × List String)
  | .compare a op v => some (a, op, [v])
  | .substring a ss => some (a, .equal, ss)
  | .present a => some (a, .equal, ["", ""])
  | _ => none

/-- The leaf of a name, an operator and segments: a comparison for one segment,
a presence test for the two empty ones, and a pattern otherwise. -/
def ofLeafParts (a : String) (op : Op) : List String → Filter
  | [] => .substring a []
  | [v] => .compare a op v
  | s :: t :: ss => if s :: t :: ss = ["", ""] then .present a else .substring a (s :: t :: ss)

theorem escapeChars_append (xs ys : List Char) :
    escapeChars (xs ++ ys) = escapeChars xs ++ escapeChars ys := by
  induction xs with
  | nil => rfl
  | cons c xs ih =>
    simp only [List.cons_append, escapeChars]
    split_ifs <;> simp [ih]

theorem escapeChars_blanks {w : List Char} (hw : Blanks w) : escapeChars w = w := by
  induction w with
  | nil => rfl
  | cons c w ih =>
    have hc : ¬ (c = '\\' ∨ c = '(' ∨ c = ')' ∨ c = '*') := by
      rintro (rfl | rfl | rfl | rfl) <;> exact absurd (hw _ List.mem_cons_self) (by decide)
    rw [escapeChars, if_neg hc, ih fun x hx => hw x (List.mem_cons_of_mem c hx)]

/-- A pattern cut inside a segment: the text of the segments up to the cut, then
the text of the rest. -/
theorem pattern_cut (xs : List String) (u u' : String) (ys : List String) :
    pattern (xs ++ (u ++ u') :: ys) = pattern (xs ++ [u]) ++ pattern (u' :: ys) := by
  induction xs with
  | nil =>
    cases ys with
    | nil => simp [pattern, escapeChars_append]
    | cons y ys => simp [pattern, escapeChars_append]
  | cons x xs ih =>
    have hne : xs ++ (u ++ u') :: ys ≠ [] := by simp
    have hne' : xs ++ [u] ≠ [] := by simp
    rw [List.cons_append, pattern.eq_3 x _ hne, ih, List.cons_append, pattern.eq_3 x _ hne']
    simp

/-- **Blanks inserted into a pattern at a cut are a segment's own characters.** -/
theorem pattern_insert {w : List Char} (hw : Blanks w) (xs : List String) (u u' : String)
    (ys : List String) :
    pattern (xs ++ (u ++ String.ofList w ++ u') :: ys) =
      pattern (xs ++ [u]) ++ w ++ pattern (u' :: ys) := by
  rw [pattern_cut, pattern_cut xs u (String.ofList w) []]
  simp [pattern, escapeChars_blanks hw]

theorem renderChars_of_leafParts {f : Filter} {a : String} {op : Op} {ss : List String}
    (h : f.leafParts = some (a, op, ss)) :
    f.renderChars = '(' :: (a.toList ++ op.symbol.toList ++ pattern ss ++ [')']) := by
  cases f with
  | compare a' op' v =>
    simp only [leafParts, Option.some.injEq, Prod.mk.injEq] at h
    obtain ⟨rfl, rfl, rfl⟩ := h
    simp [renderChars, pattern]
  | substring a' ss' =>
    simp only [leafParts, Option.some.injEq, Prod.mk.injEq] at h
    obtain ⟨rfl, rfl, rfl⟩ := h
    simp [renderChars, Op.symbol]
  | present a' =>
    simp only [leafParts, Option.some.injEq, Prod.mk.injEq] at h
    obtain ⟨rfl, rfl, rfl⟩ := h
    simp [renderChars, Op.symbol, pattern, escapeChars]
  | _ => cases h

/-- The leaf of some parts has those parts and the text they spell, and is well
formed when its name is, provided the parts are those of a leaf: segments, and
only one unless the operator is `=`. -/
theorem ofLeafParts_spec {a : String} (ha : NameOk a) {op : Op} {ss : List String}
    (hss : ss ≠ []) (hop : ss.length = 1 ∨ op = .equal) :
    (ofLeafParts a op ss).leafParts = some (a, op, ss) ∧
      (ofLeafParts a op ss).renderChars = '(' :: (a.toList ++ op.symbol.toList ++ pattern ss ++ [')']) ∧
      (ofLeafParts a op ss).WellFormed := by
  have hparts : (ofLeafParts a op ss).leafParts = some (a, op, ss) := by
    match ss, hss, hop with
    | [v], _, _ => rfl
    | s :: t :: ss, _, hop =>
      obtain rfl : op = .equal := hop.resolve_left (by simp)
      simp only [ofLeafParts]
      split_ifs with hpresent
      · simp only [List.cons.injEq] at hpresent
        obtain ⟨rfl, rfl, rfl⟩ := hpresent
        rfl
      · rfl
  refine ⟨hparts, renderChars_of_leafParts hparts, ?_⟩
  match ss, hss with
  | [v], _ => exact ha
  | s :: t :: ss, _ =>
    simp only [ofLeafParts]
    split_ifs with hpresent
    · exact ha
    · exact ⟨ha, by simp, hpresent⟩

/-- **Blanks inserted into the operand of a leaf stay in its operand**: the text
reads as the leaf with the same name and operator whose segments hold the
blanks where they were inserted. -/
theorem parse_leaf_insert {g : Filter} (hg : g.WellFormed) {a : String} {op : Op}
    {xs : List String} {u u' : String} {ys : List String}
    (hparts : g.leafParts = some (a, op, xs ++ (u ++ u') :: ys)) {w : List Char} (hw : Blanks w) :
    ∃ g', parse (String.ofList ('(' :: (a.toList ++ op.symbol.toList ++ pattern (xs ++ [u]) ++ w ++
        pattern (u' :: ys) ++ [')']))) = .ok g' ∧
      g'.leafParts = some (a, op, xs ++ (u ++ String.ofList w ++ u') :: ys) := by
  have hleaf : NameOk a ∧ ((xs ++ (u ++ u') :: ys).length = 1 ∨ op = .equal) := by
    cases g with
    | compare a' op' v =>
      simp only [leafParts, Option.some.injEq, Prod.mk.injEq] at hparts
      obtain ⟨rfl, rfl, hsegs⟩ := hparts
      exact ⟨hg, .inl (by rw [← hsegs]; rfl)⟩
    | substring a' ss =>
      simp only [leafParts, Option.some.injEq, Prod.mk.injEq] at hparts
      obtain ⟨rfl, rfl, -⟩ := hparts
      exact ⟨hg.1, .inr rfl⟩
    | present a' =>
      simp only [leafParts, Option.some.injEq, Prod.mk.injEq] at hparts
      obtain ⟨rfl, rfl, -⟩ := hparts
      exact ⟨hg, .inr rfl⟩
    | _ => cases hparts
  obtain ⟨ha, hop⟩ := hleaf
  have hlen : (xs ++ (u ++ String.ofList w ++ u') :: ys).length =
      (xs ++ (u ++ u') :: ys).length := by simp
  obtain ⟨hparts', hrender, hwf⟩ := ofLeafParts_spec ha
    (by simp : xs ++ (u ++ String.ofList w ++ u') :: ys ≠ []) (hlen ▸ hop)
  refine ⟨_, ?_, hparts'⟩
  have htext : '(' :: (a.toList ++ op.symbol.toList ++ pattern (xs ++ [u]) ++ w ++
      pattern (u' :: ys) ++ [')']) = (ofLeafParts a op (xs ++ (u ++ String.ofList w ++ u') :: ys)).renderChars := by
    rw [hrender, pattern_insert hw]
    simp
  rw [htext]
  exact parse_render hwf

/-- **Blanks at the places the reader skips them change nothing.** For every
filter a reading gives, its canonical text with runs of blanks after every `(`,
after `&`, `|` and `!`, before every child of a conjunction or disjunction,
before the `)` that closes a conjunction, disjunction or negation, before the
operator of a leaf, and around the whole text reads as the filter again. Blanks
inside the operand of a leaf are another matter: for every leaf a reading
gives and every cut of its operand between two segment characters, including
right after the operator and right before the leaf's `)`, the leaf's text with
blanks inserted at the cut reads as the leaf with the same name and operator
whose operand holds the blanks at the cut. -/
theorem parse_padded {s : String} {f : Filter} (hs : parse s = .ok f) :
    (∀ t w₀ w₁, Padded f t → Blanks w₀ → Blanks w₁ →
      parse (String.ofList (w₀ ++ t ++ w₁)) = .ok f) ∧
    ∀ (g : Filter) (s' : String), parse s' = .ok g →
      ∀ (a : String) (op : Op) (xs : List String) (u u' : String) (ys : List String),
        g.leafParts = some (a, op, xs ++ (u ++ u') :: ys) → ∀ w, Blanks w →
        g.renderChars = '(' :: (a.toList ++ op.symbol.toList ++ pattern (xs ++ [u]) ++
            pattern (u' :: ys) ++ [')']) ∧
          ∃ g', parse (String.ofList ('(' :: (a.toList ++ op.symbol.toList ++
              pattern (xs ++ [u]) ++ w ++ pattern (u' :: ys) ++ [')']))) = .ok g' ∧
            g'.leafParts = some (a, op, xs ++ (u ++ String.ofList w ++ u') :: ys) := by
  refine ⟨fun t w₀ w₁ ht hw₀ hw₁ => ?_, fun g s' hg a op xs u u' ys hparts w hw => ?_⟩
  · obtain ⟨q, rfl, hq⟩ := ht.stable (parse_wellFormed hs)
    exact parse_eq_ok_iff.2 ⟨q, by rw [String.toList_ofList, trimList_blanks_around hw₀ hw₁], hq⟩
  · refine ⟨?_, parse_leaf_insert (parse_wellFormed hg) hparts hw⟩
    rw [renderChars_of_leafParts hparts, pattern_cut]
    simp

/-- The padded text the library's own test reads: a conjunction of a comparison,
a disjunction and a negated presence test. -/
theorem parse_padded_spaced :
    parse " ( & (a=1) (| (b>=2) (c~=x) ) (!(d=*)) ) " =
        .ok (.and [.compare "a" .equal "1", .or [.compare "b" .greaterEq "2", .compare "c" .approx "x"],
          .not (.present "d")]) ∧
      (∀ t w₀ w₁, Padded (.and [.compare "a" .equal "1",
          .or [.compare "b" .greaterEq "2", .compare "c" .approx "x"], .not (.present "d")]) t →
        Blanks w₀ → Blanks w₁ →
        parse (String.ofList (w₀ ++ t ++ w₁)) = .ok (.and [.compare "a" .equal "1",
          .or [.compare "b" .greaterEq "2", .compare "c" .approx "x"], .not (.present "d")])) ∧
      ∀ (g : Filter) (s' : String), parse s' = .ok g →
        ∀ (a : String) (op : Op) (xs : List String) (u u' : String) (ys : List String),
          g.leafParts = some (a, op, xs ++ (u ++ u') :: ys) → ∀ w, Blanks w →
          g.renderChars = '(' :: (a.toList ++ op.symbol.toList ++ pattern (xs ++ [u]) ++
              pattern (u' :: ys) ++ [')']) ∧
            ∃ g', parse (String.ofList ('(' :: (a.toList ++ op.symbol.toList ++
                pattern (xs ++ [u]) ++ w ++ pattern (u' :: ys) ++ [')']))) = .ok g' ∧
              g'.leafParts = some (a, op, xs ++ (u ++ String.ofList w ++ u') :: ys) :=
  have h : parse " ( & (a=1) (| (b>=2) (c~=x) ) (!(d=*)) ) " =
      .ok (.and [.compare "a" .equal "1", .or [.compare "b" .greaterEq "2", .compare "c" .approx "x"],
        .not (.present "d")]) := by decide
  ⟨h, parse_padded h⟩

end Depot.Filter

import Depot.Proofs.FilterReading
import Depot.Proofs.ScalarText

/-!
# The canonical text of a filter

`Depot.Filter.render` writes a filter with no blanks, every operand escaped
and the segments of a pattern joined by `*`. That text reads back as the filter
exactly when a reading could have given the filter at all.

* **What a reading gives is well formed** (`Depot.Filter.WellFormed`): its
  names are trimmed and not empty, hold no character that starts an operator
  or may not stand in a name, and do not start like a conjunction, disjunction
  or negation; its conjunctions and disjunctions have children; its patterns
  have two segments or more and are not the two empty ones of a presence test
  (`Depot.Filter.parse_wellFormed`). The proof follows the reader, by induction
  on the fuel, one case for each kind of node.
* **The text of a well-formed filter reads back as it**, followed by any rest
  (`Depot.Filter.readsBack`), because an escaped operand reads back as itself
  (`Depot.Filter.readOperand_escape`) and a name that reading gives ends where
  its operator starts. This proof follows the filter, one case for each
  constructor.

So the text of whatever a reading gives is canonical: it reads as that filter,
and printing the result again gives the same text
(`Depot.Filter.parse_render_iff_wellFormed`).
-/

namespace Depot.Filter

open Text

/-! ### Well-formed filters -/

/-- **A name that a reading gives**: not empty, trimmed, free of the characters
that start an operator (`=`, `~`, `<`, `>`) and of those a name may not hold
(`(`, `)`, `*`, `\`), and not starting like a conjunction, disjunction or
negation. -/
def NameOk (a : String) : Prop :=
  a ≠ "" ∧ trim a = a ∧ (∀ c ∈ a.toList, endsAttr c = false ∧ badInAttr c = false) ∧
    ∀ c ∈ a.toList.head?, c ≠ '&' ∧ c ≠ '|' ∧ c ≠ '!'

instance (a : String) : Decidable (NameOk a) :=
  decidable_of_iff (a != "" && trim a == a &&
      a.toList.all (fun c => !endsAttr c && !badInAttr c) &&
      a.toList.head?.all fun c => c != '&' && c != '|' && c != '!')
    (by simp [NameOk, Option.all_eq_true, and_assoc])

mutual

/-- **A filter that a reading gives**: every name as `Depot.Filter.NameOk`
says, every conjunction and disjunction with a child, and every pattern with
two segments or more, other than the two empty segments of a presence test. -/
def WellFormed : Filter → Prop
  | .and fs => fs ≠ [] ∧ AllWellFormed fs
  | .or fs => fs ≠ [] ∧ AllWellFormed fs
  | .not f => WellFormed f
  | .compare a _ _ => NameOk a
  | .substring a segs => NameOk a ∧ 2 ≤ segs.length ∧ segs ≠ ["", ""]
  | .present a => NameOk a

/-- Every filter of a list is well formed. -/
def AllWellFormed : List Filter → Prop
  | [] => True
  | f :: fs => WellFormed f ∧ AllWellFormed fs

end

mutual

/-- Decides whether a filter is well formed. -/
def decWellFormed : (f : Filter) → Decidable f.WellFormed
  | .and fs => @instDecidableAnd _ _ _ (decAllWellFormed fs)
  | .or fs => @instDecidableAnd _ _ _ (decAllWellFormed fs)
  | .not f => decWellFormed f
  | .compare a _ _ => inferInstanceAs (Decidable (NameOk a))
  | .substring a segs =>
    inferInstanceAs (Decidable (NameOk a ∧ 2 ≤ segs.length ∧ segs ≠ ["", ""]))
  | .present a => inferInstanceAs (Decidable (NameOk a))

/-- Decides whether every filter of a list is well formed. -/
def decAllWellFormed : (fs : List Filter) → Decidable (AllWellFormed fs)
  | [] => isTrue trivial
  | f :: fs => @instDecidableAnd _ _ (decWellFormed f) (decAllWellFormed fs)

end

instance (f : Filter) : Decidable f.WellFormed := decWellFormed f

example :
    (Filter.and [.compare "name" .equal "a(b)*", .substring "path" ["/usr/", "/lib", ""]]).WellFormed := by
  decide

example : ¬ (Filter.or [.compare " name" .equal "x"]).WellFormed ∧
    ¬ (Filter.substring "p" ["", ""]).WellFormed ∧ ¬ (Filter.present "!p").WellFormed := by
  decide

section WellFormed

variable {fs : List Filter} {f : Filter} {a : String}

@[simp] theorem wellFormed_and : (Filter.and fs).WellFormed ↔ fs ≠ [] ∧ AllWellFormed fs :=
  Iff.rfl

@[simp] theorem wellFormed_or : (Filter.or fs).WellFormed ↔ fs ≠ [] ∧ AllWellFormed fs :=
  Iff.rfl

@[simp] theorem wellFormed_not : (Filter.not f).WellFormed ↔ f.WellFormed := Iff.rfl

@[simp] theorem wellFormed_compare (op : Op) (v : String) :
    (Filter.compare a op v).WellFormed ↔ NameOk a := Iff.rfl

@[simp] theorem wellFormed_substring (segs : List String) :
    (Filter.substring a segs).WellFormed ↔ NameOk a ∧ 2 ≤ segs.length ∧ segs ≠ ["", ""] :=
  Iff.rfl

@[simp] theorem wellFormed_present : (Filter.present a).WellFormed ↔ NameOk a := Iff.rfl

@[simp] theorem allWellFormed_nil : AllWellFormed [] := trivial

@[simp] theorem allWellFormed_cons : AllWellFormed (f :: fs) ↔ f.WellFormed ∧ AllWellFormed fs :=
  Iff.rfl

end WellFormed

/-! ### The parts of a leaf read back -/

theorem readAttr_name {a : List Char} (ha : ∀ c ∈ a, endsAttr c = false ∧ badInAttr c = false)
    {c : Char} (hc : endsAttr c = true) (r : List Char) :
    readAttr (a ++ c :: r) = .ok (a, c :: r) := by
  induction a with
  | nil => simp [readAttr, hc]
  | cons d a ih =>
    obtain ⟨hd1, hd2⟩ := ha d List.mem_cons_self
    simp [readAttr, hd1, hd2, ih fun x hx => ha x (List.mem_cons_of_mem d hx)]

@[simp] theorem readOp_symbol (op : Op) (r : List Char) :
    readOp (op.symbol.toList ++ r) = some (op, r) := by
  cases op <;> rfl

/-- An operator starts with a character that ends a name. -/
theorem symbol_toList (op : Op) : ∃ c s, op.symbol.toList = c :: s ∧ endsAttr c = true := by
  cases op <;> exact ⟨_, _, rfl, rfl⟩

/-- **An escaped operand reads back as itself**, in front of whatever the rest
reads as. -/
theorem readOperand_escape (s : List Char) {rest r t : List Char} {ts : List (List Char)}
    (h : readOperand rest = .ok ((t, ts), r)) :
    readOperand (escapeChars s ++ rest) = .ok ((s ++ t, ts), r) := by
  induction s with
  | nil => exact h
  | cons c s ih =>
    by_cases hc : c = '\\' ∨ c = '(' ∨ c = ')' ∨ c = '*'
    · -- a character with a backslash before it is kept, whatever it is
      rw [escapeChars, if_pos hc, List.cons_append, List.cons_append, readOperand.eq_5, ih]
      rfl
    · -- any other character stands for itself
      simp only [not_or] at hc
      obtain ⟨h1, h2, h3, h4⟩ := hc
      rw [escapeChars, if_neg (by simp [h1, h2, h3, h4]), List.cons_append,
        readOperand.eq_7 c _ h3 h2 (fun h => absurd h h1) (fun _ _ h => absurd h h1) h4, ih]
      rfl

/-- The segments of a pattern are read back, up to the `)` after them. -/
theorem readOperand_pattern (s : String) (ss : List String) (r : List Char) :
    readOperand (pattern (s :: ss) ++ ')' :: r) =
      .ok ((s.toList, ss.map String.toList), ')' :: r) := by
  induction ss generalizing s with
  | nil =>
    have h := readOperand_escape s.toList (rfl : readOperand (')' :: r) = .ok (([], []), ')' :: r))
    rwa [List.append_nil] at h
  | cons s' ss ih =>
    have hstar : readOperand ('*' :: (pattern (s' :: ss) ++ ')' :: r)) =
        .ok (([], s'.toList :: ss.map String.toList), ')' :: r) := by
      rw [readOperand.eq_6, ih]
    have h := readOperand_escape s.toList hstar
    rw [List.append_nil] at h
    rw [pattern.eq_3 s _ (List.cons_ne_nil s' ss), List.append_assoc, List.cons_append, h]
    rfl

/-- **A leaf's text is read as its name, its operator and its operand.** -/
theorem readItem_text (ha : NameOk a) (op : Op) {rest r s : List Char} {ss : List (List Char)}
    (h : readOperand rest = .ok ((s, ss), r)) :
    readItem (a.toList ++ (op.symbol.toList ++ rest)) = leaf a op s ss r := by
  obtain ⟨hne, htrim, hchars, -⟩ := ha
  obtain ⟨c, sym, hsym, hc⟩ := symbol_toList op
  have hattr : readAttr (a.toList ++ (op.symbol.toList ++ rest)) =
      .ok (a.toList, op.symbol.toList ++ rest) := by
    rw [hsym, List.cons_append]
    exact readAttr_name hchars hc _
  have hne' : a.toList ≠ [] := by simpa using hne
  simp only [readItem, hattr, trim_eq_self_iff.1 htrim, if_neg hne', readOp_symbol, h,
    String.ofList_toList]

theorem leaf_compare (a : String) (op : Op) (v : String) (r : List Char) :
    leaf a op v.toList [] r = .ok (.compare a op v, r) := by
  simp [leaf]

theorem leaf_substring (a : String) {s : String} {ss : List String} (hss : ss ≠ [])
    (hpresent : s :: ss ≠ ["", ""]) (r : List Char) :
    leaf a .equal s.toList (ss.map String.toList) r = .ok (.substring a (s :: ss), r) := by
  obtain ⟨s', ss', rfl⟩ := List.exists_cons_of_ne_nil hss
  have hnot : ¬ (s.toList = [] ∧ (s' :: ss').map String.toList = [[]]) := by
    rintro ⟨h1, h2⟩
    simp only [List.map_cons, List.cons.injEq, List.map_eq_nil_iff, String.toList_eq_nil_iff] at h2
    apply hpresent
    rw [String.toList_eq_nil_iff.1 h1, h2.1, h2.2]
  simp only [leaf]
  rw [if_neg hnot]
  simp [Function.comp_def]

/-! ### The text of a well-formed filter reads back

A node's text is read with one unit of fuel for each character but one; a
list's with one for each character. -/

theorem renderChars_cons (f : Filter) : ∃ q, f.renderChars = '(' :: q := by
  cases f <;> exact ⟨_, rfl⟩

/-- **A filter whose text reads back**: with fuel for all characters of the
text but one, the text followed by any rest reads as the filter and leaves the
rest. -/
def ReadsBack (f : Filter) : Prop :=
  ∀ k r, f.renderChars.length ≤ k + 1 → readFilter k (f.renderChars ++ r) = .ok (f, r)

theorem readsBack_list_node {opc : Char} (hopc : isBlank opc = false) {mk : List Filter → Filter}
    (hrender : ∀ fs, (mk fs).renderChars = '(' :: opc :: renderAll fs ++ [')'])
    (hstep : ∀ {k r0 r1 r2 g gs}, skipBlank r0 = opc :: r1 → readList k r1 = .ok (g :: gs, r2) →
      readFilter (k + 1) ('(' :: r0) = close (mk (g :: gs)) r2)
    {fs : List Filter} (hfs : fs ≠ []) (hL : ListStable (renderAll fs) fs) : ReadsBack (mk fs) := by
  intro k r hk
  obtain ⟨g, gs, rfl⟩ := List.exists_cons_of_ne_nil hfs
  rw [hrender] at hk ⊢
  simp only [List.length_append, List.length_cons, List.length_nil] at hk
  obtain ⟨k, rfl⟩ : ∃ k', k = k' + 1 := ⟨k - 1, by omega⟩
  have hl := hL k (')' :: r) (by omega) (skipBlank_cons isBlank_close _) (by simp)
  have htext : '(' :: opc :: renderAll (g :: gs) ++ [')'] ++ r =
      '(' :: opc :: (renderAll (g :: gs) ++ ')' :: r) := by simp
  rw [htext, hstep (skipBlank_cons hopc _) hl]
  simp [close, skipBlank_cons]

theorem readsBack_not {f : Filter} (hf : ReadsBack f) : ReadsBack (.not f) := by
  intro k r hk
  simp only [renderChars, List.length_append, List.length_cons, List.length_nil] at hk
  obtain ⟨k, rfl⟩ : ∃ k', k = k' + 1 := ⟨k - 1, by omega⟩
  obtain ⟨q, hq⟩ := renderChars_cons f
  have hinner : readFilter k (skipBlank (f.renderChars ++ ')' :: r)) = .ok (f, ')' :: r) := by
    rw [hq, List.cons_append, skipBlank_cons isBlank_open, ← List.cons_append, ← hq]
    exact hf k _ (by omega)
  have htext : (Filter.not f).renderChars ++ r = '(' :: '!' :: (f.renderChars ++ ')' :: r) := by
    simp [renderChars]
  rw [htext, readFilter_not (skipBlank_cons isBlank_bang _) hinner]
  simp [close, skipBlank_cons]

/-- A leaf reads back when what follows its name does, up to the `)`. -/
theorem readsBack_leaf (ha : NameOk a) {f : Filter} (rest : List Char)
    (hrender : f.renderChars = '(' :: (a.toList ++ rest ++ [')']))
    (hread : ∀ r, readItem (a.toList ++ rest ++ ')' :: r) = .ok (f, ')' :: r)) : ReadsBack f := by
  obtain ⟨hne, htrim, -, hhead⟩ := ha
  obtain ⟨c, cs, hcs⟩ := List.exists_cons_of_ne_nil (by simpa using hne : a.toList ≠ [])
  have hc : isBlank c = false := by
    have := head?_trimList a.toList
    rw [trim_eq_self_iff.1 htrim, hcs] at this
    exact this c rfl
  obtain ⟨hamp, hbar, hbang⟩ := hhead c (by simp [hcs])
  intro k r hk
  rw [hrender] at hk ⊢
  simp only [List.length_cons, List.length_append, List.length_nil] at hk
  obtain ⟨k, rfl⟩ : ∃ k', k = k' + 1 := ⟨k - 1, by rw [hcs] at hk; simp at hk; omega⟩
  have hsk : skipBlank (a.toList ++ rest ++ ')' :: r) = a.toList ++ rest ++ ')' :: r := by
    rw [hcs, List.cons_append, List.cons_append]
    exact skipBlank_cons hc _
  have hhd : (a.toList ++ rest ++ ')' :: r).head? = some c := by simp [hcs]
  have htext : '(' :: (a.toList ++ rest ++ [')']) ++ r = '(' :: (a.toList ++ rest ++ ')' :: r) := by
    simp
  rw [htext, readFilter_leaf (by rw [hsk]; simp) (by rw [hsk, hhd]; simpa using hamp)
    (by rw [hsk, hhd]; simpa using hbar) (by rw [hsk, hhd]; simpa using hbang)
    (by rw [hsk]; exact hread r)]
  simp only [close, skipBlank_cons isBlank_close]

theorem readsBack_compare (ha : NameOk a) (op : Op) (v : String) :
    ReadsBack (.compare a op v) :=
  readsBack_leaf ha (op.symbol.toList ++ escapeChars v.toList)
    (by simp [renderChars]) fun r => by
      simp only [List.append_assoc]
      rw [readItem_text ha op (readOperand_escape v.toList rfl), List.append_nil, leaf_compare]

theorem readsBack_substring (ha : NameOk a) {segs : List String} (hlen : 2 ≤ segs.length)
    (hpresent : segs ≠ ["", ""]) : ReadsBack (.substring a segs) := by
  have hsegs : segs ≠ [] := List.ne_nil_of_length_pos (by omega)
  obtain ⟨s, ss, rfl⟩ := List.exists_cons_of_ne_nil hsegs
  have hss : ss ≠ [] := List.ne_nil_of_length_pos (by simp at hlen; omega)
  refine readsBack_leaf ha (Op.equal.symbol.toList ++ pattern (s :: ss))
    (by simp [renderChars, Op.symbol]) fun r => ?_
  simp only [List.append_assoc]
  rw [readItem_text ha .equal (readOperand_pattern s ss r), leaf_substring a hss hpresent]

theorem readsBack_present (ha : NameOk a) : ReadsBack (.present a) :=
  readsBack_leaf ha (Op.equal.symbol.toList ++ ['*']) (by simp [renderChars, Op.symbol])
    fun r => by
      simp only [List.append_assoc, List.cons_append, List.nil_append]
      rw [readItem_text ha .equal
        (rfl : readOperand ('*' :: ')' :: r) = .ok (([], [[]]), ')' :: r))]
      rfl

theorem listStable_nil : ListStable (renderAll []) [] :=
  fun k _ _ hr hopen => readList_of_not_open k (b := []) (by simp) hr hopen

theorem listStable_cons {f : Filter} {fs : List Filter} (hf : ReadsBack f)
    (hfs : ListStable (renderAll fs) fs) : ListStable (renderAll (f :: fs)) (f :: fs) := by
  intro k r hk hr hopen
  obtain ⟨q, hq⟩ := renderChars_cons f
  simp only [renderAll, List.length_append, hq, List.length_cons] at hk
  obtain ⟨k, rfl⟩ : ∃ k', k = k' + 1 := ⟨k - 1, by omega⟩
  have hsk : skipBlank (renderAll (f :: fs) ++ r) = '(' :: (q ++ (renderAll fs ++ r)) := by
    simp only [renderAll, hq, List.cons_append, List.append_assoc]
    exact skipBlank_cons isBlank_open _
  have hnode : readFilter k ('(' :: (q ++ (renderAll fs ++ r))) = .ok (f, renderAll fs ++ r) := by
    rw [← List.cons_append, ← hq]
    exact hf k _ (by rw [hq, List.length_cons]; omega)
  rw [readList.eq_2, hsk]
  simp only [hnode, hfs k r (by omega) hr hopen]

mutual

/-- **The text of a well-formed filter reads back as it**, one case for each
kind of node. -/
theorem readsBack : ∀ f : Filter, f.WellFormed → ReadsBack f
  | .and fs, h => readsBack_list_node isBlank_amp (fun _ => rfl) readFilter_and h.1
      (listStable_render fs h.2)
  | .or fs, h => readsBack_list_node isBlank_bar (fun _ => rfl) readFilter_or h.1
      (listStable_render fs h.2)
  | .not f, h => readsBack_not (readsBack f h)
  | .compare _ op v, h => readsBack_compare h op v
  | .substring _ _, h => readsBack_substring h.1 h.2.1 h.2.2
  | .present _, h => readsBack_present h

/-- The texts of well-formed filters read back as the list of them. -/
theorem listStable_render : ∀ fs : List Filter, AllWellFormed fs → ListStable (renderAll fs) fs
  | [], _ => listStable_nil
  | f :: fs, h => listStable_cons (readsBack f h.1) (listStable_render fs h.2)

end

/-- **The text of a well-formed filter reads as the filter.** -/
theorem parse_render {f : Filter} (hf : f.WellFormed) : parse f.render = .ok f := by
  obtain ⟨q, hq⟩ := renderChars_cons f
  have hread := readsBack f hf (2 * f.renderChars.length + 2) [] (by omega)
  rw [List.append_nil, hq] at hread
  unfold parse render
  simp only [String.toList_ofList, hq, skipBlank_cons isBlank_open, hread]
  rfl

/-! ### What a reading gives is well formed -/

theorem readAttr_chars {cs a r : List Char} (h : readAttr cs = .ok (a, r)) :
    ∀ c ∈ a, endsAttr c = false ∧ badInAttr c = false := by
  fun_induction readAttr cs generalizing a r with
  | case1 =>
    cases h
    simp
  | case2 c cs hends =>
    cases h
    simp
  | case4 c cs hends hbad a' r1 hrec ih =>
    cases h
    intro x hx
    rcases List.mem_cons.1 hx with rfl | hx
    · exact ⟨by simpa using hends, by simpa using hbad⟩
    · exact ih hrec x hx
  | _ => cases h

theorem mem_of_mem_trimList {cs : List Char} {c : Char} (h : c ∈ trimList cs) : c ∈ cs := by
  have hpre : trimList cs <+: trimFront cs := List.rdropWhile_prefix isBlank _
  exact (List.dropWhile_suffix _).subset (hpre.subset h)

/-- **The name a leaf reads is one a reading gives**: the first character of
the name is the first of the leaf, and trimming keeps it. -/
theorem nameOk_of_readAttr {cs raw r : List Char}
    (hhead : ∀ c ∈ cs.head?, isBlank c = false ∧ c ≠ '&' ∧ c ≠ '|' ∧ c ≠ '!')
    (h : readAttr cs = .ok (raw, r)) (hr : r ≠ []) (hne : trimList raw ≠ []) :
    NameOk (String.ofList (trimList raw)) := by
  obtain ⟨hcs, -⟩ := readAttr_ok h hr
  have hraw : raw ≠ [] := fun h0 => hne (by rw [h0]; rfl)
  obtain ⟨c, raw', rfl⟩ := List.exists_cons_of_ne_nil hraw
  obtain ⟨hc, hcn⟩ := hhead c (by simp [hcs])
  have hfront : trimFront (c :: raw') = c :: raw' := trimFront_eq_self (by simpa using hc)
  have hpre : trimList (c :: raw') <+: c :: raw' := by
    rw [trimList, hfront]
    exact List.rdropWhile_prefix isBlank _
  obtain ⟨d, ds, hds⟩ := List.exists_cons_of_ne_nil hne
  have hdc : d = c := by
    rw [hds] at hpre
    exact (List.cons_prefix_cons.1 hpre).1
  refine ⟨?_, ?_, fun x hx => ?_, fun x hx => ?_⟩
  · simpa using hne
  · rw [trim_eq_self_iff, String.toList_ofList, trimList_trimList]
  · rw [String.toList_ofList] at hx
    exact readAttr_chars h x (mem_of_mem_trimList hx)
  · rw [String.toList_ofList, hds] at hx
    cases hx
    exact hdc ▸ hcn

theorem wellFormed_of_leaf (ha : NameOk a) {op : Op} {s : List Char} {ss : List (List Char)}
    {r r0 : List Char} {f : Filter} (h : leaf a op s ss r = .ok (f, r0)) : f.WellFormed := by
  unfold leaf at h
  split at h
  · cases h
    exact ha
  · rename_i hss
    split at h
    · cases h
      exact ha
    · rename_i hpresent
      cases h
      refine ⟨ha, ?_, fun hsegs => hpresent ?_⟩
      · obtain ⟨t, ts, rfl⟩ := List.exists_cons_of_ne_nil hss
        simp
      · -- two empty segments are read as a presence test
        simp only [List.cons.injEq, List.map_eq_cons_iff, List.map_eq_nil_iff] at hsegs
        obtain ⟨h1, t, ts, rfl, h2, rfl⟩ := hsegs
        refine ⟨by simpa using h1, ?_⟩
        simp [by simpa using h2]
  · cases h

theorem wellFormed_of_readItem {cs r : List Char} {f : Filter}
    (hhead : ∀ c ∈ cs.head?, isBlank c = false ∧ c ≠ '&' ∧ c ≠ '|' ∧ c ≠ '!')
    (h : readItem cs = .ok (f, r)) : f.WellFormed := by
  obtain ⟨raw, r1, op, r2, s, ss, r3, hattr, hne, hop, -, hleaf⟩ := readItem_eq_ok h
  have hr1 : r1 ≠ [] := by
    rintro rfl
    cases hop
  exact wellFormed_of_leaf (nameOk_of_readAttr hhead hattr hr1 hne) hleaf

/-- **Every read gives well-formed filters**, nodes and lists of nodes
together, by induction on the fuel. -/
theorem read_wellFormed (n : Nat) :
    (∀ cs f r, readFilter n cs = .ok (f, r) → f.WellFormed) ∧
      ∀ cs fs r, readList n cs = .ok (fs, r) → AllWellFormed fs := by
  induction n with
  | zero =>
    refine ⟨fun cs f r h => (by cases h), fun cs fs r h => ?_⟩
    rw [readList.eq_1] at h
    cases h
    trivial
  | succ n ih =>
    obtain ⟨ihF, ihL⟩ := ih
    refine ⟨fun cs f r h => ?_, fun cs fs r h => ?_⟩
    · obtain ⟨r0, rfl, ⟨r1, r2, g, gs, -, hl, rfl, -⟩ | ⟨r1, r2, g, gs, -, hl, rfl, -⟩ |
          ⟨r1, r2, g, -, hg, rfl, -⟩ | ⟨r2, hamp, hbar, hbang, hi, -⟩⟩ := readFilter_succ_ok h
      · exact wellFormed_and.2 ⟨List.cons_ne_nil g gs, ihL _ _ _ hl⟩
      · exact wellFormed_or.2 ⟨List.cons_ne_nil g gs, ihL _ _ _ hl⟩
      · exact wellFormed_not.2 (ihF _ _ _ hg)
      · -- a leaf starts after the blanks, with none of `&`, `|` and `!`
        refine wellFormed_of_readItem (fun c hc => ?_) hi
        obtain ⟨t, ht⟩ := List.head?_eq_some_iff.1 hc
        refine ⟨skipBlank_head ht, ?_, ?_, ?_⟩ <;> rintro rfl
        · exact hamp hc
        · exact hbar hc
        · exact hbang hc
    · rcases readList_succ_ok h with ⟨r0, r1, g, gs, -, hf, hl, rfl⟩ | ⟨rfl, -, -⟩
      · exact allWellFormed_cons.2 ⟨ihF _ _ _ hf, ihL _ _ _ hl⟩
      · trivial

theorem parse_wellFormed {s : String} {f : Filter} (h : parse s = .ok f) : f.WellFormed := by
  unfold parse at h
  dsimp only at h
  split at h
  · cases h
  rcases hread : readFilter (2 * s.toList.length + 2) (skipBlank s.toList) with e | ⟨g, r⟩ <;>
    simp only [hread] at h
  · cases h
  split at h
  · cases h
    exact (read_wellFormed _).1 _ _ _ hread
  · cases h

/-- **The text of a filter is canonical.** A filter's text reads back as the
filter exactly when the filter is well formed, and the filters a reading gives
are exactly the well-formed ones. So whatever a reading gives prints as a text
that reads as it again, and printing that gives the same text. -/
theorem parse_render_iff_wellFormed (f : Filter) :
    (parse f.render = .ok f ↔ f.WellFormed) ∧ ((∃ s, parse s = .ok f) ↔ f.WellFormed) :=
  ⟨⟨parse_wellFormed, parse_render⟩,
    ⟨fun ⟨_, hs⟩ => parse_wellFormed hs, fun hf => ⟨f.render, parse_render hf⟩⟩⟩

/-! ### The text of a negation

A text reads as a filter exactly when, trimmed, it is a node whose read depends
only on what it consumed (`Depot.Filter.parse_eq_ok_iff`). Wrapping the trimmed
text in `(!` and `)` keeps that so. Nothing else makes the wrapped text read:
the node after `!` must end at the last `)` but one, and what it consumed is
then all of the trimmed text, whose last character is not blank. -/

/-- What trimming the back drops is blanks. -/
theorem trimBack_split (cs : List Char) : ∃ b, (∀ c ∈ b, isBlank c = true) ∧ cs = trimBack cs ++ b := by
  refine ⟨(cs.reverse.takeWhile isBlank).reverse, fun c hc => ?_, ?_⟩
  · exact List.all_eq_true.1 List.all_takeWhile _ (List.mem_reverse.1 hc)
  · rw [trimBack, ← List.reverse_append, List.takeWhile_append_dropWhile, List.reverse_reverse]

/-- Trimming the back of a node's text followed by blanks leaves the node's
text. -/
theorem trimBack_close {q r : List Char} (hr : ∀ c ∈ r, isBlank c = true) :
    trimBack (q ++ ')' :: r) = q ++ [')'] := by
  unfold trimBack
  have hrev : (q ++ ')' :: r).reverse = r.reverse ++ ')' :: q.reverse := by simp
  have hdrop : (r.reverse ++ ')' :: q.reverse).dropWhile isBlank = ')' :: q.reverse := by
    change skipBlank (r.reverse ++ ')' :: q.reverse) = _
    rw [skipBlank_blanks_append (fun c hc => hr c (List.mem_reverse.1 hc)),
      skipBlank_cons isBlank_close]
  rw [hrev, hdrop]
  simp

/-- **A text reads as a filter exactly when its trimmed text is a node whose
read depends only on what it consumed.** The fuel a text gets is more than
its trimmed text needs. -/
theorem parse_eq_ok_iff {s : String} {g : Filter} :
    parse s = .ok g ↔ ∃ q, trimList s.toList = '(' :: (q ++ [')']) ∧ FilterStable q g := by
  constructor
  · intro h
    unfold parse at h
    dsimp only at h
    split at h
    · cases h
    rcases hread : readFilter (2 * s.toList.length + 2) (skipBlank s.toList) with e | ⟨g', r⟩ <;>
      simp only [hread] at h
    · cases h
    split at h
    case h_2 => cases h
    rename_i hr
    cases h
    obtain ⟨q, hbody, hstable⟩ := (reader_stable _).1 _ _ _ hread
    -- what the read left is blanks, which trimming drops
    refine ⟨q, ?_, hstable⟩
    rw [trimList, show trimFront s.toList = skipBlank s.toList from rfl, hbody]
    exact trimBack_close (q := '(' :: q) (skipBlank_eq_nil hr)
  · rintro ⟨q, htrim, hstable⟩
    obtain ⟨b, hb, hsplit⟩ := trimBack_split (skipBlank s.toList)
    have hbody : skipBlank s.toList = '(' :: (q ++ ')' :: b) := by
      rw [hsplit, show trimBack (skipBlank s.toList) = trimList s.toList from rfl, htrim]
      simp
    have hlen : q.length < 2 * s.toList.length + 2 := by
      have hsuffix : skipBlank s.toList <:+ s.toList := List.dropWhile_suffix isBlank
      have := hsuffix.length_le
      rw [hbody] at this
      simp at this
      omega
    have hb' : skipBlank b = [] := List.dropWhile_eq_nil_iff.2 hb
    unfold parse
    simp only [hbody, hstable _ _ hlen, hb']

/-- A node's negation reads as the node does, with one unit of fuel more. -/
theorem FilterStable.negate {q : List Char} {g : Filter} (h : FilterStable q g) :
    FilterStable ('!' :: '(' :: (q ++ [')'])) (.not g) := by
  intro k r hk
  simp only [List.length_cons, List.length_append, List.length_nil] at hk
  obtain ⟨k, rfl⟩ : ∃ k', k = k' + 1 := ⟨k - 1, by omega⟩
  have hinner : readFilter k (skipBlank ('(' :: (q ++ ')' :: ')' :: r))) = .ok (g, ')' :: r) := by
    rw [skipBlank_cons isBlank_open]
    exact h k _ (by omega)
  have htext : '(' :: ('!' :: '(' :: (q ++ [')']) ++ ')' :: r) =
      '(' :: '!' :: ('(' :: (q ++ ')' :: ')' :: r)) := by
    simp
  rw [htext, readFilter_not (skipBlank_cons isBlank_bang _) hinner]
  simp only [close, skipBlank_cons isBlank_close]

/-- **What the read of a negation consumed**: when the text after `!` is
trimmed, the node it reads is all of that text. -/
theorem FilterStable.of_negate {t : List Char} {G : Filter} (ht : trimList t = t)
    (h : FilterStable ('!' :: t) G) :
    ∃ q g, t = '(' :: (q ++ [')']) ∧ FilterStable q g ∧ G = .not g := by
  have hread := h (t.length + 2) [] (by simp)
  obtain ⟨r0, hr0, hcases⟩ := readFilter_succ_ok hread
  cases hr0
  have hsk : skipBlank ('!' :: t ++ [')']) = '!' :: (t ++ [')']) := skipBlank_cons isBlank_bang _
  rcases hcases with ⟨r1, r2, g, gs, heq, -⟩ | ⟨r1, r2, g, gs, heq, -⟩ |
      ⟨r1, r2, g, heq, hg, rfl, hclose⟩ | ⟨r2, -, -, hbang, -⟩
  · rw [hsk] at heq
    cases heq
  · rw [hsk] at heq
    cases heq
  · rw [hsk] at heq
    cases heq
    have hsk1 : skipBlank (t ++ [')']) = t ++ [')'] := by
      cases t with
      | nil => exact skipBlank_cons isBlank_close _
      | cons c t' =>
        have hc := head?_trimList (c :: t')
        rw [ht] at hc
        exact skipBlank_cons (hc c rfl) _
    rw [hsk1] at hg
    obtain ⟨q, hq, hstable⟩ := (reader_stable _).1 _ _ _ hg
    obtain ⟨b, hb, hr2⟩ := skipBlank_split r2
    rw [hclose] at hr2
    have ht' : t = '(' :: (q ++ ')' :: b) := by
      have happ : t ++ [')'] = '(' :: (q ++ ')' :: b) ++ [')'] := by
        rw [hq, hr2]
        simp
      exact List.append_cancel_right happ
    -- no blanks stand before the last parenthesis: the trimmed text does not end with one
    have hbnil : b = [] := by
      rcases List.eq_nil_or_concat b with rfl | ⟨b', x, rfl⟩
      · rfl
      · have hlast := getLast?_trimList t
        have hshape : '(' :: (q ++ ')' :: b'.concat x) = '(' :: (q ++ ')' :: b') ++ [x] := by simp
        rw [ht, ht', hshape, List.getLast?_concat] at hlast
        have hx : isBlank x = false := hlast x rfl
        rw [hb x (by simp)] at hx
        cases hx
    subst hbnil
    exact ⟨q, g, ht', hstable, rfl⟩
  · rw [hsk] at hbang
    exact absurd rfl hbang

/-- **The text of a filter, trimmed and wrapped in `(!` and `)`, reads exactly
when the text does, and then as the negation of what the text reads as.** -/
theorem parse_negate_iff {f : String} {G : Filter} :
    parse ("(!" ++ trim f ++ ")") = .ok G ↔ ∃ F, parse f = .ok F ∧ G = .not F := by
  have htext : ("(!" ++ trim f ++ ")").toList = '(' :: ('!' :: trimList f.toList ++ [')']) := by
    simp [String.toList_append, trim, String.toList_ofList]
  have htrim : trimList ("(!" ++ trim f ++ ")").toList = ("(!" ++ trim f ++ ")").toList :=
    trimList_eq_self (by simp [htext]) (by rw [htext, ← List.cons_append, List.getLast?_concat]; simp)
  rw [parse_eq_ok_iff, htrim, htext]
  constructor
  · rintro ⟨q', hq', hstable⟩
    have hq'' : q' = '!' :: trimList f.toList :=
      (List.append_cancel_right (List.cons.inj hq').2).symm
    subst hq''
    obtain ⟨q, g, ht, hq, rfl⟩ := FilterStable.of_negate (trimList_trimList _) hstable
    exact ⟨g, parse_eq_ok_iff.2 ⟨q, ht, hq⟩, rfl⟩
  · rintro ⟨F, hF, rfl⟩
    obtain ⟨q, ht, hq⟩ := parse_eq_ok_iff.1 hF
    exact ⟨'!' :: '(' :: (q ++ [')']), by rw [ht], hq.negate⟩

/-- **The text of a filter, trimmed and wrapped in `(!` and `)`, reads as the
negation of the filter.** -/
theorem parse_negate {f : String} {F : Filter} (h : parse f = .ok F) :
    parse ("(!" ++ trim f ++ ")") = .ok (.not F) :=
  parse_negate_iff.2 ⟨F, h, rfl⟩

/-- The wrapped text fails to read exactly when the text does. -/
theorem parse_negate_error_iff {f : String} :
    (∃ e, parse ("(!" ++ trim f ++ ")") = .error e) ↔ ∃ e, parse f = .error e := by
  rcases hw : parse ("(!" ++ trim f ++ ")") with e | G <;> rcases hF : parse f with e' | F
  · exact ⟨fun _ => ⟨e', rfl⟩, fun _ => ⟨e, rfl⟩⟩
  · rw [parse_negate hF] at hw
    cases hw
  · obtain ⟨F, hF', -⟩ := parse_negate_iff.1 hw
    rw [hF'] at hF
    cases hF
  · simp

end Depot.Filter

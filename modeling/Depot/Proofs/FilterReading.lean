import Depot.Filter.Parser

/-!
# Reading filters: a read depends only on what it consumes

The reader of filters looks at its text one character at a time and stops at
the `)` that closes the node it reads. So a successful read of a text
`p ++ r` that leaves `r` unread gives the same filter on `p` followed by any
other rest (`Depot.Filter.FilterStable`), and it needs no more fuel than the
length of `p`. A list of filters ends where the next character does not open
one, so it is stable under the rests that do not open one either
(`Depot.Filter.ListStable`). Both facts are proved together, by induction on
the fuel (`Depot.Filter.reader_stable`), from one lemma for each kind of read
that says what a successful read is made of (`Depot.Filter.readFilter_succ_ok`,
`Depot.Filter.readList_succ_ok`, `Depot.Filter.readItem_eq_ok`).

The main use is the text a negation writes: wrapped in `(!` and `)`, a text
reads as the negation of what it reads as, and reads only if it does
(`Depot.Filter.parse_negate_iff`).
-/

namespace Depot.Filter

open Text

/-! ### Blanks -/

@[simp] theorem isBlank_open : isBlank '(' = false := by decide
@[simp] theorem isBlank_close : isBlank ')' = false := by decide
@[simp] theorem isBlank_bang : isBlank '!' = false := by decide
@[simp] theorem isBlank_amp : isBlank '&' = false := by decide
@[simp] theorem isBlank_bar : isBlank '|' = false := by decide

/-- Blanks in front of a text are skipped. -/
theorem skipBlank_blanks_append {b : List Char} (hb : ∀ c ∈ b, isBlank c = true)
    (cs : List Char) : skipBlank (b ++ cs) = skipBlank cs := by
  induction b with
  | nil => rfl
  | cons c b ih =>
    rw [List.cons_append, skipBlank, List.dropWhile_cons_of_pos (hb c List.mem_cons_self)]
    exact ih fun x hx => hb x (List.mem_cons_of_mem c hx)

theorem skipBlank_cons {c : Char} (hc : isBlank c = false) (cs : List Char) :
    skipBlank (c :: cs) = c :: cs :=
  List.dropWhile_cons_of_neg (by simp [hc])

/-- What skipping blanks passed over is blanks. -/
theorem skipBlank_split (cs : List Char) :
    ∃ b, (∀ c ∈ b, isBlank c = true) ∧ cs = b ++ skipBlank cs :=
  ⟨cs.takeWhile isBlank, fun _ hc => List.all_eq_true.1 List.all_takeWhile _ hc,
    List.takeWhile_append_dropWhile.symm⟩

theorem skipBlank_skipBlank (cs : List Char) : skipBlank (skipBlank cs) = skipBlank cs := by
  obtain ⟨b, hb, hcs⟩ := skipBlank_split cs
  calc skipBlank (skipBlank cs) = skipBlank (b ++ skipBlank cs) := (skipBlank_blanks_append hb _).symm
    _ = skipBlank cs := by rw [← hcs]

theorem skipBlank_eq_nil {cs : List Char} (h : skipBlank cs = []) : ∀ c ∈ cs, isBlank c = true := by
  obtain ⟨b, hb, hcs⟩ := skipBlank_split cs
  rw [h, List.append_nil] at hcs
  exact hcs ▸ hb

/-! ### Leaves

Each part of a leaf stops at a character it leaves unread: the name at the first
character of the operator, the operand at the `)` that closes the leaf. -/

theorem readAttr_ok {cs a r : List Char} (h : readAttr cs = .ok (a, r)) (hr : r ≠ []) :
    cs = a ++ r ∧ ∀ r', r'.head? = r.head? → readAttr (a ++ r') = .ok (a, r') := by
  fun_induction readAttr cs generalizing a r with
  | case1 =>
    cases h
    exact absurd rfl hr
  | case2 c cs hends =>
    cases h
    refine ⟨rfl, fun r' hr' => ?_⟩
    obtain ⟨r'', rfl⟩ : ∃ r'', r' = c :: r'' := by
      cases r' with
      | nil => cases hr'
      | cons d r'' => exact ⟨r'', by simpa using hr'⟩
    simp [readAttr, hends]
  | case4 c cs hends hbad a' r1 hrec ih =>
    cases h
    obtain ⟨rfl, hstable⟩ := ih hrec hr
    exact ⟨rfl, fun r' hr' => by simp [readAttr, hends, hbad, hstable r' hr']⟩
  | _ => cases h

theorem readOp_ok {cs : List Char} {op : Op} {r : List Char} (h : readOp cs = some (op, r)) :
    ∃ p, p ≠ [] ∧ cs = p ++ r ∧ ∀ r', readOp (p ++ r') = some (op, r') := by
  unfold readOp at h
  split at h <;> cases h
  · exact ⟨['='], by simp, rfl, fun r' => rfl⟩
  · exact ⟨['~', '='], by simp, rfl, fun r' => rfl⟩
  · exact ⟨['>', '='], by simp, rfl, fun r' => rfl⟩
  · exact ⟨['<', '='], by simp, rfl, fun r' => rfl⟩

theorem readOperand_ok {cs : List Char} {v : List Char × List (List Char)} {r : List Char}
    (h : readOperand cs = .ok (v, r)) :
    ∃ p r0, cs = p ++ ')' :: r0 ∧ r = ')' :: r0 ∧
      ∀ r', readOperand (p ++ ')' :: r') = .ok (v, ')' :: r') := by
  fun_induction readOperand cs generalizing v r with
  | case2 r0 =>
    cases h
    exact ⟨[], r0, rfl, rfl, fun r' => by simp [readOperand]⟩
  | case5 c r0 s ss rest hr ih =>
    cases h
    obtain ⟨p, r1, rfl, rfl, hp⟩ := ih hr
    exact ⟨'\\' :: c :: p, r1, rfl, rfl, fun r' => by simp [readOperand, hp r']⟩
  | case7 r0 s ss rest hr ih =>
    cases h
    obtain ⟨p, r1, rfl, rfl, hp⟩ := ih hr
    exact ⟨'*' :: p, r1, rfl, rfl, fun r' => by simp [readOperand, hp r']⟩
  | case9 c r0 hclose hopen hlast hescape hstar s ss rest hr ih =>
    cases h
    obtain ⟨p, r1, rfl, rfl, hp⟩ := ih hr
    -- a backslash is always read as an escape, never as a plain character
    have hc : c ≠ '\\' := fun hc => by
      cases hp' : p ++ ')' :: r1 with
      | nil => simp at hp'
      | cons d r => exact hescape d r hc hp'
    refine ⟨c :: p, r1, rfl, rfl, fun r' => ?_⟩
    rw [List.cons_append, readOperand.eq_7 c _ hclose hopen (fun h => absurd h hc)
      (fun _ _ h => absurd h hc) hstar, hp r']
  | _ => cases h

theorem leaf_ok {attr : String} {op : Op} {s : List Char} {ss : List (List Char)}
    {r r0 : List Char} {f : Filter} (h : leaf attr op s ss r = .ok (f, r0)) :
    r0 = r ∧ ∀ r', leaf attr op s ss r' = .ok (f, r') := by
  unfold leaf at h ⊢
  split at h
  · cases h
    exact ⟨rfl, fun r' => rfl⟩
  · split at h <;> cases h <;> exact ⟨rfl, fun r' => by simp_all⟩
  · cases h

/-- **What a successful read of a leaf is made of**: a name that is not blank
once trimmed, an operator, an operand, and the leaf they make. -/
theorem readItem_eq_ok {cs r : List Char} {f : Filter} (h : readItem cs = .ok (f, r)) :
    ∃ raw r1 op r2 s ss r3, readAttr cs = .ok (raw, r1) ∧ trimList raw ≠ [] ∧
      readOp r1 = some (op, r2) ∧ readOperand r2 = .ok ((s, ss), r3) ∧
      leaf (String.ofList (trimList raw)) op s ss r3 = .ok (f, r) := by
  unfold readItem at h
  rcases hattr : readAttr cs with e | ⟨raw, r1⟩ <;> simp only [hattr] at h
  · cases h
  by_cases hne : trimList raw = []
  · simp [hne] at h
  rw [if_neg hne] at h
  rcases hop : readOp r1 with _ | ⟨op, r2⟩ <;> simp only [hop] at h
  · cases h
  rcases hoperand : readOperand r2 with e | ⟨⟨s, ss⟩, r3⟩ <;> simp only [hoperand] at h
  · cases h
  exact ⟨raw, r1, op, r2, s, ss, r3, rfl, hne, hop, hoperand, h⟩

/-- **A leaf is read up to the `)` that closes it**, whatever follows. -/
theorem readItem_ok {cs r : List Char} {f : Filter} (h : readItem cs = .ok (f, r)) :
    ∃ p r0, cs = p ++ ')' :: r0 ∧ r = ')' :: r0 ∧
      ∀ r', readItem (p ++ ')' :: r') = .ok (f, ')' :: r') := by
  obtain ⟨rawAttr, r1, op, r2, s, ss, r3, hattr, hne, hop, hoperand, h⟩ := readItem_eq_ok h
  obtain ⟨po, hpo, rfl, hpo'⟩ := readOp_ok hop
  obtain ⟨hcs, hattr'⟩ := readAttr_ok hattr (by simp [hpo])
  obtain ⟨pv, r0, rfl, rfl, hpv⟩ := readOperand_ok hoperand
  obtain ⟨rfl, hleaf⟩ := leaf_ok h
  refine ⟨rawAttr ++ po ++ pv, r0, by simp [hcs], rfl, fun r' => ?_⟩
  obtain ⟨c, po, rfl⟩ := List.exists_cons_of_ne_nil hpo
  have hname : readAttr (rawAttr ++ (c :: po ++ (pv ++ ')' :: r'))) =
      .ok (rawAttr, c :: po ++ (pv ++ ')' :: r')) := hattr' _ (by simp)
  simp only [readItem, List.append_assoc, hname, if_neg hne, hpo', hpv, hleaf]

/-! ### Nodes and lists of nodes -/

theorem close_ok {f g : Filter} {cs r : List Char} (h : close f cs = .ok (g, r)) :
    g = f ∧ skipBlank cs = ')' :: r := by
  unfold close at h
  split at h
  · cases h
    exact ⟨rfl, by assumption⟩
  · cases h

/-- A list of nodes ends with the blanks before the rest skipped. -/
theorem readList_rest {n : Nat} {cs : List Char} {fs : List Filter} {r : List Char}
    (h : readList n cs = .ok (fs, r)) : skipBlank r = r := by
  induction n generalizing cs fs r with
  | zero =>
    cases h
    exact skipBlank_skipBlank cs
  | succ n ih =>
    rw [readList.eq_2] at h
    split at h
    · split at h
      · split at h
        · cases h
          exact ih (by assumption)
        · cases h
      · cases h
    · cases h
      exact skipBlank_skipBlank cs

/-- A list of nodes is empty when the rest after the blanks does not open a
node. -/
theorem readList_of_not_open (k : Nat) {b r : List Char} (hb : ∀ c ∈ b, isBlank c = true)
    (hr : skipBlank r = r) (hopen : r.head? ≠ some '(') : readList k (b ++ r) = .ok ([], r) := by
  cases k with
  | zero => simp [readList, skipBlank_blanks_append hb, hr]
  | succ k =>
    rw [readList.eq_2, skipBlank_blanks_append hb, hr]
    split
    · simp at hopen
    · rfl

/-- **A read of a node that depends only on the text it consumed**, `(`, `q`
and `)`: with more fuel than the length of `q`, that text followed by any rest
reads as the same filter and leaves that rest. -/
def FilterStable (q : List Char) (f : Filter) : Prop :=
  ∀ k r', q.length < k → readFilter k ('(' :: (q ++ ')' :: r')) = .ok (f, r')

/-- The same for a list of nodes, which stops at a rest that does not open a
node and has no blank in front; it needs one unit of fuel for each character it
consumed. -/
def ListStable (p : List Char) (fs : List Filter) : Prop :=
  ∀ k r', p.length ≤ k → skipBlank r' = r' → r'.head? ≠ some '(' →
    readList k (p ++ r') = .ok (fs, r')

theorem readFilter_ok_open {n : Nat} {cs r : List Char} {f : Filter}
    (h : readFilter n cs = .ok (f, r)) : ∃ r0, cs = '(' :: r0 := by
  cases n with
  | zero => cases h
  | succ n =>
    unfold readFilter at h
    split at h
    · exact ⟨_, rfl⟩
    · cases h

theorem skipBlank_head {cs r : List Char} {c : Char} (h : skipBlank cs = c :: r) :
    isBlank c = false :=
  trimFront_head h

/-! The successful paths of a node, one equation for each kind of node. -/

theorem readFilter_and {k : Nat} {r0 r1 r2 : List Char} {g : Filter} {gs : List Filter}
    (h : skipBlank r0 = '&' :: r1) (hl : readList k r1 = .ok (g :: gs, r2)) :
    readFilter (k + 1) ('(' :: r0) = close (.and (g :: gs)) r2 := by
  rw [readFilter.eq_2, h]
  simp only [hl]

theorem readFilter_or {k : Nat} {r0 r1 r2 : List Char} {g : Filter} {gs : List Filter}
    (h : skipBlank r0 = '|' :: r1) (hl : readList k r1 = .ok (g :: gs, r2)) :
    readFilter (k + 1) ('(' :: r0) = close (.or (g :: gs)) r2 := by
  rw [readFilter.eq_2, h]
  simp only [hl]

theorem readFilter_not {k : Nat} {r0 r1 r2 : List Char} {g : Filter}
    (h : skipBlank r0 = '!' :: r1) (hg : readFilter k (skipBlank r1) = .ok (g, r2)) :
    readFilter (k + 1) ('(' :: r0) = close (.not g) r2 := by
  rw [readFilter.eq_2, h]
  simp only [hg]

/-- The node that follows `(` and blanks is a leaf unless it starts with `&`, `|`
or `!`. -/
theorem readFilter_leaf {k : Nat} {r0 r2 : List Char} {g : Filter} (hne : skipBlank r0 ≠ [])
    (hamp : (skipBlank r0).head? ≠ some '&') (hbar : (skipBlank r0).head? ≠ some '|')
    (hbang : (skipBlank r0).head? ≠ some '!') (hi : readItem (skipBlank r0) = .ok (g, r2)) :
    readFilter (k + 1) ('(' :: r0) = close g r2 := by
  rw [readFilter.eq_2]
  split
  case h_5 => simp only [hi]
  all_goals simp_all

/-- **What a successful read of a node is made of**: `(`, then after blanks a
`&` or `|` and a list with a node in it, a `!` and a node, or a leaf that starts
with none of these; then `)` after blanks. -/
theorem readFilter_succ_ok {n : Nat} {cs r : List Char} {f : Filter}
    (h : readFilter (n + 1) cs = .ok (f, r)) :
    ∃ r0, cs = '(' :: r0 ∧
      ((∃ r1 r2 g gs, skipBlank r0 = '&' :: r1 ∧ readList n r1 = .ok (g :: gs, r2) ∧
          f = .and (g :: gs) ∧ skipBlank r2 = ')' :: r) ∨
        (∃ r1 r2 g gs, skipBlank r0 = '|' :: r1 ∧ readList n r1 = .ok (g :: gs, r2) ∧
          f = .or (g :: gs) ∧ skipBlank r2 = ')' :: r) ∨
        (∃ r1 r2 g, skipBlank r0 = '!' :: r1 ∧ readFilter n (skipBlank r1) = .ok (g, r2) ∧
          f = .not g ∧ skipBlank r2 = ')' :: r) ∨
        (∃ r2, (skipBlank r0).head? ≠ some '&' ∧ (skipBlank r0).head? ≠ some '|' ∧
          (skipBlank r0).head? ≠ some '!' ∧ readItem (skipBlank r0) = .ok (f, r2) ∧
          skipBlank r2 = ')' :: r)) := by
  obtain ⟨r0, rfl⟩ := readFilter_ok_open h
  refine ⟨r0, rfl, ?_⟩
  rw [readFilter.eq_2] at h
  -- the character after the opening parenthesis chooses the kind of node
  split at h
  · rename_i r1 heq
    rcases hl : readList n r1 with e | ⟨_ | ⟨g, gs⟩, r2⟩ <;> simp only [hl] at h
    · cases h
    · cases h
    · obtain ⟨rfl, hclose⟩ := close_ok h
      exact .inl ⟨r1, r2, g, gs, heq, hl, rfl, hclose⟩
  · rename_i r1 heq
    rcases hl : readList n r1 with e | ⟨_ | ⟨g, gs⟩, r2⟩ <;> simp only [hl] at h
    · cases h
    · cases h
    · obtain ⟨rfl, hclose⟩ := close_ok h
      exact .inr (.inl ⟨r1, r2, g, gs, heq, hl, rfl, hclose⟩)
  · rename_i r1 heq
    rcases hg : readFilter n (skipBlank r1) with e | ⟨g, r2⟩ <;> simp only [hg] at h
    · cases h
    · obtain ⟨rfl, hclose⟩ := close_ok h
      exact .inr (.inr (.inl ⟨r1, r2, g, heq, hg, rfl, hclose⟩))
  · cases h
  · rename_i hamp hbar hbang _
    rcases hi : readItem (skipBlank r0) with e | ⟨g, r2⟩ <;> simp only [hi] at h
    · cases h
    · obtain ⟨rfl, hclose⟩ := close_ok h
      refine .inr (.inr (.inr ⟨r2, ?_, ?_, ?_, rfl, hclose⟩)) <;> intro hhead <;>
        obtain ⟨r1, hr1⟩ := List.head?_eq_some_iff.1 hhead
      · exact hamp r1 hr1
      · exact hbar r1 hr1
      · exact hbang r1 hr1

/-- **What a successful read of a list is made of**: a node after blanks and
the rest of the list, or nothing when the next character after blanks does not
open a node. -/
theorem readList_succ_ok {n : Nat} {cs r : List Char} {fs : List Filter}
    (h : readList (n + 1) cs = .ok (fs, r)) :
    (∃ r0 r1 g gs, skipBlank cs = '(' :: r0 ∧ readFilter n ('(' :: r0) = .ok (g, r1) ∧
        readList n r1 = .ok (gs, r) ∧ fs = g :: gs) ∨
      (fs = [] ∧ r = skipBlank cs ∧ r.head? ≠ some '(') := by
  rw [readList.eq_2] at h
  split at h
  · rename_i r0 heq
    rcases hf : readFilter n ('(' :: r0) with e | ⟨g, r1⟩ <;> simp only [hf] at h
    · cases h
    rcases hl : readList n r1 with e | ⟨gs, r2⟩ <;> simp only [hl] at h
    · cases h
    cases h
    exact .inl ⟨r0, r1, g, gs, heq, hf, hl, rfl⟩
  · rename_i hopen
    cases h
    refine .inr ⟨rfl, rfl, fun hhead => ?_⟩
    obtain ⟨r0, hr0⟩ := List.head?_eq_some_iff.1 hhead
    exact hopen r0 hr0

/-! ### Stability, by induction on the fuel

For each kind of node, stability of the read follows from stability of the
reads it makes, with one unit of fuel less. -/

/-- What the induction carries for nodes. -/
def NodesStable (n : Nat) : Prop :=
  ∀ cs f r, readFilter n cs = .ok (f, r) → ∃ q, cs = '(' :: (q ++ ')' :: r) ∧ FilterStable q f

/-- What the induction carries for lists of nodes. -/
def ListsStable (n : Nat) : Prop :=
  ∀ cs fs r, readList n cs = .ok (fs, r) → r.head? ≠ some '(' →
    ∃ p, cs = p ++ r ∧ ListStable p fs

section Step

variable {n : Nat}

theorem stable_list_node (ihL : ListsStable n) {opc : Char} (hopc : isBlank opc = false)
    {mk : List Filter → Filter}
    (hstep : ∀ {k r0 r1 r2 g gs}, skipBlank r0 = opc :: r1 → readList k r1 = .ok (g :: gs, r2) →
      readFilter (k + 1) ('(' :: r0) = close (mk (g :: gs)) r2)
    {r0 r1 r2 r : List Char} {g : Filter} {gs : List Filter} (heq : skipBlank r0 = opc :: r1)
    (hl : readList n r1 = .ok (g :: gs, r2)) (hclose : skipBlank r2 = ')' :: r) :
    ∃ q, '(' :: r0 = '(' :: (q ++ ')' :: r) ∧ FilterStable q (mk (g :: gs)) := by
  obtain ⟨b0, hb0, hr0⟩ := skipBlank_split r0
  have hr2 : r2 = ')' :: r := (readList_rest hl).symm.trans hclose
  subst hr2
  obtain ⟨pl, hpl, hstable⟩ := ihL r1 _ _ hl (by simp)
  refine ⟨b0 ++ opc :: pl, by rw [hr0, heq, hpl]; simp, fun k r' hk => ?_⟩
  obtain ⟨k, rfl⟩ : ∃ k', k = k' + 1 := ⟨k - 1, by simp at hk; omega⟩
  have hsk : skipBlank (b0 ++ opc :: pl ++ ')' :: r') = opc :: (pl ++ ')' :: r') := by
    rw [List.append_assoc, skipBlank_blanks_append hb0, List.cons_append, skipBlank_cons hopc]
  have hl' := hstable k (')' :: r') (by simp at hk; omega) (skipBlank_cons isBlank_close _)
    (by simp)
  rw [hstep hsk hl']
  simp [close, skipBlank_cons]

theorem stable_not_node (ihF : NodesStable n) {r0 r1 r2 r : List Char} {g : Filter}
    (heq : skipBlank r0 = '!' :: r1) (hg : readFilter n (skipBlank r1) = .ok (g, r2))
    (hclose : skipBlank r2 = ')' :: r) :
    ∃ q, '(' :: r0 = '(' :: (q ++ ')' :: r) ∧ FilterStable q (.not g) := by
  obtain ⟨b0, hb0, hr0⟩ := skipBlank_split r0
  obtain ⟨b1, hb1, hr1⟩ := skipBlank_split r1
  obtain ⟨b2, hb2, hr2⟩ := skipBlank_split r2
  obtain ⟨qg, hqg, hstable⟩ := ihF _ _ _ hg
  rw [hclose] at hr2
  refine ⟨b0 ++ '!' :: (b1 ++ '(' :: (qg ++ ')' :: b2)), ?_, fun k r' hk => ?_⟩
  · rw [hr0, heq, hr1, hqg, hr2]
    simp
  · obtain ⟨k, rfl⟩ : ∃ k', k = k' + 1 := ⟨k - 1, by simp at hk; omega⟩
    have hsk0 : skipBlank (b0 ++ '!' :: (b1 ++ '(' :: (qg ++ ')' :: b2)) ++ ')' :: r') =
        '!' :: (b1 ++ '(' :: (qg ++ ')' :: (b2 ++ ')' :: r'))) := by
      rw [List.append_assoc, skipBlank_blanks_append hb0]
      simp [skipBlank_cons]
    have hsk1 : skipBlank (b1 ++ '(' :: (qg ++ ')' :: (b2 ++ ')' :: r'))) =
        '(' :: (qg ++ ')' :: (b2 ++ ')' :: r')) := by
      rw [skipBlank_blanks_append hb1, skipBlank_cons isBlank_open]
    have hg' := hstable k (b2 ++ ')' :: r') (by simp at hk; omega)
    rw [readFilter_not hsk0 (by rw [hsk1]; exact hg')]
    simp [close, skipBlank_blanks_append hb2, skipBlank_cons]

theorem stable_leaf {r0 r2 r : List Char} {g : Filter}
    (hamp : (skipBlank r0).head? ≠ some '&') (hbar : (skipBlank r0).head? ≠ some '|')
    (hbang : (skipBlank r0).head? ≠ some '!') (hi : readItem (skipBlank r0) = .ok (g, r2))
    (hclose : skipBlank r2 = ')' :: r) :
    ∃ q, '(' :: r0 = '(' :: (q ++ ')' :: r) ∧ FilterStable q g := by
  obtain ⟨b0, hb0, hr0⟩ := skipBlank_split r0
  obtain ⟨pi, r3, hpi, rfl, hstable⟩ := readItem_ok hi
  rw [skipBlank_cons isBlank_close] at hclose
  cases hclose
  refine ⟨b0 ++ pi, by rw [hr0, hpi]; simp, fun k r' hk => ?_⟩
  obtain ⟨k, rfl⟩ : ∃ k', k = k' + 1 := ⟨k - 1, by simp at hk; omega⟩
  have hsk : skipBlank (b0 ++ pi ++ ')' :: r') = pi ++ ')' :: r' := by
    rw [List.append_assoc, skipBlank_blanks_append hb0]
    cases pi with
    | nil => exact skipBlank_cons isBlank_close _
    | cons c pi => exact skipBlank_cons (skipBlank_head hpi) _
  have hhead : (pi ++ ')' :: r').head? = (skipBlank r0).head? := by
    rw [hpi]
    cases pi <;> rfl
  rw [readFilter_leaf (by rw [hsk]; simp) (by rwa [hsk, hhead]) (by rwa [hsk, hhead])
    (by rwa [hsk, hhead]) (by rw [hsk]; exact hstable r')]
  simp [close, skipBlank_cons]

theorem stable_list_cons (ihF : NodesStable n) (ihL : ListsStable n) {cs r0 r1 r : List Char}
    {g : Filter} {gs : List Filter} (heq : skipBlank cs = '(' :: r0)
    (hf : readFilter n ('(' :: r0) = .ok (g, r1)) (hl : readList n r1 = .ok (gs, r))
    (hopen : r.head? ≠ some '(') : ∃ p, cs = p ++ r ∧ ListStable p (g :: gs) := by
  obtain ⟨b, hb, hcs⟩ := skipBlank_split cs
  obtain ⟨q, hq, hgstable⟩ := ihF _ _ _ hf
  obtain ⟨pl, rfl, hpl⟩ := ihL _ _ _ hl hopen
  refine ⟨b ++ '(' :: (q ++ ')' :: pl), by rw [hcs, heq, hq]; simp, fun k r' hk hr' hopen' => ?_⟩
  obtain ⟨k, rfl⟩ : ∃ k', k = k' + 1 := ⟨k - 1, by simp at hk; omega⟩
  have hsk : skipBlank (b ++ '(' :: (q ++ ')' :: pl) ++ r') = '(' :: (q ++ ')' :: (pl ++ r')) := by
    rw [List.append_assoc, skipBlank_blanks_append hb]
    simp [skipBlank_cons]
  rw [readList.eq_2, hsk]
  simp only [hgstable k (pl ++ r') (by simp at hk; omega), hpl k r' (by simp at hk; omega) hr' hopen']

end Step

/-- **A successful read depends only on what it consumed**, and on no more fuel
than its length: nodes and lists of nodes together, by induction on the fuel. -/
theorem reader_stable (n : Nat) : NodesStable n ∧ ListsStable n := by
  induction n with
  | zero =>
    refine ⟨fun cs f r h => (by cases h), fun cs fs r h _ => ?_⟩
    rw [readList.eq_1] at h
    cases h
    obtain ⟨b, hb, hcs⟩ := skipBlank_split cs
    exact ⟨b, hcs, fun k r' _ hr' hopen => readList_of_not_open k hb hr' hopen⟩
  | succ n ih =>
    obtain ⟨ihF, ihL⟩ := ih
    refine ⟨fun cs f r h => ?_, fun cs fs r h hopen => ?_⟩
    · -- a node: one case for each kind
      obtain ⟨r0, rfl, ⟨r1, r2, g, gs, heq, hl, rfl, hclose⟩ | ⟨r1, r2, g, gs, heq, hl, rfl, hclose⟩ |
          ⟨r1, r2, g, heq, hg, rfl, hclose⟩ | ⟨r2, hamp, hbar, hbang, hi, hclose⟩⟩ :=
        readFilter_succ_ok h
      · exact stable_list_node ihL isBlank_amp readFilter_and heq hl hclose
      · exact stable_list_node ihL isBlank_bar readFilter_or heq hl hclose
      · exact stable_not_node ihF heq hg hclose
      · exact stable_leaf hamp hbar hbang hi hclose
    · -- a list: another node if the next character opens one
      rcases readList_succ_ok h with ⟨r0, r1, g, gs, heq, hf, hl, rfl⟩ | ⟨rfl, rfl, -⟩
      · exact stable_list_cons ihF ihL heq hf hl hopen
      · obtain ⟨b, hb, hcs⟩ := skipBlank_split cs
        exact ⟨b, hcs, fun k r' _ hr' hopen' => readList_of_not_open k hb hr' hopen'⟩

end Depot.Filter

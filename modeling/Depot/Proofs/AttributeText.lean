import Depot.Proofs.ScalarText

/-!
# Attribute values through their text

`Depot.Value.encode` writes a value as a type spec and a raw text, and
`Depot.Value.decode` reads them back. The main statement,
`Depot.Value.decode_encode_lossless`, says where this loses nothing: a value
reads back as an equal value exactly under the conditions of
`Depot.Value.Lossless`, and every value that reading gives meets them, so
reading and writing again keeps what was read.

A list's raw text is the delicate part. Its elements are escaped, joined by
commas, and the whole is trimmed before it is cut and each piece trimmed again.
The escaped elements survive this because

* an escaped element is one field: the cut drops its backslashes and stops at
  the comma after it (`Depot.ListText.fields_escape_append`);
* the ends of the joined text are ends of elements, commas or backslashes, none
  of them blank when the elements have no blank at their ends
  (`Depot.ListText.trimList_intercalate`);
* joined text is empty only for the empty list and the list of one empty text
  (`Depot.ListText.split_intercalate`); the second is the one list that does
  not come back, and no text reads as it (`Depot.ListText.split_ne_singleton_empty`).
-/

namespace Depot

namespace ListText

/-! ### Cutting at unprotected commas -/

theorem fields_comma (rest : List Char) :
    fields (',' :: rest) = ([], (fields rest).1 :: (fields rest).2) := by
  rw [fields]

theorem fields_backslash (c : Char) (rest : List Char) :
    fields ('\\' :: c :: rest) = (c :: (fields rest).1, (fields rest).2) := by
  rw [fields]

theorem fields_plain {c : Char} (h1 : c ≠ '\\') (h2 : c ≠ ',') (rest : List Char) :
    fields (c :: rest) = (c :: (fields rest).1, (fields rest).2) := by
  rw [fields]
  · exact fun h => absurd h h1
  · exact fun _ _ h => absurd h h1
  · exact h2

/-- **Escaped text is one field**: cutting it and what follows keeps it whole,
its backslashes dropped, at the front of the first field. -/
theorem fields_escape_append (cs rest : List Char) :
    fields (escape cs ++ rest) = (cs ++ (fields rest).1, (fields rest).2) := by
  induction cs with
  | nil => rfl
  | cons c cs ih =>
    by_cases hc : c = ',' ∨ c = '\\'
    · rw [escape, if_pos hc, List.cons_append, List.cons_append, fields_backslash, ih]
      rfl
    · rw [escape, if_neg hc, List.cons_append, fields_plain (by tauto) (by tauto), ih]
      rfl

/-- **Cutting joined text gives back the elements.** -/
theorem fields_intercalate (e : List Char) (es : List (List Char)) :
    fields ([','].intercalate ((e :: es).map escape)) = (e, es) := by
  induction es generalizing e with
  | nil => simpa [fields] using fields_escape_append e []
  | cons e' es ih =>
    rw [List.map_cons, List.map_cons, List.intercalate_cons_cons, List.append_assoc,
      fields_escape_append, List.singleton_append, fields_comma, ← List.map_cons, ih,
      List.append_nil]

/-! ### Trimming and cutting joined text -/

theorem escape_eq_nil_iff {cs : List Char} : escape cs = [] ↔ cs = [] := by
  cases cs with
  | nil => simp [escape]
  | cons c cs => by_cases hc : c = ',' ∨ c = '\\' <;> simp [escape, hc]

theorem head?_escape (cs : List Char) : ∀ c ∈ (escape cs).head?, c = '\\' ∨ c ∈ cs.head? := by
  cases cs with
  | nil => simp [escape]
  | cons c cs => by_cases hc : c = ',' ∨ c = '\\' <;> simp [escape, hc]

theorem getLast?_escape (cs : List Char) : (escape cs).getLast? = cs.getLast? := by
  induction cs with
  | nil => rfl
  | cons c cs ih => by_cases hc : c = ',' ∨ c = '\\' <;> simp [escape, hc, List.getLast?_cons, ih]

/-- Joined text starts with its first element, or with the comma after it. -/
theorem head?_intercalate (e : List Char) (es : List (List Char)) :
    ∀ c ∈ ([','].intercalate ((e :: es).map escape)).head?, c ∈ (escape e).head? ∨ c = ',' := by
  intro c hc
  cases es with
  | nil =>
    rw [List.map_singleton, List.intercalate_singleton] at hc
    exact .inl hc
  | cons e' es =>
    rw [List.map_cons, List.map_cons, List.intercalate_cons_cons, List.append_assoc,
      List.head?_append, Option.mem_def, Option.or_eq_some_iff] at hc
    rcases hc with hc | ⟨-, hc⟩
    · exact .inl hc
    · exact .inr (by simpa using hc.symm)

/-- Joined text ends with its last element, or with the comma before it. -/
theorem getLast?_intercalate (e : List Char) (es : List (List Char)) :
    ∀ c ∈ ([','].intercalate ((e :: es).map escape)).getLast?,
      c = ',' ∨ ∃ e' ∈ e :: es, c ∈ e'.getLast? := by
  induction es generalizing e with
  | nil =>
    intro c hc
    rw [List.map_singleton, List.intercalate_singleton, getLast?_escape] at hc
    exact .inr ⟨e, List.mem_cons_self, hc⟩
  | cons e' es ih =>
    intro c hc
    rw [List.map_cons, List.map_cons, List.intercalate_cons_cons, List.append_assoc,
      List.singleton_append, ← List.map_cons, List.getLast?_append, List.getLast?_cons,
      Option.mem_def, Option.some_or, Option.some_inj] at hc
    -- the last character is the comma only when nothing follows it
    cases hl : ([','].intercalate ((e' :: es).map escape)).getLast? with
    | none =>
      rw [hl] at hc
      exact .inl hc.symm
    | some d =>
      rw [hl, Option.getD_some] at hc
      subst hc
      rcases ih e' d hl with h | ⟨e'', he'', h⟩
      · exact .inl h
      · exact .inr ⟨e'', List.mem_cons_of_mem e he'', h⟩

theorem intercalate_ne_nil {l : List Char} {ls : List (List Char)} (h : l ≠ [] ∨ ls ≠ []) :
    [','].intercalate ((l :: ls).map escape) ≠ [] := by
  cases ls with
  | nil =>
    rw [List.map_singleton, List.intercalate_singleton, Ne, escape_eq_nil_iff]
    simpa using h
  | cons l' ls => simp [List.intercalate_cons_cons]

/-- **Joined text has no blank at its ends** when its elements have none. -/
theorem trimList_intercalate {ls : List (List Char)} (h : ∀ l ∈ ls, Text.trimList l = l) :
    Text.trimList ([','].intercalate (ls.map escape)) = [','].intercalate (ls.map escape) := by
  cases ls with
  | nil => rfl
  | cons l ls =>
    apply Text.trimList_eq_self
    · intro c hc
      rcases head?_intercalate l ls c hc with hc | rfl
      · rcases head?_escape l c hc with rfl | hc
        · decide
        · rw [← h l List.mem_cons_self] at hc
          exact Text.head?_trimList l c hc
      · decide
    · intro c hc
      rcases getLast?_intercalate l ls c hc with rfl | ⟨l', hl', hc⟩
      · decide
      · rw [← h l' hl'] at hc
        exact Text.getLast?_trimList l' c hc

/-- **Joined text cuts back into its elements**, trimmed, unless it is the
join of one empty element. -/
theorem split_intercalate {ls : List (List Char)} (h : ls ≠ [[]]) :
    split ([','].intercalate (ls.map escape)) = ls.map fun l => String.ofList (Text.trimList l) := by
  cases ls with
  | nil => rfl
  | cons l ls =>
    have hne : [','].intercalate ((l :: ls).map escape) ≠ [] := by
      refine intercalate_ne_nil ?_
      by_cases hl : l = []
      · subst hl
        exact .inr fun hls => h (hls ▸ rfl)
      · exact .inl hl
    unfold split
    rw [if_neg hne, fields_intercalate]

/-- Cutting text into one field alone keeps its last character. -/
theorem getLast?_fields {cs : List Char} (h : (fields cs).2 = []) :
    (fields cs).1.getLast? = cs.getLast? := by
  fun_induction fields cs with
  | case1 => rfl
  | case2 => rfl
  | case3 c rest f fs hf ih =>
    rw [hf] at ih
    simp [List.getLast?_cons, ih h]
  | case4 rest f fs hf ih => cases h
  | case5 c rest _ _ _ f fs hf ih =>
    rw [hf] at ih
    simp [List.getLast?_cons, ih h]

/-- **No text that ends in a character other than a blank cuts into one empty
element**: a single field keeps that character. -/
theorem split_ne_singleton_empty {cs : List Char} (h : ∀ c ∈ cs.getLast?, Text.isBlank c = false) :
    split cs ≠ [""] := by
  intro hs
  unfold split at hs
  split_ifs at hs with h0
  obtain ⟨c, hc⟩ := Option.ne_none_iff_exists'.1 (mt List.getLast?_eq_none_iff.1 h0)
  rcases hf : fields cs with ⟨f, fs⟩
  rw [hf] at hs
  dsimp only at hs
  rw [List.map_cons, List.cons.injEq, List.map_eq_nil_iff] at hs
  obtain ⟨hf0, rfl⟩ := hs
  have hlast : f.getLast? = some c := by
    have := getLast?_fields (show (fields cs).2 = [] by rw [hf])
    rwa [hf, hc] at this
  have hblank := Text.trimList_eq_nil_iff.1 (by simpa using hf0) c (List.mem_of_getLast? hlast)
  rw [h c hc] at hblank
  cases hblank

/-- Every element cut from a text has no blank at its ends. -/
theorem trimList_of_mem_split {cs : List Char} :
    ∀ e ∈ split cs, Text.trimList e.toList = e.toList := by
  unfold split
  split_ifs
  · simp
  · simp

/-- The characters of a list's raw text: the escaped elements between commas. -/
theorem toList_join (es : List String) :
    (join es).toList = [','].intercalate ((es.map String.toList).map escape) := by
  simp [join, Function.comp_def]

/-- **A list's raw text cuts back into its elements**, trimmed, unless the list
is the one empty text. -/
theorem split_join {es : List String} (h : es ≠ [""]) : split (join es).toList = es.map Text.trim := by
  have hne : es.map String.toList ≠ [[]] := by
    intro hes
    obtain ⟨e, rfl, he⟩ := List.map_eq_singleton_iff.1 hes
    exact h (by rw [String.toList_eq_nil_iff.1 he])
  rw [toList_join, split_intercalate hne, List.map_map]
  rfl

theorem trimList_join {es : List String} (h : ∀ e ∈ es, Text.trimList e.toList = e.toList) :
    Text.trimList (join es).toList = (join es).toList := by
  rw [toList_join]
  exact trimList_intercalate (by simpa using h)

end ListText

/-! ### Reading type specs and lists -/

namespace Except

variable {ε α β γ : Type} {f : α → Except ε β}

theorem mapM_cons_eq_ok_iff {a : α} {l : List α} {bs : List β} :
    (a :: l).mapM f = .ok bs ↔ ∃ b bs', f a = .ok b ∧ l.mapM f = .ok bs' ∧ bs = b :: bs' := by
  rw [List.mapM_cons]
  cases f a with
  | error e => simp [bind, Except.bind]
  | ok b => cases l.mapM f <;> simp [bind, Except.bind, pure, Except.pure, eq_comm]

/-- **A run over a list succeeds exactly when every element succeeds**, and
gives their results in order. -/
theorem mapM_eq_ok_iff {l : List α} {bs : List β} :
    l.mapM f = .ok bs ↔ List.Forall₂ (fun a b => f a = .ok b) l bs := by
  induction l generalizing bs with
  | nil =>
    rw [List.mapM_nil, List.forall₂_nil_left_iff]
    exact ⟨fun h => (Except.ok.inj h).symm, fun h => h ▸ rfl⟩
  | cons a l ih => simp only [mapM_cons_eq_ok_iff, ih, List.forall₂_cons_left_iff]

theorem map_eq_ok_iff {g : α → β} {x : Except ε α} {b : β} :
    g <$> x = .ok b ↔ ∃ a, x = .ok a ∧ g a = b := by
  cases x with
  | error e => simp [Functor.map, Except.map]
  | ok a => simp [Functor.map, Except.map]

theorem mapM_map_ok (g : β → γ) (l : List α) :
    l.mapM (fun a => g <$> f a) = List.map g <$> l.mapM f := by
  induction l with
  | nil => rfl
  | cons a l ih =>
    rw [List.mapM_cons, List.mapM_cons, ih]
    cases f a <;> cases l.mapM f <;> rfl

end Except

namespace TypeSpec

/-- **A type spec's text reads back as the type spec.** -/
theorem parse_render (t : TypeSpec) : parse (some t.render) = .ok t := by
  obtain ⟨k, l⟩ := t
  cases k <;> cases l <;> rfl

end TypeSpec

namespace Items

/-- Reading tokens one by one with a reader whose results a kind wraps as
scalars. -/
theorem mapM_read_wrapped {δ ε : Type} {r : String → Except ε δ} {wrap : δ → Scalar}
    {err : String → ε → AttributeError} {k : Kind}
    (hk : ∀ e, Scalar.read k e = wrap <$> (r e).mapError (err e)) (es : List String) :
    es.mapM (Scalar.read k) = List.map wrap <$> es.mapM fun e => (r e).mapError (err e) := by
  rw [show Scalar.read k = fun e => wrap <$> (r e).mapError (err e) from funext hk,
    Except.mapM_map_ok]

/-- **Reading tokens as a list reads each as a scalar of the kind**, in
order, and fails with the first that fails. -/
theorem scalars_read (k : Kind) (es : List String) :
    scalars <$> read k es = es.mapM (Scalar.read k) := by
  cases k with
  | string =>
    show Except.ok (es.map Scalar.string) = es.mapM fun e => pure (Scalar.string e)
    rw [List.mapM_pure]
    rfl
  | version =>
    refine (Functor.map_map _ _ _).trans (mapM_read_wrapped (fun e => ?_) es).symm
    simp only [Scalar.read]
    cases Version.parse e <;> rfl
  | long =>
    refine (Functor.map_map _ _ _).trans (mapM_read_wrapped (fun e => ?_) es).symm
    simp only [Scalar.read]
    cases Numeral.Long.read e <;> rfl
  | double =>
    refine (Functor.map_map _ _ _).trans (mapM_read_wrapped (fun e => ?_) es).symm
    simp only [Scalar.read]
    cases Numeral.Double.read e <;> rfl

/-- The kind of every element is the kind of the list. -/
theorem kind_of_mem {xs : Items} {x : Scalar} (h : x ∈ xs.scalars) : x.kind = xs.kind := by
  have hne : xs.isEmpty = false := by
    rw [isEmpty, List.isEmpty_eq_false_iff]
    exact List.ne_nil_of_mem h
  unfold kind
  rw [if_neg (by simp [hne])]
  cases xs with
  | strings ys =>
    obtain ⟨s, -, rfl⟩ := List.mem_map.1 h
    rfl
  | versions ys =>
    obtain ⟨v, -, rfl⟩ := List.mem_map.1 h
    rfl
  | longs ys =>
    obtain ⟨n, -, rfl⟩ := List.mem_map.1 h
    rfl
  | doubles ys =>
    obtain ⟨d, -, rfl⟩ := List.mem_map.1 h
    rfl

/-- Lists whose elements are equal in order are equal. -/
theorem equiv_of_forall₂ {a b : Items}
    (h : List.Forall₂ (fun y x => y.equiv x = true) a.scalars b.scalars) : a.equiv b = true := by
  rw [equiv, Bool.and_eq_true, beq_iff_eq, List.all_eq_true]
  exact ⟨h.length_eq, fun ⟨_, _⟩ hp => List.forall₂_zip h hp⟩

end Items

namespace Scalar

theorem kind_of_read {k : Kind} {t : String} {x : Scalar} (h : read k t = .ok x) : x.kind = k := by
  cases k
  case string =>
    cases h
    rfl
  case version | long | double =>
    dsimp only [read] at h
    split at h
    · cases h
      rfl
    · cases h

theorem read_empty {k : Kind} {x : Scalar} (h : read k "" = .ok x) : k = .string := by
  cases k with
  | string => rfl
  | version => cases h
  | long => cases h
  | double => cases h

end Scalar

/-- Keys that each read back as an equal scalar read back, in order, as a list
of equal scalars. -/
theorem mapM_read_keys {k : Kind} {xs : List Scalar}
    (h : ∀ x ∈ xs, ∃ y, Scalar.read k x.key = .ok y ∧ y.equiv x = true) :
    ∃ ys, (xs.map Scalar.key).mapM (Scalar.read k) = .ok ys ∧
      List.Forall₂ (fun y x => y.equiv x = true) ys xs := by
  induction xs with
  | nil => exact ⟨[], rfl, .nil⟩
  | cons x xs ih =>
    obtain ⟨y, hy, hyx⟩ := h x List.mem_cons_self
    obtain ⟨ys, hys, hall⟩ := ih fun x' hx' => h x' (List.mem_cons_of_mem x hx')
    refine ⟨y :: ys, ?_, .cons hyx hall⟩
    rw [List.map_cons, Except.mapM_cons_eq_ok_iff]
    exact ⟨y, ys, hy, hys, rfl⟩

theorem exists_of_forall₂ {α β : Type} {R : α → β → Prop} {l : List α} {m : List β}
    (h : List.Forall₂ R l m) : ∀ b ∈ m, ∃ a ∈ l, R a b := by
  induction h with
  | nil => simp
  | cons hab _ ih =>
    intro b hb
    rcases List.mem_cons.1 hb with rfl | hb
    · exact ⟨_, List.mem_cons_self, hab⟩
    · obtain ⟨a, ha, hr⟩ := ih b hb
      exact ⟨a, List.mem_cons_of_mem _ ha, hr⟩

/-! ### Values -/

namespace Value

/-- Every element of the value is a scalar the program holds. -/
def InRange (v : Value) : Prop := ∀ x ∈ v.elements, x.InRange

/-- **The values whose text gives them back**: every element's text gives it
back, and the value is not the list of one empty text, whose raw text is the
empty raw text of the empty list. -/
def Lossless (v : Value) : Prop := (∀ x ∈ v.elements, x.Lossless) ∧ v ≠ .list (.strings [""])

theorem encode_scalar (x : Scalar) : (scalar x).encode = (TypeSpec.render ⟨x.kind, false⟩, x.key) :=
  rfl

theorem encode_list (xs : Items) :
    (list xs).encode = (TypeSpec.render ⟨xs.kind, true⟩, ListText.join (xs.scalars.map Scalar.key)) :=
  rfl

theorem decode_of_parse {spec : Option String} {t : TypeSpec} (h : TypeSpec.parse spec = .ok t)
    (raw : String) : decode spec raw =
      if t.isList then .list <$> Items.read t.kind (ListText.split (Text.trimList raw.toList))
      else .scalar <$> Scalar.read t.kind (String.ofList (Text.trimList raw.toList)) := by
  rw [decode, h]
  rfl

/-- **A scalar value reads back** from its text. -/
theorem decode_encode_scalar {x : Scalar} (hr : x.InRange) (hl : x.Lossless)
    (hd : ∀ y, x = .double y → Numeral.Double.ReadsBack y) :
    ∃ v', decode (some (scalar x).encode.1) (scalar x).encode.2 = .ok v' ∧
      v'.equiv (.scalar x) = true := by
  obtain ⟨y, hy, hyx⟩ := Scalar.read_key hr hl hd
  refine ⟨.scalar y, ?_, hyx⟩
  rw [encode_scalar, decode_of_parse (TypeSpec.parse_render _), if_neg Bool.false_ne_true,
    Scalar.trimList_key hl, String.ofList_toList]
  exact Except.map_eq_ok_iff.2 ⟨y, hy, rfl⟩

/-- The keys of a list whose text gives it back are not the one empty text:
only the empty text reads as a text from the empty text. -/
theorem keys_ne_singleton_empty {xs : Items} (hne : xs ≠ .strings [""])
    (hread : ∀ x ∈ xs.scalars, ∃ y, Scalar.read xs.kind x.key = .ok y ∧ y.equiv x = true) :
    xs.scalars.map Scalar.key ≠ [""] := by
  intro hk
  obtain ⟨x, hx, hkey⟩ := List.map_eq_singleton_iff.1 hk
  have hmem : x ∈ xs.scalars := by simp [hx]
  obtain ⟨y, hy, -⟩ := hread x hmem
  rw [hkey] at hy
  -- only a text reads from the empty text, so the one element is the empty text
  have hkind : x.kind = .string := (Items.kind_of_mem hmem).trans (Scalar.read_empty hy)
  cases x with
  | string s =>
    cases xs <;> simp [Items.scalars] at hx
    rw [hx, show s = "" from hkey] at hne
    exact hne rfl
  | version _ => cases hkind
  | long _ => cases hkind
  | double _ => cases hkind

/-- **A list value reads back** from its text, when it is not the list of one
empty text. -/
theorem decode_encode_list {xs : Items} (hr : ∀ x ∈ xs.scalars, x.InRange)
    (hl : ∀ x ∈ xs.scalars, x.Lossless)
    (hd : ∀ y, .double y ∈ xs.scalars → Numeral.Double.ReadsBack y) (hne : xs ≠ .strings [""]) :
    ∃ v', decode (some (list xs).encode.1) (list xs).encode.2 = .ok v' ∧
      v'.equiv (.list xs) = true := by
  have hkeys : ∀ e ∈ xs.scalars.map Scalar.key, Text.trimList e.toList = e.toList := by
    simpa using fun x hx => Scalar.trimList_key (hl x hx)
  have hread : ∀ x ∈ xs.scalars, ∃ y, Scalar.read xs.kind x.key = .ok y ∧ y.equiv x = true :=
    fun x hx => Items.kind_of_mem hx ▸
      Scalar.read_key (hr x hx) (hl x hx) fun y hy => hd y (hy ▸ hx)
  obtain ⟨ys, hys, hF⟩ := mapM_read_keys hread
  obtain ⟨items, hitems, rfl⟩ : ∃ items, Items.read xs.kind (xs.scalars.map Scalar.key) = .ok items ∧
      items.scalars = ys := by
    exact Except.map_eq_ok_iff.1 ((Items.scalars_read _ _).trans hys)
  refine ⟨.list items, ?_, Items.equiv_of_forall₂ hF⟩
  have htrim : (xs.scalars.map Scalar.key).map Text.trim = xs.scalars.map Scalar.key := by
    rw [List.map_congr_left fun e he => Text.trim_eq_self_iff.2 (hkeys e he), List.map_id']
  rw [encode_list, decode_of_parse (TypeSpec.parse_render _), if_pos rfl, ListText.trimList_join hkeys,
    ListText.split_join (keys_ne_singleton_empty hne hread), htrim]
  exact Except.map_eq_ok_iff.2 ⟨items, hitems, rfl⟩

/-- **What reading gives is in range, and its text gives it back**, unless it
holds a NaN: a text keeps no blank at its ends, a version has a plain
qualifier, and no raw text reads as the list of one empty text. -/
theorem decode_inRange_lossless {spec : Option String} {raw : String} {v : Value}
    (h : decode spec raw = .ok v) (hn : ∀ y, .double y ∈ v.elements → y.isNaN = false) :
    v.InRange ∧ v.Lossless := by
  cases hp : TypeSpec.parse spec with
  | error e =>
    rw [decode, hp] at h
    cases h
  | ok t =>
    rw [decode_of_parse hp] at h
    split at h
    · -- a list: every element is read from a trimmed token
      obtain ⟨items, hitems, rfl⟩ := Except.map_eq_ok_iff.1 h
      have hF := Except.mapM_eq_ok_iff.1
        ((Items.scalars_read _ _).symm.trans (Except.map_eq_ok_iff.2 ⟨items, hitems, rfl⟩))
      have hx : ∀ x ∈ items.scalars, x.InRange ∧ x.Lossless := fun x hx => by
        obtain ⟨e, he, hread⟩ := exists_of_forall₂ hF x hx
        exact Scalar.read_inRange_lossless hread (ListText.trimList_of_mem_split e he)
          fun y hy => hn y (hy ▸ hx)
      refine ⟨fun x hx' => (hx x hx').1, fun x hx' => (hx x hx').2, ?_⟩
      intro heq
      cases heq
      obtain ⟨e, hread, hsplit⟩ : ∃ e, Scalar.read t.kind e = .ok (.string "") ∧
          ListText.split (Text.trimList raw.toList) = [e] := by
        simpa [Items.scalars, List.forall₂_cons_right_iff, List.forall₂_nil_right_iff] using hF
      have hk : t.kind = .string := (Scalar.kind_of_read hread).symm
      rw [hk] at hread
      cases hread
      exact ListText.split_ne_singleton_empty (Text.getLast?_trimList _) hsplit
    · -- a scalar, read from the trimmed raw text
      obtain ⟨x, hread, rfl⟩ := Except.map_eq_ok_iff.1 h
      have hx := Scalar.read_inRange_lossless hread (by rw [String.toList_ofList, Text.trimList_trimList])
        fun y hy => hn y (by simp [elements, hy])
      refine ⟨fun x' hx' => ?_, fun x' hx' => ?_, fun h' => by cases h'⟩
      · rw [elements, List.mem_singleton] at hx'
        exact hx' ▸ hx.1
      · rw [elements, List.mem_singleton] at hx'
        exact hx' ▸ hx.2

/-- **Encoding loses nothing, and reading gives only what encodes without
loss.** A value in range whose elements are texts with no blank at their
ends, versions with a plain qualifier and doubles whose text reads back, and
that is not the list of one empty text, reads back from its two texts as an
equal value; and every value that reading gives, NaN apart, is such a value. -/
theorem decode_encode_lossless :
    (∀ v : Value, v.InRange → v.Lossless →
      (∀ y, .double y ∈ v.elements → Numeral.Double.ReadsBack y) →
      ∃ v', decode (some v.encode.1) v.encode.2 = .ok v' ∧ v'.equiv v = true) ∧
    ∀ spec raw (v : Value), decode spec raw = .ok v →
      (∀ y, .double y ∈ v.elements → y.isNaN = false) → v.InRange ∧ v.Lossless := by
  refine ⟨fun v hr hl hd => ?_, fun _ _ _ h hn => decode_inRange_lossless h hn⟩
  cases v with
  | scalar x =>
    exact decode_encode_scalar (hr x (List.mem_singleton_self x)) (hl.1 x (List.mem_singleton_self x))
      fun y hy => hd y (hy ▸ List.mem_singleton_self x)
  | list xs => exact decode_encode_list hr hl.1 hd fun h => hl.2 (congrArg list h)

/-- Texts holding commas and backslashes, and an empty text among others, read
back. -/
theorem decode_encode_escaped_texts :
    (list (.strings ["a,b", "c\\", "", "d e"])).InRange ∧
      (list (.strings ["a,b", "c\\", "", "d e"])).Lossless ∧
      ∃ v', decode (some (list (.strings ["a,b", "c\\", "", "d e"])).encode.1)
        (list (.strings ["a,b", "c\\", "", "d e"])).encode.2 = .ok v' ∧
        v'.equiv (list (.strings ["a,b", "c\\", "", "d e"])) = true := by
  have hr : (list (.strings ["a,b", "c\\", "", "d e"])).InRange := by
    simp [InRange, elements, Items.scalars, Scalar.InRange]
  have hl : (list (.strings ["a,b", "c\\", "", "d e"])).Lossless := by
    refine ⟨?_, by simp⟩
    simp only [elements, Items.scalars, List.map_cons, List.map_nil, List.mem_cons,
      List.not_mem_nil, or_false, forall_eq_or_imp, forall_eq]
    refine ⟨?_, ?_, ?_, ?_⟩ <;> decide
  exact ⟨hr, hl, decode_encode_lossless.1 _ hr hl (by simp [elements, Items.scalars])⟩

example : decode (some (list (.strings [""])).encode.1) (list (.strings [""])).encode.2 =
    .ok (list (.strings [])) := by
  rfl

end Value

end Depot

import Mathlib
import Depot.Attribute.Codec

/-!
# Scalar texts that read back

A scalar travels as its key (`Depot.Scalar.key`), and reading takes the key
back after trimming it. The key of a version, a long or a double holds no
blank character at all (`Depot.Text.Printable`), so trimming leaves it as it
is; a text is left as it is exactly when it has no blank at either end
(`Depot.Text.trim_eq_self_iff`).

| scalar | reads back when | theorem |
|---|---|---|
| version | numbers below `2 ^ 64`, a plain qualifier | `Depot.Version.parse_render` |
| long | between the least and the greatest long | `Depot.Numeral.Long.read_render` |
| double | its text reads as an equal double | `Depot.Numeral.Double.ReadsBack` |

The last row is an assumption and not a theorem: reading a double rounds a
decimal to the nearest binary64 value, and the shortest decimal of a number
rounds back to it, but the float operations reading ends in are not open to
proof. Each statement takes it of the doubles it speaks of.

Conversely, what reading gives is always in range (`Depot.Version.parse_eq_ok`,
`Depot.Numeral.Long.read_inRange`), and a token read as text keeps no blank at
its ends. `Depot.Scalar.read_key` and `Depot.Scalar.read_inRange_lossless`
gather the two directions for every kind.
-/

namespace Depot

namespace Except

theorem bind_eq_ok {ε α β : Type} {x : Except ε α} {f : α → Except ε β} {b : β} :
    x >>= f = .ok b ↔ ∃ a, x = .ok a ∧ f a = .ok b := by
  cases x with
  | error e => simp [bind, Except.bind]
  | ok a => simp [bind, Except.bind]

end Except

namespace Text

/-! ### Blank characters and trimming -/

theorem isBlank_eq_false_of_visible {c : Char} (h1 : 0x21 ≤ c.toNat) (h2 : c.toNat ≤ 0x7E) :
    isBlank c = false := by
  have hv : c.val.toNat = c.toNat := rfl
  simp [isBlank, UInt32.le_iff_toNat_le, ← UInt32.toNat_inj]
  omega

theorem isBlank_eq_false_of_isDigit {c : Char} (h : c.isDigit = true) : isBlank c = false := by
  simp only [Char.isDigit, Bool.and_eq_true, decide_eq_true_eq, UInt32.le_iff_toNat_le] at h
  have hv : c.toNat = c.val.toNat := rfl
  have h0 : '0'.val.toNat = 48 := rfl
  have h9 : '9'.val.toNat = 57 := rfl
  exact isBlank_eq_false_of_visible (by omega) (by omega)

theorem trimBack_eq_rdropWhile (cs : List Char) : trimBack cs = cs.rdropWhile isBlank := rfl

theorem trimFront_eq_self {cs : List Char} (h : ∀ c ∈ cs.head?, isBlank c = false) :
    trimFront cs = cs := by
  cases cs with
  | nil => rfl
  | cons c cs => exact List.dropWhile_cons_of_neg (by simp [h c rfl])

theorem trimBack_eq_self {cs : List Char} (h : ∀ c ∈ cs.getLast?, isBlank c = false) :
    trimBack cs = cs := by
  have hr : trimFront cs.reverse = cs.reverse := trimFront_eq_self (by rwa [List.head?_reverse])
  rw [trimBack, ← trimFront, hr, List.reverse_reverse]

theorem head?_trimFront (cs : List Char) : ∀ c ∈ (trimFront cs).head?, isBlank c = false := by
  intro c hc
  have h := List.head?_dropWhile_not isBlank cs
  rw [trimFront, Option.mem_def] at hc
  rw [hc] at h
  exact h

theorem getLast?_trimBack (cs : List Char) : ∀ c ∈ (trimBack cs).getLast?, isBlank c = false := by
  rw [trimBack, List.getLast?_reverse]
  exact head?_trimFront cs.reverse

theorem head?_trimBack {cs : List Char} (h : ∀ c ∈ cs.head?, isBlank c = false) :
    ∀ c ∈ (trimBack cs).head?, isBlank c = false := by
  intro c hc
  obtain ⟨t, ht⟩ := (List.rdropWhile_prefix (p := isBlank) (l := cs))
  rw [Option.mem_def, trimBack_eq_rdropWhile] at hc
  apply h c
  rw [← ht, List.head?_append, hc]
  rfl

theorem trimList_eq_self {cs : List Char} (hf : ∀ c ∈ cs.head?, isBlank c = false)
    (hb : ∀ c ∈ cs.getLast?, isBlank c = false) : trimList cs = cs := by
  rw [trimList, trimFront_eq_self hf, trimBack_eq_self hb]

theorem head?_trimList (cs : List Char) : ∀ c ∈ (trimList cs).head?, isBlank c = false :=
  head?_trimBack (head?_trimFront cs)

theorem getLast?_trimList (cs : List Char) : ∀ c ∈ (trimList cs).getLast?, isBlank c = false :=
  getLast?_trimBack _

@[simp]
theorem trimList_trimList (cs : List Char) : trimList (trimList cs) = trimList cs :=
  trimList_eq_self (head?_trimList cs) (getLast?_trimList cs)

theorem trimList_eq_nil_iff {cs : List Char} : trimList cs = [] ↔ ∀ c ∈ cs, isBlank c = true := by
  rw [trimList, trimBack_eq_rdropWhile, List.rdropWhile_eq_nil_iff, ← List.dropWhile_eq_nil_iff,
    trimFront, List.dropWhile_idempotent, List.dropWhile_eq_nil_iff]

theorem isBlank_of_mem_toDigits {n : Nat} {c : Char} (h : c ∈ Nat.toDigits 10 n) :
    isBlank c = false :=
  isBlank_eq_false_of_isDigit (Nat.isDigit_of_mem_toDigits (by decide) (by decide) h)

/-- **A text with no blank character.** -/
def Printable (s : String) : Prop := ∀ c ∈ s.toList, isBlank c = false

instance (s : String) : Decidable (Printable s) :=
  decidable_of_iff (s.toList.all fun c => !isBlank c) (by simp [Printable])

theorem Printable.append {a b : String} (ha : Printable a) (hb : Printable b) :
    Printable (a ++ b) := by
  intro c hc
  rw [String.toList_append, List.mem_append] at hc
  exact hc.elim (ha c) (hb c)

theorem printable_toString (n : Nat) : Printable (toString n) := fun _ hc =>
  isBlank_of_mem_toDigits (by simpa using hc)

/-- Trimming leaves a printable text as it is. -/
theorem Printable.trimList_eq {s : String} (h : Printable s) : trimList s.toList = s.toList :=
  trimList_eq_self (fun c hc => h c (List.mem_of_mem_head? hc))
    (fun c hc => h c (List.mem_of_getLast? hc))

theorem trim_eq_self_iff {s : String} : trim s = s ↔ trimList s.toList = s.toList := by
  rw [trim, ← String.toList_inj, String.toList_ofList]

end Text

/-! ### Longs -/

namespace Numeral.Long

/-- Digits read into a magnitude that ends within the limit never pass it on
the way: the reading is the value of the digits. -/
theorem readDigits_eq_ok {limit : Nat} {o : LongError} {cs : List Char} {n : Nat}
    (hd : ∀ c ∈ cs, c.isDigit = true) (hl : Nat.ofDigitChars 10 cs n ≤ limit) :
    readDigits limit o n cs = .ok (Nat.ofDigitChars 10 cs n) := by
  induction cs generalizing n with
  | nil => rfl
  | cons c cs ih =>
    rw [Nat.ofDigitChars_cons] at hl ⊢
    have hstep : 10 * n + (c.toNat - '0'.toNat) ≤ limit := by
      rw [Nat.ofDigitChars_eq_ofDigitChars_zero] at hl
      calc 10 * n + (c.toNat - '0'.toNat)
          ≤ 10 ^ cs.length * (10 * n + (c.toNat - '0'.toNat)) :=
            Nat.le_mul_of_pos_left _ (Nat.pow_pos (by decide))
        _ ≤ limit := by omega
    simp only [readDigits, hd c List.mem_cons_self, if_true, if_pos hstep]
    exact ih (fun d hd' => hd d (List.mem_cons_of_mem c hd')) hl

/-- What is read never passes the limit. -/
theorem readDigits_le {limit : Nat} {o : LongError} {cs : List Char} {n m : Nat}
    (hn : n ≤ limit) (h : readDigits limit o n cs = .ok m) : m ≤ limit := by
  induction cs generalizing n with
  | nil =>
    cases h
    exact hn
  | cons c cs ih =>
    simp only [readDigits] at h
    split at h
    · split at h
      · exact ih (by assumption) h
      · cases h
    · cases h

theorem toList_render (n : Int) :
    (render n).toList = if 0 ≤ n then Nat.toDigits 10 n.toNat else '-' :: Nat.toDigits 10 (-n).toNat := by
  rw [render, Int.toString_eq_repr, Int.repr_eq_if]
  split <;> simp

/-- The decimal digits of a magnitude within a limit read back as it. -/
theorem readDigits_toDigits {limit : Nat} (o : LongError) {m : Nat} (hm : m ≤ limit) :
    readDigits limit o 0 (Nat.toDigits 10 m) = .ok m := by
  have hd : ∀ c ∈ Nat.toDigits 10 m, c.isDigit = true := fun c hc =>
    Nat.isDigit_of_mem_toDigits (by decide) (by decide) hc
  rw [readDigits_eq_ok hd (by rwa [Nat.ofDigitChars_ten_toDigits]), Nat.ofDigitChars_ten_toDigits]

theorem printable_render (n : Int) : Text.Printable (render n) := by
  intro c hc
  rw [toList_render] at hc
  split at hc
  · exact Text.isBlank_of_mem_toDigits hc
  · rcases List.mem_cons.1 hc with rfl | hc
    · decide
    · exact Text.isBlank_of_mem_toDigits hc

/-- A text of digits alone reads as their value, when it fits. -/
theorem read_digits {c : Char} {cs : List Char} (hc : c.isDigit = true) :
    read (String.ofList (c :: cs)) =
      (fun n => (n : Int)) <$> readDigits maxValue.toNat .tooLarge 0 (c :: cs) := by
  unfold read
  rw [String.toList_ofList]
  -- a digit is no sign: only the last pattern matches
  split
  next heq => exact absurd heq (List.cons_ne_nil c cs)
  next heq => cases heq; exact absurd hc (by decide)
  next heq => cases heq; exact absurd hc (by decide)
  next heq => cases heq; exact absurd hc (by decide)
  next heq => cases heq; exact absurd hc (by decide)
  next => rfl

/-- A minus sign before digits negates their value, when it fits. -/
theorem read_minus_digits {c : Char} {cs : List Char} :
    read (String.ofList ('-' :: c :: cs)) =
      (fun n => -(n : Int)) <$> readDigits minValue.natAbs .tooSmall 0 (c :: cs) := by
  unfold read
  rw [String.toList_ofList]
  split
  next heq => exact absurd heq (List.cons_ne_nil _ _)
  next heq => cases heq
  next heq => cases heq
  next heq => cases heq; rfl
  next heq => cases heq
  next h _ => exact absurd rfl (h (c :: cs))

/-- **A long's text reads back as the long.** -/
theorem read_render {n : Int} (hlo : minValue ≤ n) (hhi : n ≤ maxValue) :
    read (render n) = .ok n := by
  rw [← String.ofList_toList (s := render n), toList_render]
  by_cases h0 : 0 ≤ n
  · rw [if_pos h0]
    obtain ⟨c, cs, hds⟩ := List.exists_cons_of_ne_nil (Nat.toDigits_ne_nil (b := 10) (n := n.toNat))
    have hc : c.isDigit = true :=
      Nat.isDigit_of_mem_toDigits (by decide) (by decide) (hds ▸ List.mem_cons_self)
    rw [hds, read_digits hc, ← hds, readDigits_toDigits .tooLarge (by unfold maxValue at hhi ⊢; omega)]
    exact congrArg Except.ok (Int.toNat_of_nonneg h0)
  · rw [if_neg h0]
    obtain ⟨c, cs, hds⟩ := List.exists_cons_of_ne_nil (Nat.toDigits_ne_nil (b := 10) (n := (-n).toNat))
    rw [hds, read_minus_digits, ← hds, readDigits_toDigits .tooSmall (by unfold minValue at hlo ⊢; omega)]
    exact congrArg Except.ok (show -(((-n).toNat : Nat) : Int) = n by omega)

theorem readDigits_map_eq_ok {limit : Nat} {o : LongError} {cs : List Char} {g : Int → Int}
    {n : Int} (h : g <$> readDigits limit o 0 cs = .ok n) : ∃ m ≤ limit, n = g m := by
  cases hr : readDigits limit o 0 cs with
  | error e => rw [hr] at h; cases h
  | ok m =>
    rw [hr] at h
    cases h
    exact ⟨m, readDigits_le (Nat.zero_le _) hr, rfl⟩

/-- **A long that is read lies between the least and the greatest long.** -/
theorem read_inRange {s : String} {n : Int} (h : read s = .ok n) :
    minValue ≤ n ∧ n ≤ maxValue := by
  unfold read at h
  split at h
  case h_1 | h_2 | h_3 => cases h
  case h_4 | h_5 | h_6 =>
    obtain ⟨m, hm, rfl⟩ := readDigits_map_eq_ok h
    unfold minValue maxValue at *
    omega

end Numeral.Long

/-! ### Versions -/

namespace Version

/-- The numbers a version of the program holds: each below `2 ^ 64`. -/
def InRange (v : Version) : Prop :=
  v.major < Nat.pow 2 64 ∧ v.minor < Nat.pow 2 64 ∧ v.micro < Nat.pow 2 64

/-- A qualifier of ASCII letters, digits, `_` and `-` only. -/
def PlainQualifier (v : Version) : Prop := ∀ c ∈ v.qualifier.toList, isQualifierChar c = true

instance (v : Version) : Decidable v.InRange := inferInstanceAs (Decidable (_ ∧ _ ∧ _))

instance (v : Version) : Decidable v.PlainQualifier :=
  decidable_of_iff (v.qualifier.toList.all isQualifierChar) (by simp [PlainQualifier])

theorem isBlank_eq_false_of_isQualifierChar {c : Char} (h : isQualifierChar c = true) :
    Text.isBlank c = false := by
  simp only [isQualifierChar, Bool.or_eq_true, beq_iff_eq] at h
  rcases h with (h | rfl) | rfl
  · simp only [Char.isAlphanum, Char.isAlpha, Char.isUpper, Char.isLower, Char.isDigit,
      Bool.or_eq_true, Bool.and_eq_true, decide_eq_true_eq, UInt32.le_iff_toNat_le] at h
    have hv : c.toNat = c.val.toNat := rfl
    have hA : 'A'.val.toNat = 65 := rfl
    have hz : 'z'.val.toNat = 122 := rfl
    have h0 : '0'.val.toNat = 48 := rfl
    have hZ : 'Z'.val.toNat = 90 := rfl
    have ha : 'a'.val.toNat = 97 := rfl
    have h9 : '9'.val.toNat = 57 := rfl
    exact Text.isBlank_eq_false_of_visible (by omega) (by omega)
  all_goals decide

theorem digitsValue_eq (cs : List Char) : digitsValue cs = Nat.ofDigitChars 10 cs 0 := by
  rw [digitsValue, Nat.ofDigitChars_eq_foldl]
  congr 1
  funext acc c
  rw [Nat.mul_comm]

theorem readNumber_toDigits (input : String) {n : Nat} (hn : n < Nat.pow 2 64) :
    readNumber input (Nat.toDigits 10 n) = .ok n := by
  have hv : digitsValue (Nat.toDigits 10 n) = n := by
    rw [digitsValue_eq, Nat.ofDigitChars_ten_toDigits]
  have hd : (Nat.toDigits 10 n).all Char.isDigit = true := List.all_eq_true.2 fun c hc =>
    Nat.isDigit_of_mem_toDigits (by decide) (by decide) hc
  rw [readNumber, if_pos ⟨Nat.toDigits_ne_nil, hd, by rw [hv]; exact hn⟩, hv]

theorem readNumber_lt {input : String} {part : List Char} {n : Nat}
    (h : readNumber input part = .ok n) : n < Nat.pow 2 64 := by
  unfold readNumber at h
  split at h
  next hc =>
    cases h
    exact hc.2.2
  next => cases h

theorem readQualifier_plain {input : String} {q : List Char} {w : String}
    (h : readQualifier input q = .ok w) : ∀ c ∈ w.toList, isQualifierChar c = true := by
  unfold readQualifier at h
  split_ifs at h with h0 hq
  cases h
  rw [String.toList_ofList]
  exact List.all_eq_true.1 hq

/-- **A version that is read holds numbers below `2 ^ 64` and a plain
qualifier.** -/
theorem ofParts_eq_ok {input : String} {parts : List (List Char)} {v : Version}
    (h : ofParts input parts = .ok v) : v.InRange ∧ v.PlainQualifier := by
  have h0 : 0 < Nat.pow 2 64 := by decide
  unfold ofParts at h
  split at h
  next a =>
    obtain ⟨x, hx, h⟩ := Except.bind_eq_ok.1 h
    cases h
    exact ⟨⟨readNumber_lt hx, h0, h0⟩, by simp [PlainQualifier]⟩
  next a b =>
    obtain ⟨x, hx, h⟩ := Except.bind_eq_ok.1 h
    obtain ⟨y, hy, h⟩ := Except.bind_eq_ok.1 h
    cases h
    exact ⟨⟨readNumber_lt hx, readNumber_lt hy, h0⟩, by simp [PlainQualifier]⟩
  next a b c =>
    obtain ⟨x, hx, h⟩ := Except.bind_eq_ok.1 h
    obtain ⟨y, hy, h⟩ := Except.bind_eq_ok.1 h
    obtain ⟨z, hz, h⟩ := Except.bind_eq_ok.1 h
    cases h
    exact ⟨⟨readNumber_lt hx, readNumber_lt hy, readNumber_lt hz⟩, by simp [PlainQualifier]⟩
  next a b c q _ =>
    obtain ⟨x, hx, h⟩ := Except.bind_eq_ok.1 h
    obtain ⟨y, hy, h⟩ := Except.bind_eq_ok.1 h
    obtain ⟨z, hz, h⟩ := Except.bind_eq_ok.1 h
    obtain ⟨w, hw, h⟩ := Except.bind_eq_ok.1 h
    cases h
    exact ⟨⟨readNumber_lt hx, readNumber_lt hy, readNumber_lt hz⟩, readQualifier_plain hw⟩
  next => cases h

theorem parse_eq_ok {s : String} {v : Version} (h : parse s = .ok v) :
    v.InRange ∧ v.PlainQualifier := by
  unfold parse at h
  dsimp only at h
  split at h
  next => cases h
  next => exact ofParts_eq_ok h

theorem splitDots_of_not_mem {cs : List Char} (h : '.' ∉ cs) (n : Nat) : splitDots n cs = [cs] := by
  cases n with
  | zero => rfl
  | succ n =>
    have hd : cs.dropWhile (· ≠ '.') = [] :=
      List.dropWhile_eq_nil_iff.2 fun c hc => decide_eq_true fun hc' => h (hc' ▸ hc)
    rw [splitDots, hd]

theorem splitDots_append {cs : List Char} (h : '.' ∉ cs) (n : Nat) (rest : List Char) :
    splitDots (n + 1) (cs ++ '.' :: rest) = cs :: splitDots n rest := by
  have hp : ∀ c ∈ cs, decide (c ≠ '.') = true := fun c hc =>
    decide_eq_true fun hc' => h (hc' ▸ hc)
  have hd : (cs ++ '.' :: rest).dropWhile (· ≠ '.') = '.' :: rest := by
    rw [List.dropWhile_append_of_pos hp, List.dropWhile_cons_of_neg (by simp)]
  have ht : (cs ++ '.' :: rest).takeWhile (· ≠ '.') = cs := by
    rw [List.takeWhile_append_of_pos hp, List.takeWhile_cons_of_neg (by simp), List.append_nil]
  rw [splitDots, hd]
  dsimp only
  rw [ht]

theorem toList_render (v : Version) : v.render.toList =
    Nat.toDigits 10 v.major ++ '.' :: (Nat.toDigits 10 v.minor ++ '.' ::
      (Nat.toDigits 10 v.micro ++ if v.qualifier = "" then [] else '.' :: v.qualifier.toList)) := by
  unfold render
  by_cases hq : v.qualifier = "" <;> simp [hq]

theorem dot_not_mem_toDigits (n : Nat) : '.' ∉ Nat.toDigits 10 n := fun h =>
  absurd (Nat.isDigit_of_mem_toDigits (by decide) (by decide) h) (by decide)

/-- Every character of a canonical text with a plain qualifier is printable. -/
theorem printable_render {v : Version} (hq : v.PlainQualifier) : Text.Printable v.render := by
  intro c hc
  rw [toList_render] at hc
  simp only [List.mem_append, List.mem_cons] at hc
  rcases hc with h | rfl | h | rfl | h | h
  · exact Text.isBlank_of_mem_toDigits h
  · decide
  · exact Text.isBlank_of_mem_toDigits h
  · decide
  · exact Text.isBlank_of_mem_toDigits h
  · split_ifs at h with h0
    · cases h
    · rcases List.mem_cons.1 h with rfl | h
      · decide
      · exact isBlank_eq_false_of_isQualifierChar (hq c h)

theorem readQualifier_of_plain (input : String) {q : List Char} (hne : q ≠ [])
    (hq : ∀ c ∈ q, isQualifierChar c = true) : readQualifier input q = .ok (String.ofList q) := by
  rw [readQualifier, if_neg hne, if_pos (List.all_eq_true.2 hq)]

/-- **A version's canonical text reads back as the version**, when its
numbers are below `2 ^ 64` and its qualifier is plain. -/
theorem parse_render {v : Version} (hv : v.InRange) (hq : v.PlainQualifier) :
    parse v.render = .ok v := by
  unfold parse
  dsimp only
  rw [(printable_render hq).trimList_eq, String.ofList_toList,
    if_neg (by simp [toList_render]), toList_render, splitDots_append (dot_not_mem_toDigits _),
    splitDots_append (dot_not_mem_toDigits _)]
  by_cases h0 : v.qualifier = ""
  · rw [if_pos h0, List.append_nil, splitDots_of_not_mem (dot_not_mem_toDigits _)]
    simp only [ofParts, readNumber_toDigits _ hv.1, readNumber_toDigits _ hv.2.1,
      readNumber_toDigits _ hv.2.2, bind, Except.bind, pure, Except.pure, ← h0]
  · have hne : v.qualifier.toList ≠ [] := by simpa using h0
    rw [if_neg h0, splitDots_append (dot_not_mem_toDigits _)]
    simp only [ofParts, splitDots, readNumber_toDigits _ hv.1, readNumber_toDigits _ hv.2.1,
      readNumber_toDigits _ hv.2.2, readQualifier_of_plain _ hne hq, String.ofList_toList, bind,
      Except.bind, pure, Except.pure]

end Version

/-! ### Doubles -/

namespace Numeral

/-- Every character of a positional decimal is a digit or the point. -/
theorem Decimal.printable_positional (d : Decimal) : Text.Printable d.positional := by
  have hs := Text.printable_toString d.strip.digits
  have hz : ∀ n, Text.Printable (zeros n) := fun n c hc => by
    rw [zeros, String.toList_ofList, List.mem_replicate] at hc
    rw [hc.2]
    decide
  unfold positional
  dsimp only
  split_ifs
  · exact hs.append (hz _)
  · have ht : ∀ k, Text.Printable (String.ofList ((toString d.strip.digits).toList.take k)) :=
      fun k c hc => hs c (List.mem_of_mem_take (by simpa using hc))
    have hd : ∀ k, Text.Printable (String.ofList ((toString d.strip.digits).toList.drop k)) :=
      fun k c hc => hs c (List.mem_of_mem_drop (by simpa using hc))
    exact ((ht _).append (by decide)).append (hd _)
  · exact (Text.Printable.append (by decide) (hz _)).append hs

/-- Every character of a double's text is printable. -/
theorem Double.printable_render (x : Float) : Text.Printable (render x) := by
  have hsign : Text.Printable (if x.toBits >>> 63 == 1 then "-" else "") := by
    split <;> decide
  unfold render
  dsimp only
  generalize (if x.toBits >>> 63 == 1 then "-" else "") = sign at hsign ⊢
  split_ifs
  · decide
  · exact hsign.append (by decide)
  · exact hsign.append (by decide)
  · exact hsign.append (Decimal.printable_positional _)

end Numeral

namespace Numeral.Double

/-- **A double whose text reads as an equal double**: reading the shortest
decimal of a number rounds it back to the number. NaN, which equals nothing,
never does. -/
def ReadsBack (x : Float) : Prop := ∃ y, read (render x) = .ok y ∧ (y == x) = true

end Numeral.Double

/-! ### Scalars -/

namespace Scalar

/-- **The scalars a value of the program holds**: versions of numbers below
`2 ^ 64`, and longs between the least and the greatest long. -/
def InRange : Scalar → Prop
  | .version v => v.InRange
  | .long n => Numeral.Long.minValue ≤ n ∧ n ≤ Numeral.Long.maxValue
  | .string _ => True
  | .double _ => True

/-- **The scalars whose text gives them back**: texts with no blank at their
ends, versions with a plain qualifier, and doubles that are numbers. -/
def Lossless : Scalar → Prop
  | .string s => Text.trim s = s
  | .version v => v.PlainQualifier
  | .long _ => True
  | .double x => x.isNaN = false

instance (x : Scalar) : Decidable x.InRange :=
  match x with
  | .version v => inferInstanceAs (Decidable v.InRange)
  | .long n => inferInstanceAs (Decidable (_ ≤ n ∧ n ≤ _))
  | .string _ => isTrue trivial
  | .double _ => isTrue trivial

instance (x : Scalar) : Decidable x.Lossless :=
  match x with
  | .string s => inferInstanceAs (Decidable (Text.trim s = s))
  | .version v => inferInstanceAs (Decidable v.PlainQualifier)
  | .long _ => isTrue trivial
  | .double x => inferInstanceAs (Decidable (x.isNaN = false))

/-- The key of a scalar whose text gives it back has no blank at its ends. -/
theorem trimList_key {x : Scalar} (h : x.Lossless) : Text.trimList x.key.toList = x.key.toList := by
  cases x with
  | string s => exact Text.trim_eq_self_iff.1 h
  | version v => exact (Version.printable_render h).trimList_eq
  | long n => exact (Numeral.Long.printable_render n).trimList_eq
  | double x => exact (Numeral.Double.printable_render x).trimList_eq

/-- **A scalar's key reads back** as an equal scalar of its kind. -/
theorem read_key {x : Scalar} (hr : x.InRange) (hl : x.Lossless)
    (hd : ∀ y, x = .double y → Numeral.Double.ReadsBack y) :
    ∃ y, read x.kind x.key = .ok y ∧ y.equiv x = true := by
  cases x with
  | string s => exact ⟨.string s, rfl, beq_self_eq_true s⟩
  | version v =>
    refine ⟨.version v, ?_, beq_self_eq_true v⟩
    simp only [read, kind, key, Version.parse_render hr hl]
  | long n =>
    refine ⟨.long n, ?_, beq_self_eq_true n⟩
    simp only [read, kind, key, Numeral.Long.read_render hr.1 hr.2]
  | double x =>
    obtain ⟨y, hy, hxy⟩ := hd x rfl
    refine ⟨.double y, ?_, hxy⟩
    simp only [read, kind, key, hy]

/-- **A scalar read from a token with no blank at its ends is in range and its
text gives it back**, unless it is NaN. -/
theorem read_inRange_lossless {k : Kind} {t : String} {x : Scalar} (h : read k t = .ok x)
    (ht : Text.trimList t.toList = t.toList) (hn : ∀ y, x = .double y → y.isNaN = false) :
    x.InRange ∧ x.Lossless := by
  cases k with
  | string =>
    cases h
    exact ⟨trivial, Text.trim_eq_self_iff.2 ht⟩
  | version =>
    dsimp only [read] at h
    split at h
    next v hv =>
      cases h
      exact Version.parse_eq_ok hv
    next => cases h
  | long =>
    dsimp only [read] at h
    split at h
    next n hn' =>
      cases h
      exact ⟨Numeral.Long.read_inRange hn', trivial⟩
    next => cases h
  | double =>
    dsimp only [read] at h
    split at h
    next y _ =>
      cases h
      exact ⟨trivial, hn y rfl⟩
    next => cases h

end Scalar

end Depot

import Depot.Digest.Basic

/-!
# Hashing a stream in pieces

A stream hands its bytes to the hasher in pieces of 8192 bytes
(`Depot.Digest.ofStream`), while the digest of a byte list hashes it at once
(`Depot.Digest.ofBytes`). The two agree: the hasher folds every whole block at
the front of what it holds into its state and keeps the rest for later, so
where a piece ends makes no difference (`Depot.Sha256.Hasher.update_update`).
Content streamed into the store is therefore kept under the digest of its
bytes (`Depot.Digest.ofStream_eq`), which is what a verified read checks.

The hasher's own loop runs on fuel; `Depot.Sha256.Hasher.absorbAll` is the same
loop by well-founded recursion on the length, and the fuel the hasher gives it
always suffices (`Depot.Sha256.Hasher.absorb_eq_absorbAll`).
-/

namespace Depot

namespace Sha256.Hasher

/-- Folds every whole block at the front of a byte list into the state, and
keeps the rest. -/
def absorbAll (s : State) (bs : List UInt8) : State × List UInt8 :=
  if 64 ≤ bs.length then absorbAll (compress s (bs.take 64)) (bs.drop 64) else (s, bs)
termination_by bs.length

theorem absorbAll_of_lt (s : State) {bs : List UInt8} (h : bs.length < 64) :
    absorbAll s bs = (s, bs) := by
  rw [absorbAll, if_neg (Nat.not_le.2 h)]

theorem absorbAll_of_le (s : State) {bs : List UInt8} (h : 64 ≤ bs.length) :
    absorbAll s bs = absorbAll (compress s (bs.take 64)) (bs.drop 64) := by
  rw [absorbAll, if_pos h]

/-- With a block's worth of fuel for every whole block, the hasher's loop folds
them all. -/
theorem absorb_eq_absorbAll (n : Nat) (s : State) (bs : List UInt8) (hn : bs.length / 64 ≤ n) :
    absorb n s bs = absorbAll s bs := by
  induction n generalizing s bs with
  | zero =>
    rw [absorb, absorbAll_of_lt s (by omega)]
  | succ n ih =>
    by_cases h64 : 64 ≤ bs.length
    · have hrest : (bs.drop 64).length / 64 ≤ n := by
        rw [List.length_drop]
        omega
      rw [absorb, if_pos h64, ih _ _ hrest, absorbAll_of_le s h64]
    · rw [absorb, if_neg h64, absorbAll_of_lt s (Nat.lt_of_not_le h64)]

/-- **Where the bytes are cut makes no difference**: folding the blocks of a
concatenation is folding those of the first part, then those of what it left
followed by the second. -/
theorem absorbAll_append (s : State) (x y : List UInt8) :
    absorbAll s (x ++ y) = absorbAll (absorbAll s x).1 ((absorbAll s x).2 ++ y) := by
  fun_induction absorbAll s x with
  | case1 s x h64 ih =>
    have h64' : 64 ≤ (x ++ y).length := by
      rw [List.length_append]
      omega
    rw [absorbAll_of_le s h64', List.take_append_of_le_length h64,
      List.drop_append_of_le_length h64, ih]
  | case2 s x h64 => rfl

theorem update_eq (h : Hasher) (bs : List UInt8) :
    h.update bs = ⟨(absorbAll h.state (h.pending ++ bs)).1, (absorbAll h.state (h.pending ++ bs)).2,
      h.count + bs.length⟩ := by
  rw [update, absorb_eq_absorbAll _ _ _ (Nat.le_refl _)]

/-- **Feeding two pieces one after the other is feeding them at once.** -/
theorem update_update (h : Hasher) (a b : List UInt8) : (h.update a).update b = h.update (a ++ b) := by
  rw [update_eq, update_eq, update_eq]
  simp only [← List.append_assoc, ← absorbAll_append, List.length_append, Nat.add_assoc]

/-- Feeding a list of pieces after a first one is feeding them all at once. -/
theorem foldl_update (h : Hasher) (a : List UInt8) (ps : List (List UInt8)) :
    ps.foldl update (h.update a) = h.update (a ++ ps.flatten) := by
  induction ps generalizing a with
  | nil => simp
  | cons p ps ih => rw [List.foldl_cons, update_update, ih, List.flatten_cons, List.append_assoc]

theorem new_update_nil : new.update [] = new := rfl

end Sha256.Hasher

namespace Digest

/-- The pieces of a byte list make up the list, when the fuel exceeds its
length. -/
theorem flatten_pieces {n : Nat} (hn : 0 < n) (fuel : Nat) (bs : List UInt8)
    (hfuel : bs.length < fuel) : (pieces n fuel bs).flatten = bs := by
  induction fuel generalizing bs with
  | zero => omega
  | succ fuel ih =>
    cases bs with
    | nil => rfl
    | cons b bs =>
      -- every piece but the last takes `n` bytes, so the rest fits the remaining fuel
      have hrest : ((b :: bs).drop n).length < fuel := by
        rw [List.length_drop, List.length_cons] at *
        omega
      simp only [pieces, List.flatten_cons]
      rw [ih _ hrest, List.take_append_drop]

/-- **Streamed content has the digest of its bytes**, and its size is their
number. -/
theorem ofStream_eq (bs : List UInt8) : ofStream bs = (ofBytes bs, bs.length) := by
  have hfold : (pieces 8192 (bs.length + 1) bs).foldl Sha256.Hasher.update Sha256.Hasher.new =
      Sha256.Hasher.new.update bs := by
    rw [← Sha256.Hasher.new_update_nil, Sha256.Hasher.foldl_update, List.nil_append,
      flatten_pieces (by decide) _ _ (Nat.lt_succ_self _), Sha256.Hasher.new_update_nil]
  simp only [ofStream, ofBytes, Sha256.hash, hfold, Prod.mk.injEq, true_and]
  exact Nat.zero_add bs.length

end Digest

end Depot

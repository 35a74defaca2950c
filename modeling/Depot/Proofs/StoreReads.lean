import Depot.Proofs.References

/-!
# Reading back what the store holds

A store that verifies its reads gives bytes for a digest only when the bytes
have that digest (`Depot.Store.get_eq_ok_iff`), and every store that a
sequence of puts, streamed puts, removals and overwrites reaches verifies as
the empty store it started from did (`Depot.Store.run_verify`).

Reading back what was just put is another matter. A put decides that its bytes
are stored already from the place of their digest being taken, not from what
lies there: after that place is overwritten with other bytes, a put of the
original bytes keeps the others, and reading the digest back does not give the
bytes put (`Depot.Store.get_after_put_overwritten`). What holds for every
history is the exact condition (`Depot.Store.run_get_after_put`): right after
a put or a streamed put of some bytes, reading their digest gives those bytes
exactly when, before the put, reading it gave *not found* or those bytes.
Everything rests on one lemma about a single put
(`Depot.Store.get_put_eq_ok_iff_get`).
-/

namespace Depot

namespace Store

variable {s : Store} {d : Digest} {x : List UInt8}

/-! ### Reads -/

/-- **A read gives bytes exactly when they are kept under the digest** and,
when the store verifies, have that digest. -/
theorem get_eq_ok_iff :
    s.get d = .ok x ↔ s.blobs.get? d.text = some x ∧ (s.verify = true → Digest.ofBytes x = d) := by
  unfold get
  rcases hk : s.blobs.get? d.text with _ | y
  · simp
  · cases hv : s.verify
    · simp [eq_comm]
    · by_cases hd : Digest.ofBytes y = d
      · subst hd
        simp only [↓reduceIte, Except.ok.injEq, Option.some.injEq, forall_const]
        exact ⟨fun h => ⟨h, h ▸ rfl⟩, fun h => h.1⟩
      · simp only [if_true, hd, if_false, reduceCtorEq, Option.some.injEq, forall_const,
          false_iff, not_and]
        rintro rfl
        exact hd

/-- A read finds nothing exactly when nothing is kept under the digest. -/
theorem get_eq_notFound_iff : s.get d = .error (.notFound d) ↔ s.blobs.get? d.text = none := by
  unfold get
  rcases hk : s.blobs.get? d.text with _ | y
  · simp
  · simp only [reduceCtorEq, iff_false]
    split_ifs <;> simp

/-! ### Reading back after a put -/

section Put

variable (s : Store) (bs : List UInt8)

/-- Right after a put, reading the digest gives the bytes put exactly when
nothing else was kept under it: the put keeps what it finds. -/
theorem get_put_eq_ok_iff :
    (s.put bs).1.get (s.put bs).2 = .ok bs ↔
      s.blobs.get? (Digest.ofBytes bs).text = none ∨
        s.blobs.get? (Digest.ofBytes bs).text = some bs := by
  change (s.put bs).1.get (Digest.ofBytes bs) = .ok bs ↔ _
  rw [get_eq_ok_iff, put_fst, has_eq]
  rcases hk : s.blobs.get? (Digest.ofBytes bs).text with _ | y
  · -- the place is free: the bytes go there
    simp
  · -- the place is taken: the store is left as it is
    simp [hk]

/-- **Right after a put, reading the digest gives the bytes put exactly when,
before the put, reading it found nothing or those bytes.** -/
theorem get_put_eq_ok_iff_get :
    (s.put bs).1.get (s.put bs).2 = .ok bs ↔
      s.get (Digest.ofBytes bs) = .error (.notFound (Digest.ofBytes bs)) ∨
        s.get (Digest.ofBytes bs) = .ok bs := by
  rw [get_put_eq_ok_iff, get_eq_notFound_iff, get_eq_ok_iff]
  -- the bytes put have their own digest, so the verification is no condition
  simp

/-- A streamed put leaves the store as a put does, under the same digest. -/
theorem get_putStream_eq_ok_iff_get :
    (s.putStream bs).1.get (s.putStream bs).2.1 = .ok bs ↔
      s.get (Digest.ofBytes bs) = .error (.notFound (Digest.ofBytes bs)) ∨
        s.get (Digest.ofBytes bs) = .ok bs := by
  rw [putStream_eq]
  exact get_put_eq_ok_iff_get s bs

end Put

/-! ### Sequences of calls -/

@[simp] theorem perform_verify (s : Store) (op : StoreOp) : (s.perform op).verify = s.verify := by
  cases op with
  | put bs => rw [perform, put_fst]; split <;> rfl
  | putStream bs => rw [perform, putStream_eq, put_fst]; split <;> rfl
  | remove d => rfl
  | overwrite d bs => rfl

/-- **Every store a sequence of calls reaches verifies its reads as the empty
one did.** -/
theorem run_verify (verify : Bool) (ops : List StoreOp) : (run verify ops).verify = verify := by
  suffices h : ∀ s : Store, (ops.foldl perform s).verify = s.verify from h _
  induction ops with
  | nil => intro s; rfl
  | cons op ops ih => intro s; rw [List.foldl_cons, ih, perform_verify]

/-- **A verifying store reads back what was put, unless it was overwritten.**
After every sequence of puts, streamed puts, removals and overwrites on a
store that verifies its reads, a read gives bytes only when they have the
digest asked for; and right after a put or a streamed put of some bytes,
reading their digest gives those bytes exactly when, before it, reading the
digest found nothing or those bytes. -/
theorem run_get_after_put (ops : List StoreOp) (bs : List UInt8) :
    (∀ d x, (run true ops).get d = .ok x → Digest.ofBytes x = d) ∧
      (((run true ops).put bs).1.get ((run true ops).put bs).2 = .ok bs ↔
        (run true ops).get (Digest.ofBytes bs) = .error (.notFound (Digest.ofBytes bs)) ∨
          (run true ops).get (Digest.ofBytes bs) = .ok bs) ∧
      (((run true ops).putStream bs).1.get ((run true ops).putStream bs).2.1 = .ok bs ↔
        (run true ops).get (Digest.ofBytes bs) = .error (.notFound (Digest.ofBytes bs)) ∨
          (run true ops).get (Digest.ofBytes bs) = .ok bs) := by
  refine ⟨fun d x h => (get_eq_ok_iff.1 h).2 (run_verify true ops), get_put_eq_ok_iff_get _ bs,
    get_putStream_eq_ok_iff_get _ bs⟩

/-- **Putting bytes again does not repair an overwritten blob.** Put the bytes
of `original` into a verifying store, overwrite their blob with the bytes of
`tampered`, and put `original` again: reading its digest does not give it. -/
theorem get_after_put_overwritten :
    let original : List UInt8 := [111, 114, 105, 103, 105, 110, 97, 108]
    let s := run true [.put original, .overwrite (Digest.ofBytes original)
      [116, 97, 109, 112, 101, 114, 101, 100]]
    (s.put original).1.get (s.put original).2 ≠ .ok original := by
  intro original s
  have hkept : s.blobs.get? (Digest.ofBytes original).text =
      some [116, 97, 109, 112, 101, 114, 101, 100] :=
    Table.get?_insert_self _ _ _
  rw [Ne, get_put_eq_ok_iff, hkept]
  decide

end Store

end Depot

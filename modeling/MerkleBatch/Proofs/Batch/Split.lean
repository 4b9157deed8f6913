import MerkleBatch.Proofs.Batch.Replay

/-!
# Cutting batches

A stream of insertions may be cut into batches anywhere: the replay of a batch is that of its first
insertions, followed by that of the others from the root in between. Errors tell the number of an
insertion within its batch, so those of the second part are shifted.

* `Batch.take`, `Batch.drop`: the two parts of a batch, with a root between them.
* `Batch.rootAfter`: the root that the first insertions of a batch lead to.
* `insertAll_append`, `insertAll_shift`: the replay of appended insertions, and of insertions that
  are counted from another start.
* `Batch.replay_split`: a batch is replayed exactly if both parts are, and fails where they do.
-/

namespace MerkleBatch

namespace ReplayError

/-- The number of the insertion in which the replay failed. -/
def insertion? : ReplayError → Option Nat
  | outOfRange insertion _ _ | staleProof insertion _ => some insertion
  | postRoot | claimedHash | stopped _ => none

/-- The error of a batch as one of a batch with `count` more insertions in front. -/
def shift (count : Nat) : ReplayError → ReplayError
  | outOfRange insertion index depth => outOfRange (count + insertion) index depth
  | staleProof insertion index => staleProof (count + insertion) index
  | postRoot => postRoot
  | claimedHash => claimedHash
  | stopped overflow => stopped overflow

@[simp]
theorem insertion?_shift (count : Nat) (error : ReplayError) :
    (error.shift count).insertion? = error.insertion?.map (count + ·) := by
  cases error <;> rfl

end ReplayError

/-- The root that insertions at consecutive indices from `index` on lead to. -/
def lastRoot (index : Nat) (current : Scalar) : List (Scalar × List Scalar) → Scalar
  | [] => current
  | (leaf, siblings) :: rest => lastRoot (index + 1) (Path.root leaf index siblings) rest

variable {depth start insertion count i : Nat} {current last : Scalar} {error : ReplayError}
  {insertions : List (Scalar × List Scalar)}

theorem eq_lastRoot (h : insertAll depth start insertion current insertions = .ok last) :
    last = lastRoot (start + insertion) current insertions := by
  induction insertions generalizing insertion current with
  | nil => exact (Except.ok.inj h).symm
  | cons first rest ih =>
    obtain ⟨leaf, siblings⟩ := first
    exact ih (insertAll_cons_eq_ok_iff.mp h).2

/-- The replay of appended insertions goes on from the root that the first ones lead to. -/
theorem insertAll_append (front back : List (Scalar × List Scalar)) :
    insertAll depth start insertion current (front ++ back) =
      (insertAll depth start insertion current front).bind fun next =>
        insertAll depth start (insertion + front.length) next back := by
  induction front generalizing insertion current with
  | nil => rfl
  | cons first rest ih =>
    obtain ⟨leaf, siblings⟩ := first
    rw [List.cons_append, insertAll, insertAll, List.length_cons, Nat.add_comm rest.length,
      ← Nat.add_assoc]
    cases insertLeaf depth insertion (start + insertion) current leaf siblings with
    | error error => rfl
    | ok next => exact ih

theorem insertLeaf_shift (index : Nat) (leaf : Scalar) (siblings : List Scalar) :
    insertLeaf depth (count + insertion) index current leaf siblings =
      (insertLeaf depth insertion index current leaf siblings).mapError (.shift count) := by
  rw [insertLeaf, insertLeaf]
  split_ifs <;> rfl

/-- Where insertions stand in a batch matters for the numbers in errors only. -/
theorem insertAll_shift :
    insertAll depth start (count + insertion) current insertions =
      (insertAll depth (start + count) insertion current insertions).mapError (.shift count) := by
  induction insertions generalizing insertion current with
  | nil => rfl
  | cons first rest ih =>
    obtain ⟨leaf, siblings⟩ := first
    rw [insertAll, insertAll, insertLeaf_shift, ← Nat.add_assoc]
    cases insertLeaf depth insertion (start + count + insertion) current leaf siblings with
    | error error => rfl
    | ok next =>
      show insertAll depth start (count + (insertion + 1)) next rest = _
      exact ih

/-- The replay of the first `count` insertions and then of the others, counted from their own
start. -/
theorem insertAll_take_drop (hcount : count ≤ insertions.length) :
    insertAll depth start 0 current insertions =
      (insertAll depth start 0 current (insertions.take count)).bind fun next =>
        (insertAll depth (start + count) 0 next (insertions.drop count)).mapError
          (.shift count) := by
  have hcut : insertAll depth start 0 current
      (insertions.take count ++ insertions.drop count) = _ := insertAll_append _ _
  rw [List.take_append_drop, List.length_take, Nat.min_eq_left hcount, Nat.zero_add] at hcut
  rw [hcut]
  congr 1
  funext next
  show insertAll depth start (count + 0) next _ = _
  exact insertAll_shift

/-- An insertion that an error names is one of those that were carried out. -/
theorem insertion_lt_of_error
    (h : insertAll depth start insertion current insertions = .error error)
    (hi : error.insertion? = some i) : i < insertion + insertions.length := by
  obtain ⟨k, hk, root, -, herror⟩ := exists_insertLeaf_error h
  rcases insertLeaf_eq_error_iff.mp herror with ⟨-, rfl⟩ | ⟨-, -, rfl⟩ | ⟨-, -, -, rfl⟩
  · obtain rfl := Option.some.inj hi
    omega
  · cases hi
  · obtain rfl := Option.some.inj hi
    omega

/-- The replay fails among the first `count` insertions or among the others. -/
theorem insertAll_eq_error_cases (hcount : count ≤ insertions.length)
    (h : insertAll depth start 0 current insertions = .error error)
    (hi : error.insertion? = some i) :
    (i < count ∧ insertAll depth start 0 current (insertions.take count) = .error error) ∨
      ∃ next error' j, insertAll depth start 0 current (insertions.take count) = .ok next ∧
        insertAll depth (start + count) 0 next (insertions.drop count) = .error error' ∧
        error'.insertion? = some j ∧ i = count + j ∧ error = error'.shift count := by
  rw [insertAll_take_drop hcount] at h
  cases hfirst : insertAll depth start 0 current (insertions.take count) with
  | error e =>
    rw [hfirst] at h
    obtain rfl : e = error := Except.error.inj h
    have hlt := insertion_lt_of_error hfirst hi
    rw [List.length_take, Nat.min_eq_left hcount, Nat.zero_add] at hlt
    exact .inl ⟨hlt, rfl⟩
  | ok next =>
    rw [hfirst] at h
    cases hsecond : insertAll depth (start + count) 0 next (insertions.drop count) with
    | error e =>
      obtain rfl : e.shift count = error := by
        rw [Except.bind, hsecond] at h
        exact Except.error.inj h
      rw [ReplayError.insertion?_shift, Option.map_eq_some_iff] at hi
      obtain ⟨j, hj, rfl⟩ := hi
      exact .inr ⟨next, e, j, rfl, hsecond, hj, rfl, rfl⟩
    | ok last =>
      rw [Except.bind, hsecond] at h
      cases h

/-! ## The parts of a batch -/

namespace Batch

/-- The batch of the first `count` insertions, which are to lead to `root`. -/
def take (b : Batch) (count : Nat) (root : Scalar) : Batch where
  claimedHash := b.claimedHash
  startIndex := b.startIndex
  preRoot := b.preRoot
  postRoot := root
  commitments := b.commitments.take count
  proofs := b.proofs.take count

/-- The batch of the insertions after the first `count`, which are to start from `root`. -/
def drop (b : Batch) (count : Nat) (root : Scalar) : Batch where
  claimedHash := b.claimedHash
  startIndex := b.startIndex + UInt32.ofNat count
  preRoot := root
  postRoot := b.postRoot
  commitments := b.commitments.drop count
  proofs := b.proofs.drop count

/-- The root that the first `count` insertions of a batch lead to. -/
def rootAfter (b : Batch) (count : Nat) : Scalar :=
  lastRoot b.startIndex.toNat b.preRoot (b.insertions.take count)

/-- The replay in a tree of this depth succeeds. -/
def Replays (b : Batch) (depth : Nat) : Prop := ∃ result, b.replay depth = .ok result

variable {b : Batch}

theorem insertions_take (count : Nat) (root : Scalar) :
    (b.take count root).insertions = b.insertions.take count := List.take_zipWith.symm

theorem insertions_drop (count : Nat) (root : Scalar) :
    (b.drop count root).insertions = b.insertions.drop count := List.drop_zipWith.symm

/-- Without an expected input hash, a batch is replayed if its insertions lead to its last root. -/
theorem replays_iff (hnone : b.claimedHash = none) :
    b.Replays depth ↔
      insertAll depth b.startIndex.toNat 0 b.preRoot b.insertions = .ok b.postRoot := by
  simp [Replays, replay_eq_ok_iff, hnone]

/-- The replay fails in an insertion exactly if that insertion does. -/
theorem replay_eq_error_iff (hi : error.insertion? = some i) :
    b.replay depth = .error error ↔
      insertAll depth b.startIndex.toNat 0 b.preRoot b.insertions = .error error := by
  constructor
  · intro h
    rcases replay_eq_error h with hall | ⟨_, _, _, rfl⟩ | ⟨_, rfl⟩
    · exact hall
    · cases hi
    · cases hi
  · intro hall
    rw [replay, hall]

theorem toNat_startIndex_drop {count : Nat} (hword : b.startIndex.toNat + count < 2 ^ 32)
    (root : Scalar) : (b.drop count root).startIndex.toNat = b.startIndex.toNat + count := by
  show (b.startIndex + UInt32.ofNat count).toNat = _
  rw [UInt32.toNat_add, UInt32.toNat_ofNat', Nat.add_mod_mod, Nat.mod_eq_of_lt hword]

section

variable {k : Nat} {root : Scalar}

theorem replays_take_iff (hnone : b.claimedHash = none) :
    (b.take k root).Replays depth ↔
      insertAll depth b.startIndex.toNat 0 b.preRoot (b.insertions.take k) = .ok root := by
  rw [← insertions_take k root]
  exact replays_iff hnone

theorem replays_drop_iff (hnone : b.claimedHash = none)
    (hword : b.startIndex.toNat + k < 2 ^ 32) :
    (b.drop k root).Replays depth ↔
      insertAll depth (b.startIndex.toNat + k) 0 root (b.insertions.drop k) = .ok b.postRoot := by
  rw [← insertions_drop k root, ← toNat_startIndex_drop hword root]
  exact replays_iff hnone

/-- A batch is replayed exactly if its parts are, with some root between them. -/
theorem replays_iff_parts (hnone : b.claimedHash = none) (hk : k ≤ b.insertions.length)
    (hword : b.startIndex.toNat + k < 2 ^ 32) :
    b.Replays depth ↔
      ∃ root, (b.take k root).Replays depth ∧ (b.drop k root).Replays depth := by
  simp only [replays_iff hnone, replays_take_iff hnone, replays_drop_iff hnone hword]
  rw [insertAll_take_drop hk]
  cases insertAll depth b.startIndex.toNat 0 b.preRoot (b.insertions.take k) with
  | error error => simp [Except.bind]
  | ok next =>
    simp only [Except.bind, Except.ok.injEq, exists_eq_left']
    cases insertAll depth (b.startIndex.toNat + k) 0 next (b.insertions.drop k) with
    | error error => simp [Except.mapError]
    | ok last => rfl

/-- A batch that fails before the cut fails in the same way without the rest. -/
theorem replay_take_eq_error (hk : k ≤ b.insertions.length)
    (h : b.replay depth = .error error) (hi : error.insertion? = some i) (hik : i < k) :
    (b.take k root).replay depth = .error error := by
  rw [replay_eq_error_iff hi] at h
  rw [replay_eq_error_iff hi, insertions_take]
  rcases insertAll_eq_error_cases hk h hi with ⟨-, hfirst⟩ | ⟨_, _, j, -, -, -, rfl, -⟩
  · exact hfirst
  · omega

/-- A batch that fails behind the cut fails there without the beginning, from the root to which that
one leads. -/
theorem replay_drop_eq_error (hnone : b.claimedHash = none) (hk : k ≤ b.insertions.length)
    (hword : b.startIndex.toNat + k < 2 ^ 32) (h : b.replay depth = .error error)
    (hi : error.insertion? = some i) (hki : k ≤ i) :
    (b.take k (b.rootAfter k)).Replays depth ∧
      ∃ error' j, (b.drop k (b.rootAfter k)).replay depth = .error error' ∧
        error'.insertion? = some j ∧ i = k + j ∧ error = error'.shift k := by
  rw [replay_eq_error_iff hi] at h
  rcases insertAll_eq_error_cases hk h hi with
    ⟨hlt, -⟩ | ⟨next, error', j, hfirst, hsecond, hj, hij, heq⟩
  · omega
  · obtain rfl : next = b.rootAfter k := eq_lastRoot hfirst
    refine ⟨(replays_take_iff hnone).mpr hfirst, error', j, ?_, hj, hij, heq⟩
    rw [replay_eq_error_iff hj, insertions_drop, toNat_startIndex_drop hword]
    exact hsecond

end

/-- A batch may be cut after any number of insertions. It is replayed exactly if there is a root up
to which its first part and from which its second part is replayed, and that root is the one to
which its first insertions lead. Where an insertion fails, it is the one in which the first part
fails, or the one in which the second part does, counted on. -/
theorem replay_split (hnone : b.claimedHash = none)
    (hcount : b.commitments.length = b.proofs.length) {k : Nat} (hk : k ≤ b.commitments.length)
    (hword : b.startIndex.toNat + k < 2 ^ 32) (depth : Nat) :
    (b.Replays depth ↔ ∃ root, (b.take k root).Replays depth ∧ (b.drop k root).Replays depth) ∧
    (∀ root, (b.take k root).Replays depth ∧ (b.drop k root).Replays depth →
      root = b.rootAfter k) ∧
    ∀ error i, b.replay depth = .error error → error.insertion? = some i →
      (i < k → ∀ root, (b.take k root).replay depth = .error error) ∧
      (k ≤ i → (b.take k (b.rootAfter k)).Replays depth ∧
        ∃ error' j, (b.drop k (b.rootAfter k)).replay depth = .error error' ∧
          error'.insertion? = some j ∧ i = k + j ∧ error = error'.shift k) := by
  have hlen : k ≤ b.insertions.length := by
    rw [← List.length_map Prod.fst, map_fst_insertions hcount]
    exact hk
  refine ⟨replays_iff_parts hnone hlen hword, ?_, fun error i h hi => ⟨?_, ?_⟩⟩
  · rintro root ⟨hfirst, -⟩
    exact eq_lastRoot ((replays_take_iff hnone).mp hfirst)
  · exact fun hik root => replay_take_eq_error hlen h hi hik
  · exact replay_drop_eq_error hnone hlen hword h hi

/-- Three insertions into a tree with two leaves. -/
def overfull : Batch := ⟨none, 0, hashNode 0 0, hashNode 7 9, [7, 9, 5], [[0], [7], [7]]⟩

theorem replay_overfull : overfull.replay 1 = .error (.outOfRange 2 2 1) := by
  have hleft (leaf : Scalar) : Path.root leaf (0 + 0) [0] = hashNode leaf 0 := by
    rw [Path.root_cons, Path.root_nil, Path.parent, if_neg (by decide)]
  have hright (leaf : Scalar) : Path.root leaf (0 + 1) [7] = hashNode 7 leaf := by
    rw [Path.root_cons, Path.root_nil, Path.parent, if_pos (by decide)]
  have hfirst : insertLeaf 1 0 (0 + 0) (hashNode 0 0) 7 [0] = .ok (hashNode 7 0) :=
    insertLeaf_eq_ok_iff.mpr ⟨rfl, by decide, hleft 0, hleft 7⟩
  have hsecond : insertLeaf 1 1 (0 + 1) (hashNode 7 0) 9 [7] = .ok (hashNode 7 9) :=
    insertLeaf_eq_ok_iff.mpr ⟨rfl, by decide, hright 0, hright 9⟩
  refine (replay_eq_error_iff (i := 2) rfl).mpr ?_
  calc insertAll 1 0 0 (hashNode 0 0) [(7, [0]), (9, [7]), (5, [7])]
    _ = insertAll 1 0 1 (hashNode 7 0) [(9, [7]), (5, [7])] := by rw [insertAll, hfirst]
    _ = insertAll 1 0 2 (hashNode 7 9) [(5, [7])] := by rw [insertAll, hsecond]
    _ = .error (.outOfRange 2 2 1) := rfl

/-- The third insertion of that batch is the second one after a cut behind the first. -/
theorem replay_split_overfull :
    (overfull.claimedHash = none ∧ overfull.commitments.length = overfull.proofs.length ∧
      1 ≤ overfull.commitments.length ∧ overfull.startIndex.toNat + 1 < 2 ^ 32 ∧
      overfull.replay 1 = .error (.outOfRange 2 2 1)) ∧
    ∃ error', (overfull.drop 1 (overfull.rootAfter 1)).replay 1 = .error error' ∧
      error'.insertion? = some 1 ∧ .outOfRange 2 2 1 = error'.shift 1 := by
  have hhyps : overfull.claimedHash = none ∧
      overfull.commitments.length = overfull.proofs.length ∧
      1 ≤ overfull.commitments.length ∧ overfull.startIndex.toNat + 1 < 2 ^ 32 :=
    ⟨rfl, rfl, by decide, by decide⟩
  obtain ⟨hnone, hcount, hk, hword⟩ := hhyps
  obtain ⟨-, -, herror⟩ := replay_split hnone hcount hk hword 1
  obtain ⟨-, error', j, hdrop, hj, hij, heq⟩ :=
    (herror _ 2 replay_overfull rfl).2 (by decide)
  obtain rfl : j = 1 := by omega
  exact ⟨⟨hnone, hcount, hk, hword, replay_overfull⟩, error', hdrop, hj, heq⟩

end Batch

end MerkleBatch

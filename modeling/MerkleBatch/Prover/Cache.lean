import MerkleBatch.Prover

/-!
# Kept provers

Making the keys of a shape takes long, so a few provers are kept, each under its shape. Keys depend
on nothing but the shape: a prover that was kept is the one that would be made anew.

* `Prover.Cache`: the provers that are kept.
* `Cache.loadOrSetup`: the prover of a shape, kept or new.
-/

namespace MerkleBatch.Prover

/-- The greatest number of provers that are kept. -/
def cacheSize : Nat := 8

/-- Provers that are kept under their shapes, the newest first. -/
structure Cache where
  provers : List (Shape × Prover)
  length_le : provers.length ≤ cacheSize
  setup_eq : ∀ kept ∈ provers, setup kept.1 = .ok kept.2

namespace Cache

/-- Nothing is kept. -/
def empty : Cache := ⟨[], Nat.zero_le _, by simp⟩

/-- The kept prover of a shape. -/
def find? (c : Cache) (s : Shape) : Option Prover :=
  (c.provers.find? fun kept => kept.1 = s).map Prod.snd

/-- Keeps the prover of a shape; where there is no room, the oldest one makes way. -/
def keep (c : Cache) (s : Shape) (p : Prover) (h : setup s = .ok p) : Cache where
  provers := (s, p) :: c.provers.take (cacheSize - 1)
  length_le := Nat.succ_le_of_lt (Nat.lt_succ_of_le (List.length_take_le _ _))
  setup_eq kept hkept := by
    rcases List.mem_cons.1 hkept with rfl | hkept
    · exact h
    · exact c.setup_eq kept (List.mem_of_mem_take hkept)

/-- The prover of a shape, and the provers that are kept from now on. -/
def loadOrSetup (c : Cache) (s : Shape) : Except Error (Prover × Cache) :=
  match c.find? s with
  | some p => .ok (p, c)
  | none =>
    match h : setup s with
    | .error error => .error error
    | .ok p => .ok (p, c.keep s p h)

end Cache

end MerkleBatch.Prover

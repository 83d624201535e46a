import Signpost.Uuid

/-!
# Fresh identifiers

A mint issues identifiers one after another, starting from a seed.  It is passed along explicitly,
so that what is fresh in a run is a value of that run.  The identifiers have the form of random
ones: the version and variant bits are fixed and the other 122 bits count up.

## Main definitions

* `Mint`, `Mint.fresh`
-/

namespace Signpost

/-- A supply of identifiers that have not been issued before. -/
structure Mint where
  seed : Nat
  issued : Nat
deriving DecidableEq, Inhabited

namespace Mint

/-- The identifier that carries a number in its 122 free bits. -/
def shape (n : Nat) : Uuid :=
  let free := BitVec.ofNat 122 n
  ⟨free.extractLsb' 74 48 ++ (4 : BitVec 4) ++ free.extractLsb' 62 12 ++ (2 : BitVec 2) ++
    free.extractLsb' 0 62⟩

/-- The identifier that a mint issues in the given turn. -/
def nth (m : Mint) (turn : Nat) : Uuid := shape (m.seed + turn)

/-- The next identifier, and the mint after it. -/
def fresh (m : Mint) : Uuid × Mint := (m.nth m.issued, { m with issued := m.issued + 1 })

end Mint

end Signpost

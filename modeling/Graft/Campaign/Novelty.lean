import Graft.Digest.Md5

/-!
# Novel renderings

A rendering is novel the first time its octets are seen. Renderings are told apart
by their digests.
-/

namespace Graft.Campaign

/-- The digests seen so far, the latest first. -/
structure Novelty where
  seen : List Md5.Digest := []
deriving DecidableEq, Repr

namespace Novelty

/-- The number of different renderings seen. -/
def size (novelty : Novelty) : Nat := novelty.seen.length

/-- Take note of a rendering. Its digest is returned if it is novel. -/
def observe (novelty : Novelty) (rendering : Bytes) : Option Md5.Digest × Novelty :=
  let digest := Md5.digest rendering
  if novelty.seen.contains digest then (none, novelty)
  else (some digest, { seen := digest :: novelty.seen })

end Novelty

end Graft.Campaign

/-!
# Sources of random words

A source yields 32-bit and 64-bit words and the source that remains. Whatever is
drawn from it is a function of its state, so equal states give equal draws.
-/

namespace Graft.Random

/-- A state from which random words are taken one at a time. -/
class Source (σ : Type) where
  next32 : σ → UInt32 × σ
  next64 : σ → UInt64 × σ

end Graft.Random

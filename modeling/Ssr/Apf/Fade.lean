import Ssr.Apf.CMath
import Ssr.Apf.CombineChannels

/-!
# The raised-cosine fade (`apf/combine_channels.h`)

There are `n + 1` values, because they are used in reverse order, too.
-/

set_option autoImplicit false

namespace Apf.CombineChannels

variable {T : Type} [DivisionRing T] [CMath T]

/-- `raised_cosine`, for a period of `2 * n` samples. -/
def crossfadeData (n j : ℕ) : T :=
  let half : T := 1 / (2 : ℕ)
  CMath.cos ((j : T) * (2 : ℕ) * CMath.pi / (2 * n : ℕ)) * half + half

/-- `raised_cosine_fade` -/
def raisedCosineFade (n : ℕ) : Fade n T :=
  { fadeOut := fun i => crossfadeData n i, fadeIn := fun i => crossfadeData n (n - i) }

end Apf.CombineChannels

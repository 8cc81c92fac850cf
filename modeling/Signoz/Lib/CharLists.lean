import Mathlib.Data.List.Defs

/-!
# Claims about the characters of a list

`∀ c ∈ cs, p c` is decided by going through `cs`. Where characters are known to be finitely many,
another instance goes through all of them instead, and `decide` does not come to an end. The
instances here are tried before it where this namespace is open.
-/

namespace Lib.CharLists

attribute [scoped instance (1100)] List.decidableBAll Option.decidableForallMem

end Lib.CharLists

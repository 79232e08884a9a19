/-!
# Counted nouns

`Text.counted` writes a number with the noun it counts: `1 file`, `2 files`.
-/

namespace Localization.Text

/-- The number in decimal and the noun, in the singular exactly for the number one. -/
def counted (n : Nat) (singular plural : String) : String :=
  n.repr ++ " " ++ (if n = 1 then singular else plural)

end Localization.Text

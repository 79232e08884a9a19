/-!
# Blank characters

`Text.isBlank` is membership in the Unicode property `White_Space`.  `Text.trim` removes the
longest blank beginning and the longest blank end of a text, and `Text.isBlankText` holds of
the texts that are blank throughout.
-/

namespace Localization.Text

/-- The characters with the Unicode property `White_Space`. -/
def isBlank (c : Char) : Bool :=
  (0x9 ≤ c.val && c.val ≤ 0xd)
    || c.val == 0x20 || c.val == 0x85 || c.val == 0xa0 || c.val == 0x1680
    || (0x2000 ≤ c.val && c.val ≤ 0x200a)
    || c.val == 0x2028 || c.val == 0x2029 || c.val == 0x202f || c.val == 0x205f
    || c.val == 0x3000

/-- The text without its blank beginning and its blank end. -/
def trim (text : List Char) : List Char :=
  ((text.dropWhile isBlank).reverse.dropWhile isBlank).reverse

/-- The text has blank characters only. -/
def isBlankText (text : List Char) : Bool :=
  text.all isBlank

end Localization.Text

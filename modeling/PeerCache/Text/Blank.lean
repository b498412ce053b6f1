/-!
# White space and trimming

The white-space characters of the Unicode property `White_Space`, and the text left when they
are taken off both ends.  Addresses and durations are trimmed this way before they are read.

`trim` only drops characters at the ends (`dropBlank`, then the same from the back), so what is
left neither starts nor ends with a blank.
-/

namespace PeerCache.Text

/-- The characters with the Unicode property `White_Space`. -/
def isBlank (c : Char) : Bool :=
  let n := c.toNat
  (9 ≤ n && n ≤ 13) || n == 0x20 || n == 0x85 || n == 0xA0 || n == 0x1680 ||
    (0x2000 ≤ n && n ≤ 0x200A) || n == 0x2028 || n == 0x2029 || n == 0x202F || n == 0x205F ||
    n == 0x3000

def dropBlank (cs : List Char) : List Char := cs.dropWhile isBlank

def trimChars (cs : List Char) : List Char := (dropBlank (dropBlank cs).reverse).reverse

/-- A text without the white space at its two ends. -/
def trim (s : String) : String := String.ofList (trimChars s.toList)

end PeerCache.Text

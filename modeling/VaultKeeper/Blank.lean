/-! # White space

The characters that count as white space around dates and in blank lines: those with the Unicode
property `White_Space`.
-/

namespace VaultKeeper

/-- Whether a character is white space. -/
def isBlank (c : Char) : Bool :=
  let n := c.toNat
  (9 ≤ n && n ≤ 13) || n == 0x20 || n == 0x85 || n == 0xA0 || n == 0x1680 ||
    (0x2000 ≤ n && n ≤ 0x200A) || n == 0x2028 || n == 0x2029 || n == 0x202F || n == 0x205F ||
    n == 0x3000

/-- Text without the white space in front of it. -/
def skipBlank (cs : List Char) : List Char := cs.dropWhile isBlank

end VaultKeeper

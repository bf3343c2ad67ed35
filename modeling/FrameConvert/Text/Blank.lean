/-
# Blanks around a word

The characters with the property White_Space:

| characters | |
| --- | --- |
| `U+0009` … `U+000D`, `U+0020` | controls and the space |
| `U+0085`, `U+00A0` | next line, no-break space |
| `U+1680`, `U+2000` … `U+200A`, `U+202F`, `U+205F`, `U+3000` | spaces |
| `U+2028`, `U+2029` | line and paragraph separator |

`trim` drops them at both ends and keeps the middle.  `lower` folds the letters
`A` … `Z` and no others.
-/

namespace FrameConvert
namespace Text

/-- Whether a character has the property White_Space. -/
def isBlank (c : Char) : Bool :=
  let n := c.toNat
  (0x9 ≤ n && n ≤ 0xD) || n == 0x20 || n == 0x85 || n == 0xA0 || n == 0x1680 ||
    (0x2000 ≤ n && n ≤ 0x200A) || n == 0x2028 || n == 0x2029 || n == 0x202F ||
    n == 0x205F || n == 0x3000

/-- Without the blanks at both ends. -/
def trimChars (s : List Char) : List Char :=
  ((s.dropWhile isBlank).reverse.dropWhile isBlank).reverse

/-- Without the blanks at both ends. -/
def trim (s : String) : String := String.ofList (trimChars s.toList)

/-- With `a` … `z` for `A` … `Z`. -/
def lower (s : String) : String := String.ofList (s.toList.map Char.toLower)

/-- Trimmed and folded: the form in which words are compared. -/
def normal (s : String) : String := lower (trim s)

end Text
end FrameConvert

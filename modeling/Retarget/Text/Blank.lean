/-!
# Blank characters

The characters that have the Unicode property of being white space, and the words between them.
-/

namespace Retarget

def isBlank (c : Char) : Bool :=
  let n := c.toNat
  (9 ≤ n && n ≤ 13) || n == 0x20 || n == 0x85 || n == 0xa0 || n == 0x1680 || (0x2000 ≤ n && n ≤ 0x200a) ||
    n == 0x2028 || n == 0x2029 || n == 0x202f || n == 0x205f || n == 0x3000

def trimBlanks (chars : List Char) : List Char :=
  ((chars.dropWhile isBlank).reverse.dropWhile isBlank).reverse

/-- The words of a text, of which the first begins with the characters `start` in reverse. -/
def wordsAfter (start : List Char) : List Char → List String
  | [] => if start.isEmpty then [] else [String.ofList start.reverse]
  | c :: rest =>
    if isBlank c then
      if start.isEmpty then wordsAfter [] rest else String.ofList start.reverse :: wordsAfter [] rest
    else wordsAfter (c :: start) rest

def words (s : String) : List String := wordsAfter [] s.toList

end Retarget

/-!
# Cutting text

`pieces` cuts a text at every occurrence of a separator: a text with `n` separators has `n + 1` pieces, and
the pieces joined by the separator are the text again.
-/

namespace Retarget

def pieces (separator : Char) : List Char → List (List Char)
  | [] => [[]]
  | c :: rest =>
    if c == separator then [] :: pieces separator rest
    else
      match pieces separator rest with
      | [] => [[c]]
      | piece :: more => (c :: piece) :: more

/-- `n` copies of a character. -/
def copies (n : Nat) (c : Char) : String := String.ofList (List.replicate n c)

end Retarget

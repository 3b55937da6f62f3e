/-! # Replacing text

    Every occurrence of a pattern is replaced, from left to right; what was
    put in is not looked at again.
-/

namespace TypedClient.Text

/-- Replaces every occurrence of a pattern behind the next `skip` characters,
    which belong to an occurrence already replaced. -/
def replaceFrom (pattern replacement : List Char) : Nat → List Char → List Char
  | _, [] => []
  | skip + 1, _ :: r => replaceFrom pattern replacement skip r
  | 0, c :: r =>
    if pattern.isPrefixOf (c :: r) then
      replacement ++ replaceFrom pattern replacement (pattern.length - 1) r
    else c :: replaceFrom pattern replacement 0 r

/-- Replaces every occurrence of a pattern that is not empty. -/
def replaceAll (pattern replacement s : List Char) : List Char :=
  replaceFrom pattern replacement 0 s

end TypedClient.Text

import TypedClient.Yaml.Cursor

/-! # Folding lines

    The blanks and breaks between two words of a scalar: on one line they stay
    as they are, a single break counts as a blank, and of several breaks the
    first is dropped.
-/

namespace TypedClient.Yaml

/-- What stands between two words. -/
structure Gap where
  /-- The blanks before the first break. -/
  blanks : List Char := []
  /-- Whether there is a break. -/
  broken : Bool := false
  /-- The text of the first break; nothing if that break is escaped. -/
  first : List Char := []
  /-- The texts of the other breaks. -/
  others : List Char := []

namespace Gap

def addBreak (g : Gap) (text : List Char) : Gap :=
  if g.broken then { g with others := g.others ++ text }
  else { g with blanks := [], broken := true, first := text }

/-- The text that a gap stands for. -/
def text (g : Gap) : List Char :=
  if g.broken then
    if g.first.head? = some '\n' then (if g.others.isEmpty then [' '] else g.others)
    else g.first ++ g.others
  else g.blanks

/-- Goes on with a gap as far as it reaches. A tab before the column `indent`
    of a new line is refused. -/
def gather (indent : Nat) (g : Gap) (m : Mark) : List Char → Option (Gap × Cursor)
  | [] => some (g, ⟨[], m⟩)
  | '\r' :: '\n' :: r => gather indent (g.addBreak ['\n']) (m.nextLine 2) r
  | c :: r =>
    if isBlank c then
      if g.broken then
        if c = '\t' ∧ m.column < indent then none else gather indent g (m.right c) r
      else gather indent { g with blanks := g.blanks ++ [c] } (m.right c) r
    else if isBreak c then gather indent (g.addBreak (breakText c)) (m.nextLine c.utf8Size) r
    else some (g, ⟨c :: r, m⟩)

end Gap

end TypedClient.Yaml

/-!
# Sizes and places in bytes

A place in a text can be given by the number of bytes in front of it. Not every number of bytes is
a place: it may end inside a character.
-/

namespace TreeProjection.Text

def byteSize (text : List Char) : Nat := text.foldr (fun c size => c.utf8Size + size) 0

/-- What stands in front of and behind a place, given by the number of bytes in front of it. -/
def splitBytes? (count : Nat) : List Char → Option (List Char × List Char)
  | [] => if count = 0 then some ([], []) else none
  | c :: rest =>
      if count = 0 then some ([], c :: rest)
      else if count < c.utf8Size then none
      else (splitBytes? (count - c.utf8Size) rest).map fun parts => (c :: parts.1, parts.2)

def between? (first last : Nat) (text : List Char) : Option (List Char) :=
  ((splitBytes? first text).bind fun parts => splitBytes? (last - first) parts.2).map Prod.fst

end TreeProjection.Text

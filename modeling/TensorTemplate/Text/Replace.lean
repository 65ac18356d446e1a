/-!
Searching and replacing inside a text. Occurrences are found from left to right
and do not overlap, and a replacement is not searched again.
-/

namespace TensorTemplate.Text

/-- Whether `part` occurs in the list as a block. -/
def occursIn (part : List Char) : List Char → Bool
  | [] => part.isEmpty
  | c :: cs => part.isPrefixOf (c :: cs) || occursIn part cs

/-- Whether `part` occurs in `s`. -/
def contains (s part : String) : Bool := occursIn part.toList s.toList

/-- One more character at the head of the first piece. -/
def consFirst (c : Char) : List (List Char) → List (List Char)
  | [] => [[c]]
  | piece :: rest => (c :: piece) :: rest

/-- The pieces between the occurrences of `part`, when so many characters at the head still belong to
an occurrence; an empty part occurs nowhere. -/
def cutAfter (part : List Char) : Nat → List Char → List (List Char)
  | _, [] => [[]]
  | skip + 1, _ :: cs => cutAfter part skip cs
  | 0, c :: cs =>
    if !part.isEmpty && part.isPrefixOf (c :: cs) then [] :: cutAfter part (part.length - 1) cs
    else consFirst c (cutAfter part 0 cs)

/-- The pieces between the occurrences of `part`. -/
def cut (part : List Char) (cs : List Char) : List (List Char) := cutAfter part 0 cs

/-- Every occurrence of `part` in `s` becomes `new`. -/
def replace (s part new : String) : String :=
  new.intercalate ((cut part.toList s.toList).map String.ofList)

/-- `s` without `ending`, if it ends that way. -/
def dropEnding (s ending : String) : String :=
  if ending.toList.isSuffixOf s.toList then
    String.ofList (s.toList.take (s.toList.length - ending.toList.length))
  else s

end TensorTemplate.Text

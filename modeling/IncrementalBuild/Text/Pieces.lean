/-!
# Pieces of a text

Cutting a text at a character, what follows a given beginning, and whether one text
occurs in another.
-/

set_option autoImplicit false

namespace IncrementalBuild

/-- Cuts a text at every occurrence of a character. There is one piece more than there are
occurrences. -/
def cutAt (mark : Char) : List Char → List (List Char)
  | [] => [[]]
  | c :: cs =>
    if c = mark then [] :: cutAt mark cs
    else
      match cutAt mark cs with
      | [] => [[c]]
      | piece :: pieces => (c :: piece) :: pieces

/-- What follows a beginning in a text that has it. -/
def restAfter? : (beginning text : List Char) → Option (List Char)
  | [], text => some text
  | _ :: _, [] => none
  | b :: bs, c :: cs => if b = c then restAfter? bs cs else none

/-- Whether the first text is part of the second. -/
def occursIn (part : List Char) : List Char → Bool
  | [] => part.isEmpty
  | c :: cs => part.isPrefixOf (c :: cs) || occursIn part cs

end IncrementalBuild

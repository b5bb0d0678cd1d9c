/-!
# Places in a text

A place is an integer.  From zero on it counts the characters in front of it; a negative one counts
from the end, so that -1 is the place of the last character.

* `inFrontOf` — how many characters stand in front of a place;
* `between` — the part of a text from one place to another;
* `readFrom` — what is read from a place on: from a negative one, the end of the text and then the
  whole text again, since the place after -1 is 0.

For a place from zero on both are what `List.drop` and `List.take` give (`readFrom_natCast`,
`between_natCast`).
-/

namespace Propositional.Text

/-- How many characters of a text stand in front of a place.  No character stands in front of a place
before the beginning. -/
def inFrontOf (text : List Char) (place : Int) : Nat :=
  if place < 0 then (place + text.length).toNat else place.toNat

/-- The part of a text from one place to another.  It is empty unless the second lies behind the
first. -/
def between (text : List Char) (start stop : Int) : List Char :=
  (text.take (inFrontOf text stop)).drop (inFrontOf text start)

/-- The characters that are read from a place on.  Nothing can be read before the beginning. -/
def readFrom (text : List Char) (place : Int) : List Char :=
  if place < 0 then
    if place + text.length < 0 then [] else text.drop (inFrontOf text place) ++ text
  else text.drop place.toNat

theorem inFrontOf_natCast (text : List Char) (place : Nat) : inFrontOf text place = place := by
  have h : ¬ (place : Int) < 0 := by omega
  rw [inFrontOf, if_neg h, Int.toNat_natCast]

theorem readFrom_natCast (text : List Char) (place : Nat) :
    readFrom text place = text.drop place := by
  have h : ¬ (place : Int) < 0 := by omega
  rw [readFrom, if_neg h, Int.toNat_natCast]

theorem between_natCast (text : List Char) (start width : Nat) :
    between text start (start + width) = (text.drop start).take width := by
  have h : ((start : Int) + width) = ((start + width : Nat) : Int) := by omega
  rw [between, h, inFrontOf_natCast, inFrontOf_natCast, List.take_drop]

end Propositional.Text

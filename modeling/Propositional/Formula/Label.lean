import Propositional.Formula.Walk

/-!
# The canonical text of a formula

Every operator has one glyph.  A binary operator stands between spaces, a negation sign directly in
front of its operand, and parentheses only where the formula has a group.

* `Connective.glyph`, `negationGlyph`, `constGlyph` — the glyphs;
* `Formula.label` — the text, by a walk;
* `Formula.written` — the same text by recursion.
-/

namespace Propositional

/-- The glyph of a connective. -/
def Connective.glyph : Connective → Char
  | conj => '∧'
  | disj => '∨'
  | imp => '→'
  | iff => '↔'

/-- The glyph of negation. -/
def negationGlyph : Char := '¬'

/-- The glyphs of the constants. -/
def constGlyph : Bool → Char
  | true => '⊤'
  | false => '⊥'

/-- The canonical text of each kind of node, given the texts of the operands. -/
def labelAlgebra : Algebra String where
  var := .ok
  const value := (constGlyph value).toString
  neg operand := negationGlyph.toString ++ operand
  binary c left right := left ++ " " ++ c.glyph.toString ++ " " ++ right
  group inner := "(" ++ inner ++ ")"

namespace Formula

/-- The canonical text of a formula. -/
def label (f : Formula) : Except EvalError String := labelAlgebra.run f

/-- The characters of the canonical text, by recursion; a foreign leaf has none. -/
def written : Formula → List Char
  | var name => name.toList
  | const value => [constGlyph value]
  | foreign _ => []
  | neg f => negationGlyph :: f.written
  | group f => '(' :: f.written ++ [')']
  | binary c l r => l.written ++ [' ', c.glyph, ' '] ++ r.written

end Formula

end Propositional

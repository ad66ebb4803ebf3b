import FileRoutes.Script.Grammar.Module

/-!
# Reading scripts

* `Grammar.ofDepth`: the grammar whose rules use each other at most so many times inside one
  another. Every second use reads a character, so a depth a few times the length of the text is no
  limit.
* `parse`: a source as a program, or nothing where it is no script of the dialect.
-/

namespace FileRoutes.Script

open Script.Parser

/-- The rule of a symbol, on top of the rules for the parts of its construct. -/
def Grammar.rule (g : Grammar) : (symbol : Symbol) → Parser symbol.Tree
  | .assignment => g.assignmentRule
  | .unary => g.unaryRule
  | .operand => g.operandRule
  | .statement => g.statementRule
  | .item => g.moduleItem
  | .type => g.typeRule
  | .binding => g.bindingRule
  | .element => g.elementRule

/-- The rules with at most `depth` uses of rules inside one another. -/
def Grammar.ofDepth : (depth : Nat) → (symbol : Symbol) → Parser symbol.Tree
  | 0, _ => failure
  | depth + 1, symbol => Grammar.rule (Grammar.ofDepth depth) symbol

/-- Everything up to the end of the source. A shorthand default outside a pattern is no
expression. -/
def Grammar.program (g : Grammar) : Parser Program := do
  let items ← many do
    if (← peek) == .finish then return none else some <$> g.item
  require ((← get).covers == 0)
  return items

/-- Reads a module of the dialect; `none` where the text is none. -/
def parse (dialect : Dialect) (source : String) : Option Program :=
  let text := source.toList
  let size := text.length
  let context : Context := { dialect, size, inAsync := true }
  let grammar : Grammar := Grammar.ofDepth (8 * size + 64)
  ((Grammar.program grammar).run context).run (Cursor.ofSource text) |>.map Prod.fst

end FileRoutes.Script

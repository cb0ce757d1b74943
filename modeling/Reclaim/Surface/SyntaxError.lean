import Reclaim.Source.Diagnostic
import Reclaim.Surface.Token

/-!
# Syntax errors

What can be wrong with the form of a program text.  Where a parser could go on in one way only, the
error names the one kind of token that fits; where a form has to start, it names all the kinds
that start one.
-/

namespace Reclaim.Surface

/-- A place where one of several kinds of token has to come. -/
inductive Choice where
  /-- After the parenthesis that opens an item. -/
  | item
  /-- After the parenthesis that opens a body. -/
  | body
  /-- After the parenthesis that opens an expression. -/
  | expr
deriving DecidableEq, Repr, Inhabited

namespace Choice

/-- The kinds that may come, in the order in which they are listed to the user. -/
def kinds : Choice → List Kind
  | .item => [.defn, .deftype]
  | .body => [.ret, .lets, .case, .inc, .dec]
  | .expr => [.new, .proj, .pap, .reset, .reuse, .ident]

/-- What is added for the user's orientation. -/
def notes : Choice → List String
  | .expr => ["this is in order to form a valid expression"]
  | _ => []

end Choice

/-- What a parser can take next. -/
inductive Expectation where
  /-- Tokens of one kind. -/
  | one (kind : Kind)
  /-- Tokens of one of several kinds. -/
  | choice (choice : Choice)
deriving DecidableEq, Repr, Inhabited

/-- A fault in the form of a program text. -/
inductive SyntaxError where
  /-- A character that starts no token. -/
  | stray (c : Char) (span : Span)
  /-- A token of another kind than the one expected. -/
  | mismatch (expected : Expectation) (got : Token)
  /-- The end of the text, after the token at `last`, where more was expected. -/
  | unfinished (expected : Expectation) (last : Span)
  /-- A body that starts with a word that is no keyword. -/
  | unknownKeyword (word : Ident)
  /-- A closing parenthesis between items. -/
  | unbalanced (span : Span)
deriving DecidableEq, Repr, Inhabited

namespace SyntaxError

/-- A list of alternatives, each in quotes. -/
def alternatives : List Kind → String
  | [] => ""
  | [k] => s!"or '{k.title}'"
  | k :: rest => s!"'{k.title}', " ++ alternatives rest

/-- The report of a syntax error. -/
def diagnostic : SyntaxError → Diagnostic
  | .stray c span => .error "found invalid token" span s!"'{c}' is not valid here"
  | .mismatch (.one k) got =>
    .error "token type mismatch" got.span s!"expected '{k.title}', but got '{got.kind.title}'"
  | .mismatch (.choice c) got =>
    { message := "token type mismatch"
      label := ⟨got.span, s!"expected {alternatives c.kinds}, but got '{got.kind.title}'"⟩
      notes := c.notes }
  | .unfinished (.one k) last =>
    .error "unexpected end of input" last.clip s!"expected '{k.title}', but reached end of input"
  | .unfinished (.choice c) last =>
    { message := "unexpected end of input"
      label := ⟨last.clip, s!"expected {alternatives c.kinds}"⟩
      notes := c.notes }
  | .unknownKeyword word =>
    (Diagnostic.error "unknown keyword" word.span s!"'{word.val}' cannot start a function body").noting
      "a function body starts with one of 'ret', 'let', 'case', 'inc' or 'dec'"
  | .unbalanced span => .error "unbalanced parentheses" span "this ')' has no matching '('"

end SyntaxError

example : SyntaxError.alternatives Choice.item.kinds = "'Defn', or 'Deftype'" := by decide

end Reclaim.Surface

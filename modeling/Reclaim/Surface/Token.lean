import Reclaim.Source.Span

/-!
# Tokens

A token is a parenthesis or a word, and a word is a keyword or an identifier.  A token carries its
text and the span where it stands.
-/

namespace Reclaim.Surface

/-- A thing together with the place where it is written. -/
structure Spanned (α : Type) where
  /-- Where it is written. -/
  span : Span
  /-- The thing itself. -/
  val : α
deriving DecidableEq, Repr, Inhabited

/-- A word used as a name, before anything is known about what it names. -/
abbrev Ident : Type := Spanned String

/-- The kinds of tokens. -/
inductive Kind where
  | lparen | rparen | ident
  | defn | deftype | lets | case | ret | inc | dec | new | proj | pap | reset | reuse
deriving DecidableEq, Repr, Inhabited

namespace Kind

/-- What diagnostics call a token of this kind. -/
def title : Kind → String
  | .lparen => "LParen"
  | .rparen => "RParen"
  | .ident => "Ident"
  | .defn => "Defn"
  | .deftype => "Deftype"
  | .lets => "Let"
  | .case => "Case"
  | .ret => "Ret"
  | .inc => "Inc"
  | .dec => "Dec"
  | .new => "New"
  | .proj => "Proj"
  | .pap => "Pap"
  | .reset => "Reset"
  | .reuse => "Reuse"

/-- The keywords with their spellings. -/
def keywords : List (String × Kind) :=
  [("defn", .defn), ("deftype", .deftype), ("let", .lets), ("case", .case), ("ret", .ret),
   ("inc", .inc), ("dec", .dec), ("new", .new), ("proj", .proj), ("pap", .pap),
   ("reset", .reset), ("reuse", .reuse)]

/-- The kind of a word: a keyword if it is spelled like one, an identifier otherwise. -/
def ofWord (word : String) : Kind := (keywords.lookup word).getD .ident

end Kind

/-- A token of the source. -/
structure Token where
  /-- Its kind. -/
  kind : Kind
  /-- Its text. -/
  text : String
  /-- Where it stands. -/
  span : Span
deriving DecidableEq, Repr, Inhabited

/-- The text of a token as a name. -/
def Token.ident (t : Token) : Ident := ⟨t.span, t.text⟩

example : Kind.ofWord "let" = .lets ∧ Kind.ofWord "lets" = .ident := by decide

end Reclaim.Surface

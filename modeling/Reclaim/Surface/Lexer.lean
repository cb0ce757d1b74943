import Reclaim.Surface.Token
import Reclaim.Text.Alphanumeric
import Reclaim.Text.Blank

/-!
# From characters to tokens

White space and comments, which run from a semicolon to the end of the line, separate tokens and
are dropped.  A parenthesis is a token by itself.  A word is a longest run of letters, digits,
underscores, hyphens and apostrophes.  Any other character stops the reading, so the result of
`lex` is the tokens before that place together with what stopped it.
-/

namespace Reclaim.Surface

/-- Whether a character may stand in a word. -/
def isWordChar (c : Char) : Bool :=
  Text.isAlphanumeric c || c == '_' || c == '-' || c == '\''

/-- Why no more tokens follow. -/
inductive Stop where
  /-- The text is read to its end. -/
  | finished
  /-- A character that starts no token stands here. -/
  | stray (c : Char) (span : Span)
deriving DecidableEq, Repr, Inhabited

/-- The tokens of a text and what came after the last one. -/
structure Lexed where
  /-- The tokens, in order. -/
  tokens : List Token
  /-- What ended them. -/
  stop : Stop
deriving DecidableEq, Repr, Inhabited

/-- Puts a token in front. -/
def Lexed.cons (t : Token) (l : Lexed) : Lexed := ⟨t :: l.tokens, l.stop⟩

/-- The number of bytes that characters take in the source. -/
def byteSize (cs : List Char) : Nat := cs.foldr (fun c n => c.utf8Size + n) 0

/-- The token of kind `kind` that spells `cs` from offset `pos` on. -/
def tokenAt (kind : Kind) (pos : Nat) (cs : List Char) : Token :=
  ⟨kind, String.ofList cs, ⟨pos, pos + byteSize cs⟩⟩

/-- The tokens of the characters that start at offset `pos`.  A comment ends before the end of its
line, which is white space. -/
def lexFrom (pos : Nat) : List Char → Lexed
  | [] => ⟨[], .finished⟩
  | c :: rest =>
    if Text.isBlank c then
      lexFrom (pos + c.utf8Size) rest
    else if c = ';' then
      lexFrom (pos + byteSize (c :: rest.takeWhile (· != '\n'))) (rest.dropWhile (· != '\n'))
    else if c = '(' then
      (lexFrom (pos + 1) rest).cons (tokenAt .lparen pos [c])
    else if c = ')' then
      (lexFrom (pos + 1) rest).cons (tokenAt .rparen pos [c])
    else if isWordChar c then
      let word := c :: rest.takeWhile isWordChar
      (lexFrom (pos + byteSize word) (rest.dropWhile isWordChar)).cons
        (tokenAt (Kind.ofWord (String.ofList word)) pos word)
    else
      ⟨[], .stray c ⟨pos, pos + c.utf8Size⟩⟩
termination_by cs => cs.length
decreasing_by
  all_goals simp only [List.length_cons]
  all_goals first
    | omega
    | exact Nat.lt_succ_of_le (List.dropWhile_sublist _).length_le

/-- The tokens of a source text. -/
def lex (source : String) : Lexed := lexFrom 0 source.toList

end Reclaim.Surface

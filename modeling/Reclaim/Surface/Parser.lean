import Reclaim.Surface.Lexer
import Reclaim.Surface.SyntaxError
import Reclaim.Surface.Tree

/-!
# From tokens to syntax trees

The parser reads one token at a time and never looks ahead.  Its state says which forms are open
around the point it has reached and what of them has been read, so it is a tree with a hole: the
enclosing bodies are a `BodyContext`, and a `Position` says where in the innermost form the point
lies.  `State.accept` takes a state over one token, and is undefined where no text could go on
like that.  `State.expectation` says what could.

`State.run` is the whole parser, by structural recursion on the tokens.  The text may stop at a
character that starts no token; this is reported as soon as the token before it has been accepted.
A body that starts with an identifier is reported one token later than other faults, by way of a
position from which nothing is accepted.
-/

namespace Reclaim.Surface

/-! ## Open forms -/

/-- How far an expression has been read, after its opening parenthesis. -/
inductive OpenExpr where
  /-- Nothing but the parenthesis. -/
  | head
  /-- `(new`. -/
  | newTag
  /-- `(proj`. -/
  | projField
  /-- `(proj f`. -/
  | projRecord (field : Ident)
  /-- `(pap`. -/
  | papTarget
  /-- `(reset`. -/
  | resetVar
  /-- `(reuse`. -/
  | reuseToken
  /-- `(reuse w`. -/
  | reuseTag (token : Ident)
  /-- An expression that more arguments may follow. -/
  | args (expr : Expr)
  /-- An expression that only has to be closed. -/
  | full (expr : Expr)
deriving DecidableEq, Repr, Inhabited

/-- The forms around a body, from the inside out. -/
inductive BodyContext where
  /-- The body of a function. -/
  | fn (opening : Span) (name : Ident) (params : List Ident)
  /-- The body of a `let`. -/
  | lets (opening : Span) (bindings : List Binding) (outer : BodyContext)
  /-- The body of an arm, after earlier arms. -/
  | arm (opening : Span) (scrutinee : Ident) (arms : List Arm) (tag : Ident) (outer : BodyContext)
  /-- The body of an `inc`. -/
  | inc (opening : Span) (var : Ident) (outer : BodyContext)
  /-- The body of a `dec`. -/
  | dec (opening : Span) (var : Ident) (outer : BodyContext)
deriving Repr, Inhabited

/-- The point that has been reached. -/
inductive Position where
  /-- Between items. -/
  | items
  /-- After the parenthesis that opens an item. -/
  | itemHead (opening : Span)
  /-- `(deftype`. -/
  | typeTag (opening : Span)
  /-- `(deftype Tag f ...`. -/
  | typeFields (opening : Span) (tag : Ident) (fields : List Ident)
  /-- `(defn`. -/
  | fnName (opening : Span)
  /-- `(defn f`. -/
  | fnOpen (opening : Span) (name : Ident)
  /-- `(defn f (x ...`. -/
  | fnParams (opening : Span) (name : Ident) (params : List Ident)
  /-- A function that only has to be closed. -/
  | fnClose (opening : Span) (name : Ident) (params : List Ident) (body : Spanned Body)
  /-- Before a body. -/
  | body (context : BodyContext)
  /-- After the parenthesis that opens a body. -/
  | bodyHead (opening : Span) (context : BodyContext)
  /-- A body that only has to be closed. -/
  | bodyClose (opening : Span) (body : Body) (context : BodyContext)
  /-- `(ret`. -/
  | retVar (opening : Span) (context : BodyContext)
  /-- `(let`. -/
  | letsOpen (opening : Span) (context : BodyContext)
  /-- `(let (x e ...`. -/
  | letsBinder (opening : Span) (bindings : List Binding) (context : BodyContext)
  /-- `(let (x e ... x`. -/
  | letsExpr (opening : Span) (bindings : List Binding) (binder : Ident) (context : BodyContext)
  /-- Inside the expression of a binding. -/
  | expr (opening : Span) (bindings : List Binding) (binder : Ident) (exprOpening : Span)
      (expr : OpenExpr) (context : BodyContext)
  /-- `(case`. -/
  | caseVar (opening : Span) (context : BodyContext)
  /-- `(case x Tag b ...`. -/
  | caseArms (opening : Span) (scrutinee : Ident) (arms : List Arm) (context : BodyContext)
  /-- `(inc`. -/
  | incVar (opening : Span) (context : BodyContext)
  /-- `(dec`. -/
  | decVar (opening : Span) (context : BodyContext)
  /-- After a word that starts no body; nothing can follow. -/
  | misnamed (word : Ident)
deriving Repr, Inhabited

/-- The state of the parser. -/
structure State where
  /-- The items that have been read. -/
  items : Tree := []
  /-- The point in the next one. -/
  position : Position := .items
  /-- Where the last token stands. -/
  last : Span := .none
deriving Repr, Inhabited

/-! ## One token -/

namespace OpenExpr

/-- The expression with one more argument.  Projections and resets take no more. -/
def extend : Expr → Ident → Expr
  | .new tag fields, x => .new tag (fields ++ [x])
  | .pap target xs, x => .pap target (xs ++ [x])
  | .app target xs, x => .app target (xs ++ [x])
  | .reuse token tag fields, x => .reuse token tag (fields ++ [x])
  | e, _ => e

/-- An expression after one more token, which does not close it. -/
def accept (e : OpenExpr) (t : Token) : Option OpenExpr :=
  match e, t.kind with
  | .head, .new => some .newTag
  | .head, .proj => some .projField
  | .head, .pap => some .papTarget
  | .head, .reset => some .resetVar
  | .head, .reuse => some .reuseToken
  | .head, .ident => some (.args (.app t.ident []))
  | .newTag, .ident => some (.args (.new t.ident []))
  | .projField, .ident => some (.projRecord t.ident)
  | .projRecord field, .ident => some (.full (.proj field t.ident))
  | .papTarget, .ident => some (.args (.pap t.ident []))
  | .resetVar, .ident => some (.full (.reset t.ident))
  | .reuseToken, .ident => some (.reuseTag t.ident)
  | .reuseTag token, .ident => some (.args (.reuse token t.ident []))
  | .args e, .ident => some (.args (extend e t.ident))
  | _, _ => none

/-- The expression, if a closing parenthesis may come. -/
def complete? : OpenExpr → Option Expr
  | .args e => some e
  | .full e => some e
  | _ => none

/-- What an open expression can go on with. -/
def expectation : OpenExpr → Expectation
  | .head => .choice .expr
  | .full _ => .one .rparen
  | _ => .one .ident

end OpenExpr

/-- The point after a body has been read in a context. -/
def BodyContext.resume (b : Spanned Body) : BodyContext → Position
  | .fn opening name params => .fnClose opening name params b
  | .lets opening bindings outer => .bodyClose opening (.lets bindings b) outer
  | .arm opening scrutinee arms tag outer => .caseArms opening scrutinee (arms ++ [(tag, b)]) outer
  | .inc opening var outer => .bodyClose opening (.inc var b) outer
  | .dec opening var outer => .bodyClose opening (.dec var b) outer

namespace Position

/-- The point after one more token, as long as the token ends no item. -/
def accept (p : Position) (t : Token) : Option Position :=
  match p, t.kind with
  | .items, .lparen => some (.itemHead t.span)
  | .itemHead opening, .defn => some (.fnName opening)
  | .itemHead opening, .deftype => some (.typeTag opening)
  | .typeTag opening, .ident => some (.typeFields opening t.ident [])
  | .typeFields opening tag fields, .ident => some (.typeFields opening tag (fields ++ [t.ident]))
  | .fnName opening, .ident => some (.fnOpen opening t.ident)
  | .fnOpen opening name, .lparen => some (.fnParams opening name [])
  | .fnParams opening name params, .ident => some (.fnParams opening name (params ++ [t.ident]))
  | .fnParams opening name params, .rparen => some (.body (.fn opening name params))
  | .body context, .lparen => some (.bodyHead t.span context)
  | .bodyHead opening context, .ret => some (.retVar opening context)
  | .bodyHead opening context, .lets => some (.letsOpen opening context)
  | .bodyHead opening context, .case => some (.caseVar opening context)
  | .bodyHead opening context, .inc => some (.incVar opening context)
  | .bodyHead opening context, .dec => some (.decVar opening context)
  | .bodyHead _ _, .ident => some (.misnamed t.ident)
  | .bodyClose opening b context, .rparen => some (context.resume ⟨opening.through t.span, b⟩)
  | .retVar opening context, .ident => some (.bodyClose opening (.ret t.ident) context)
  | .letsOpen opening context, .lparen => some (.letsBinder opening [] context)
  | .letsBinder opening bindings context, .ident => some (.letsExpr opening bindings t.ident context)
  | .letsBinder opening bindings context, .rparen => some (.body (.lets opening bindings context))
  | .letsExpr opening bindings binder context, .lparen =>
    some (.expr opening bindings binder t.span .head context)
  | .expr opening bindings binder exprOpening e context, .rparen =>
    e.complete?.map fun e =>
      .letsBinder opening (bindings ++ [⟨binder, exprOpening.through t.span, e⟩]) context
  | .expr opening bindings binder exprOpening e context, _ =>
    (e.accept t).map fun e => .expr opening bindings binder exprOpening e context
  | .caseVar opening context, .ident => some (.caseArms opening t.ident [] context)
  | .caseArms opening scrutinee arms context, .ident =>
    some (.body (.arm opening scrutinee arms t.ident context))
  | .caseArms opening scrutinee arms context, .rparen =>
    some (context.resume ⟨opening.through t.span, .case scrutinee arms⟩)
  | .incVar opening context, .ident => some (.body (.inc opening t.ident context))
  | .decVar opening context, .ident => some (.body (.dec opening t.ident context))
  | _, _ => none

/-- The item that a closing parenthesis completes here. -/
def complete? (closing : Span) : Position → Option (Spanned Item)
  | .typeFields opening tag fields => some ⟨opening.through closing, .type tag fields⟩
  | .fnClose opening name params b => some ⟨opening.through closing, .fn name params b⟩
  | _ => none

/-- What can come at a point.  Where a list of names may go on or be closed, a name is asked for. -/
def expectation : Position → Expectation
  | .items | .fnOpen .. | .body .. | .letsOpen .. | .letsExpr .. => .one .lparen
  | .itemHead .. => .choice .item
  | .bodyHead .. => .choice .body
  | .expr _ _ _ _ e _ => e.expectation
  | .fnClose .. | .bodyClose .. => .one .rparen
  | .typeTag .. | .typeFields .. | .fnName .. | .fnParams .. | .retVar .. | .letsBinder ..
  | .caseVar .. | .caseArms .. | .incVar .. | .decVar .. | .misnamed .. => .one .ident

end Position

namespace State

/-- The state after one more token, if some program text can go on like that. -/
def accept (s : State) (t : Token) : Option State :=
  match t.kind, s.position.complete? t.span with
  | .rparen, some item => some ⟨s.items ++ [item], .items, t.span⟩
  | _, _ => (s.position.accept t).map fun p => ⟨s.items, p, t.span⟩

/-- What is wrong with a token that is not accepted. -/
def refusal (s : State) (t : Token) : SyntaxError :=
  match s.position, t.kind with
  | .misnamed word, _ => .unknownKeyword word
  | .items, .rparen => .unbalanced t.span
  | p, _ => .mismatch p.expectation t

/-- The items, if the text may end here. -/
def finish (s : State) : Except SyntaxError Tree :=
  match s.position with
  | .items => .ok s.items
  | .misnamed word => .error (.unknownKeyword word)
  | p => .error (.unfinished p.expectation s.last)

/-- Reads the remaining tokens. -/
def run (stop : Stop) : State → List Token → Except SyntaxError Tree
  | s, [] => match stop with
    | .finished => s.finish
    | .stray c span => .error (.stray c span)
  | s, t :: rest => match s.accept t with
    | some s' => run stop s' rest
    | none => .error (s.refusal t)
termination_by structural _ ts => ts

end State

/-- The syntax tree of a program text. -/
def parse (source : String) : Except SyntaxError Tree :=
  let lexed := lex source
  State.run lexed.stop {} lexed.tokens

end Reclaim.Surface

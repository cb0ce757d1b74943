/-!
# Options

What the user asks for on the command line.  The source file has to be given; everything else has a
default.  A key and its value are two arguments (`--src a.txt`) or one (`--src=a.txt`, `-ca.txt`).
-/

namespace Reclaim.CommandLine

/-- When reports are coloured. -/
inductive Colour where
  /-- If the terminal takes colours. -/
  | auto
  /-- In any case. -/
  | always
  /-- Never. -/
  | never
deriving DecidableEq, Repr, Inhabited

/-- The options of a run. -/
structure Options where
  /-- The source file. -/
  source : String
  /-- The function to evaluate. -/
  entry : String := "main"
  /-- Whether memory management is made explicit before the run. -/
  reuse : Bool := false
  /-- Whether the heap's counters are shown after the run. -/
  stats : Bool := false
  /-- Whether the result is dropped and an empty heap asked for. -/
  checkLeaks : Bool := false
  /-- Whether the syntax tree is shown in outline. -/
  dumpTrees : Bool := false
  /-- Whether the syntax tree is printed. -/
  prettyPrint : Bool := false
  /-- Whether the program is printed, in the form in which it is run. -/
  dumpIr : Bool := false
  /-- When reports are coloured. -/
  colour : Colour := .auto
deriving DecidableEq, Repr, Inhabited

/-- The meaning of a word for the colour option, in upper or lower case. -/
def Colour.ofWord? (word : String) : Option Colour :=
  match word.toLower with
  | "auto" => some .auto
  | "always" => some .always
  | "ansi" => some .always
  | "never" => some .never
  | _ => none

/-- The options with the colour setting in force, given whether the terminal takes colours. -/
def Options.settled (o : Options) (takesColours : Bool) : Options :=
  match o.colour with
  | .auto => { o with colour := if takesColours then .always else .never }
  | .always | .never => o

/-!
## Settings

The arguments are read as a list of settings, and each setting changes one option.
-/

/-- One thing that the user asks for. -/
inductive Setting where
  /-- The source file. -/
  | source (path : String)
  /-- The function to evaluate. -/
  | entry (name : String)
  /-- When reports are coloured. -/
  | colour (choice : Colour)
  /-- Explicit memory management. -/
  | reuse
  /-- The heap's counters. -/
  | stats
  /-- A check for leaks. -/
  | checkLeaks
  /-- The syntax tree in outline. -/
  | dumpTrees
  /-- The syntax tree, printed. -/
  | prettyPrint
  /-- The program, printed. -/
  | dumpIr
deriving DecidableEq, Repr, Inhabited

/-- The options with one more setting. -/
def Options.set (o : Options) : Setting → Options
  | .source path => { o with source := path }
  | .entry name => { o with entry := name }
  | .colour choice => { o with colour := choice }
  | .reuse => { o with reuse := true }
  | .stats => { o with stats := true }
  | .checkLeaks => { o with checkLeaks := true }
  | .dumpTrees => { o with dumpTrees := true }
  | .prettyPrint => { o with prettyPrint := true }
  | .dumpIr => { o with dumpIr := true }

namespace Setting

/-- The path that a setting gives for the source file. -/
def path? : Setting → Option String
  | .source path => some path
  | _ => none

/-- The setting that a name makes by itself. -/
def ofName? : String → Option Setting
  | "reuse" => some .reuse
  | "stats" => some .stats
  | "check-leaks" => some .checkLeaks
  | "dump-trees" => some .dumpTrees
  | "pretty-print" => some .prettyPrint
  | "dump-ir" => some .dumpIr
  | _ => none

end Setting

/-- What takes a value. -/
inductive Key where
  /-- The source file. -/
  | source
  /-- The function to evaluate. -/
  | entry
  /-- When reports are coloured. -/
  | colour
deriving DecidableEq, Repr, Inhabited

namespace Key

/-- The key of a name. -/
def ofName? : String → Option Key
  | "src" => some .source
  | "entry" => some .entry
  | "color" => some .colour
  | _ => none

/-- Whether a key may stand without a value, which leaves the option as it is. -/
def isOptional : Key → Bool
  | .source => false
  | .entry | .colour => true

/-- The setting that a key makes with its value. -/
def setting? (value : String) : Key → Option Setting
  | .source => some (.source value)
  | .entry => some (.entry value)
  | .colour => (Colour.ofWord? value).map .colour

end Key

/-!
## Arguments

A name stands after two dashes or more, and the source file has the short form of one dash and the
letter `c`.  A value is the next argument, or it stands in the same one after the name and any
number of equals signs; the short form needs no sign.  What makes a setting by itself may carry a
value too, which means nothing.  An argument that looks like an option is no value, so the key
before it has none.
-/

/-- What one argument says. -/
inductive Word where
  /-- A whole setting. -/
  | setting (setting : Setting)
  /-- A key whose value is the next argument. -/
  | key (key : Key)
  /-- That no option follows. -/
  | last
deriving DecidableEq, Repr, Inhabited

namespace Word

/-- A value behind any number of equals signs. -/
def valueOf (cs : List Char) : String := String.ofList (cs.dropWhile (· == '='))

/-- What an argument says after its dashes. -/
def ofLong? (cs : List Char) : Option Word :=
  let name := String.ofList (cs.takeWhile (· != '='))
  match Setting.ofName? name, Key.ofName? name, cs.dropWhile (· != '=') with
  | some s, _, _ => some (.setting s)
  | none, some k, [] => some (.key k)
  | none, some k, value => (k.setting? (valueOf value)).map .setting
  | none, none, _ => none

/-- What an argument says. -/
def ofArg? (arg : String) : Option Word :=
  match arg.toList with
  | ['-', '-'] => some .last
  | '-' :: '-' :: cs => ofLong? (cs.dropWhile (· == '-'))
  | ['-', 'c'] => some (.key .source)
  | '-' :: 'c' :: value => some (.setting (.source (valueOf value)))
  | _ => none

/-- Whether an argument can be a value: it does not look like an option. -/
def isValue (arg : String) : Bool :=
  match arg.toList with
  | '-' :: _ :: _ => false
  | _ => true

end Word

/-- The settings that arguments spell after a key that may be waiting for its value; `none` if they
cannot be understood. -/
def Setting.ofArgs? (waiting : Option Key) : List String → Option (List Setting)
  | [] => if waiting.all Key.isOptional then some [] else none
  | arg :: rest => match waiting.filter fun _ => Word.isValue arg with
    | some k => do return (← k.setting? arg) :: (← ofArgs? none rest)
    | none =>
      if waiting.all Key.isOptional then do
        match ← Word.ofArg? arg with
        | .setting s => return s :: (← ofArgs? none rest)
        | .key k => ofArgs? (some k) rest
        | .last => if rest.isEmpty then return [] else none
      else none
termination_by structural args => args

/-- The options that arguments spell; the source file must be among them. -/
def Options.ofArgs? (args : List String) : Option Options := do
  let settings ← Setting.ofArgs? none args
  let path ← settings.findSome? Setting.path?
  return settings.foldl Options.set { source := path }

example : Options.ofArgs? ["-ca.txt", "--entry=go", "--reuse", "--color", "ALWAYS"]
    = some { source := "a.txt", entry := "go", reuse := true, colour := .always } := by decide +kernel
example : Options.ofArgs? ["-c==a.txt", "---entry==", "--stats=no", "--"]
    = some { source := "a.txt", entry := "", stats := true } := by decide +kernel
example : Options.ofArgs? ["--entry", "-c", "a.txt", "--color"] = some { source := "a.txt" } := by
  decide +kernel
example : Options.ofArgs? ["--reuse"] = none := by decide +kernel
example : Options.ofArgs? ["--reuse", "-c"] = none := by decide +kernel

end Reclaim.CommandLine

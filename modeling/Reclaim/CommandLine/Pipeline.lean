import Reclaim.CommandLine.Options
import Reclaim.Counting.Insertion
import Reclaim.Core.Printer
import Reclaim.Eval.Result
import Reclaim.Loading
import Reclaim.Source.Report
import Reclaim.Surface.Outline
import Reclaim.Surface.Printer

/-!
# From options to output

What a run writes to its two output streams and how it ends, as a function of the options and of the
text of the source file.  What has been written before a failure stays written; the failure itself is
reported last.
-/

namespace Reclaim.CommandLine

open Reclaim.Core

/-- What has been written so far. -/
structure Transcript where
  /-- To the output stream. -/
  out : String := ""
  /-- To the error stream. -/
  err : String := ""
deriving DecidableEq, Repr, Inhabited

/-- A task that writes and may fail. -/
abbrev Task (α : Type) : Type := ExceptT Diagnostic (StateM Transcript) α

namespace Task

/-- Writes to the output stream. -/
def print (s : String) : Task Unit := modify fun t => { t with out := t.out ++ s }

/-- Writes to the error stream. -/
def complain (s : String) : Task Unit := modify fun t => { t with err := t.err ++ s }

/-- Writes to the output stream if asked to. -/
def printIf (isWanted : Bool) (s : Unit → String) : Task Unit := if isWanted then print (s ()) else return

/-- Goes on with a result, or fails with its report. -/
def get {ε α : Type} (diagnose : ε → Diagnostic) (r : Except ε α) : Task α :=
  match r with
  | .ok a => return a
  | .error e => throw (diagnose e)

end Task

/-- The program of a text, with the dumps that are asked for.  If memory management is to be made
explicit, the program is not printed before that is done. -/
def loadTask (o : Options) (source : String) : Task Program := do
  let tree ← Task.get Surface.SyntaxError.diagnostic (Surface.parse source)
  Task.printIf o.dumpTrees fun _ => Surface.Tree.outline tree
  Task.printIf o.prettyPrint fun _ => Surface.Tree.print tree
  let p ← Task.get ResolutionError.diagnostic (resolve tree)
  Task.printIf (o.dumpIr && !o.reuse) fun _ => p.print
  Task.get ValidityError.diagnostic p.validate
  return p

/-- The program with its memory management made explicit, with the dump that is asked for. -/
def reuseTask (o : Options) (p : Program) : Task Program := do
  let q := Counting.insertCounts p
  Task.printIf o.dumpIr fun _ => q.print
  Task.get ValidityError.diagnostic q.validate
  return q

/-- The program to run. -/
def prepareTask (o : Options) (source : String) : Task Program := do
  let p ← loadTask o source
  if o.reuse then reuseTask o p else return p

/-- A whole run on a source text. -/
def runTask (o : Options) (source : String) : Task Unit := do
  let p ← prepareTask o source
  let (result, h) := run p callDepth o.entry Heap.empty
  let l ← Task.get Halt.diagnostic result
  Task.print ((← Task.get id (renderAt p h l)) ++ "\n")
  if o.stats then Task.complain (h.stats.describe ++ "\n")
  if o.checkLeaks then Task.get id (checkLeaks h l)

/-- How a run ended. -/
structure Outcome where
  /-- Whether nothing failed. -/
  succeeded : Bool
  /-- What it wrote. -/
  transcript : Transcript
deriving DecidableEq, Repr, Inhabited

/-- The exit code of a run. -/
def Outcome.code (r : Outcome) : Nat := if r.succeeded then 0 else 1

/-- Carries out a task on a text, and reports its failure on the error stream.  Only an explicit wish
makes the report coloured. -/
def perform {α : Type} (o : Options) (source : String) (task : Task α) : Outcome :=
  match task {} with
  | (.ok _, t) => ⟨true, t⟩
  | (.error d, t) =>
    ⟨false, { t with err := t.err ++ Source.Diagnostic.print (o.colour == .always) o.source source d }⟩

/-- Loads and prepares a program and does not run it. -/
def prepare (o : Options) (source : String) : Outcome := perform o source (prepareTask o source)

/-- Carries out a run.  `read` gives the text of a file or says why it cannot be read; in that case the
report is on an empty text. -/
def execute (o : Options) (read : String → Except String String) : Outcome :=
  match read o.source with
  | .ok source => perform o source (runTask o source)
  | .error reason =>
    perform o "" (throw (.error "failed to read source file" .none reason) : Task Unit)

end Reclaim.CommandLine

import PddlOutline.CommandLine.Options
import PddlOutline.Diagnostic.Render
import PddlOutline.Files.Discovery
import PddlOutline.Json.Catalog
import PddlOutline.Reading.Catalog

/-!
This module contains a run of the command line: the domain is given or searched for, all documents
are loaded and read, and the catalog is printed. A run that fails prints nothing but the reason.
-/

namespace PddlOutline
namespace CommandLine

structure Outcome where
  exitCode : Nat
  stdout : String
  log : List String
  failure : Option String
deriving Repr, DecidableEq

abbrev Report := List LogRecord × Except Diagnostic String

def missingProblem (p : Path) : Diagnostic :=
  .error ("Problem file " ++ p.text ++ " does not exist")

def noDomain : Diagnostic :=
  .error ("Unable to automatically find the domain file. "
    ++ "Consider specifying the domain with the option -d/--domain")

def fileDiagnostic (e : FileError) : Diagnostic :=
  .error e.message

variable {m : Type → Type} [Monad m]

namespace Options

/--
The catalog in the format that was asked for. Text has no compact form.
-/
def print (o : Options) (c : Catalog) : String :=
  match o.format with
  | .json => c.toJson (if o.compact then .compact else .pretty)
  | .text => c.toText

def report (o : Options) (domain : Document) (problems : List Document) : Report :=
  let run := Catalog.read domain problems
  (LogRecord.ofCatalog domain run.log,
    match run.outcome with
    | .ok c => .ok (o.print c)
    | .error e => .error (Diagnostic.ofError e.document e.error))

def load (o : Options) (files : FileAccess m) (domain : Path) :
    m (Except FileError (Document × List Document)) := do
  match ← files.load domain with
  | .error e => return .error e
  | .ok d =>
    let problems ← files.loadAll o.problems
    return problems.map (d, ·)

def reportOn (o : Options) (files : FileAccess m) (domain : Path) : m Report := do
  let chosen : LogRecord := ⟨none, .domainChosen domain.text⟩
  match ← o.load files domain with
  | .error e => return ([chosen], .error (fileDiagnostic e))
  | .ok (d, problems) =>
    let (records, result) := o.report d problems
    return (chosen :: records, result)

def findDomain (files : FileAccess m) (problem : Path) :
    m (List LogRecord × Except Diagnostic Path) := do
  match ← files.resolve problem with
  | .error e => return ([], .error (fileDiagnostic e))
  | .ok resolved =>
    match ← Discovery.find files resolved with
    | .error _ => return ([], .error noDomain)
    | .ok domain => return ([⟨none, .domainFound resolved.text domain.text⟩], .ok domain)

def chooseDomain (o : Options) (files : FileAccess m) :
    m (List LogRecord × Except Diagnostic Path) :=
  match o.domain, o.problems with
  | some domain, _ => return ([], .ok domain)
  | none, problem :: _ => findDomain files problem
  | none, [] => return ([], .error noDomain)

def execute (o : Options) (files : FileAccess m) : m Report := do
  match ← files.firstMissing? o.problems with
  | some p => return ([], .error (missingProblem p))
  | none =>
    let (found, domain) ← o.chooseDomain files
    match domain with
    | .error d => return (found, .error d)
    | .ok domain =>
      let (records, result) ← o.reportOn files domain
      return (found ++ records, result)

end Options

def Outcome.ofReport (level : Level) (report : Report) : Outcome :=
  let log := LogRecord.lines level report.1
  match report.2 with
  | .ok text => ⟨0, text ++ "\n", log, none⟩
  | .error d => ⟨1, "", log, some d.body⟩

def Outcome.ofUsageError : UsageError → Outcome
  | .helpRequested => ⟨0, usage ++ "\n", [], none⟩
  | _ => ⟨2, "", [], none⟩

def run (files : FileAccess m) (arguments : List String) (environment : Option String) :
    m Outcome :=
  match Options.ofArguments arguments environment with
  | .error e => return .ofUsageError e
  | .ok options => do
    let report ← options.execute files
    return .ofReport options.level report

end CommandLine
end PddlOutline

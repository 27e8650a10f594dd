import PddlOutline.CommandLine.Run
import PddlOutline.Proofs.Diagnostic
import PddlOutline.Proofs.Files
import PddlOutline.Proofs.Session
import PddlOutline.Proofs.Summary

/-!
This module contains what a run of the command line comes to. It prints what is read from the files,
all of it or nothing but the first reason why it cannot be read, and it makes no difference whether
the domain is found or given.
-/

namespace PddlOutline

namespace Path

end Path

/--
Whoever is to blame, the failure lies within the document that is named along with it.
-/
theorem Catalog.isLocated_of_read_error {domain : Document} {problems : List Document}
    {failure : Failure} (h : (read domain problems).outcome = .error failure) :
    failure.error.IsLocated failure.document.fragment := by
  cases hread : (Domain.read domain).outcome with
  | error e =>
    rw [read_of_domain_error hread] at h
    cases h
    exact Domain.isLocated_of_read_error hread
  | ok d =>
    have houtcome := isOutcome_read hread problems
    rw [h] at houtcome
    exact Problem.isLocated_of_read_error houtcome.1

namespace CommandLine

namespace Argument

end Argument

namespace Given

variable {g g' : Given} {p : Path} {text : String} {arguments : List String}

end Given

namespace Options

variable {o : Options} {arguments : List String} {environment : Option String}

/--
What a run with some options comes to on a tree of files: the text to print, or why there is none.
-/
def result (o : Options) (t : FileTree) : Except Diagnostic String :=
  (o.execute t.access).run.2

end Options

/--
Whether a catalog can be read from the files at some paths.
-/
def Reads (t : FileTree) (domain : Path) (problems : List Path) (c : Catalog) : Prop :=
  (∀ p ∈ problems, t.reaches p) ∧ ∃ d ds, t.Holds domain d ∧ List.Forall₂ t.Holds problems ds
    ∧ (Catalog.read d ds).outcome = .ok c

/--
Why a catalog cannot be read from the files at some paths.
-/
inductive Cause
  | missing (p : Path)
  | unreadable (e : FileError)
  | invalid (failure : Failure)

/--
What comes first of all that keeps a catalog from being read: a problem that is not there, then a
domain that is no text, then a problem that is no text, then what is wrong in the texts.
-/
inductive Blames (t : FileTree) (domain : Path) (problems : List Path) : Cause → Prop
  | missing {before behind : List Path} {p : Path} (hproblems : problems = before ++ p :: behind)
    (hbefore : ∀ q ∈ before, t.reaches q) (hp : ¬ t.reaches p) :
    Blames t domain problems (.missing p)
  | domain {e : FileError} (hall : ∀ p ∈ problems, t.reaches p) (he : t.Fails domain e) :
    Blames t domain problems (.unreadable e)
  | problem {before behind : List Path} {p : Path} {d : Document} {e : FileError}
    (hall : ∀ p ∈ problems, t.reaches p) (hd : t.Holds domain d)
    (hproblems : problems = before ++ p :: behind) (hbefore : ∀ q ∈ before, ∃ d, t.Holds q d)
    (he : t.Fails p e) : Blames t domain problems (.unreadable e)
  | text {d : Document} {ds : List Document} {failure : Failure}
    (hall : ∀ p ∈ problems, t.reaches p) (hd : t.Holds domain d)
    (hds : List.Forall₂ t.Holds problems ds)
    (hfailure : (Catalog.read d ds).outcome = .error failure) :
    Blames t domain problems (.invalid failure)

namespace Cause

end Cause

variable {t : FileTree} {domain : Path} {problems : List Path} {o : Options} {c : Catalog}
  {cause : Cause} {arguments : List String} {environment : Option String}

namespace Outcome

/--
Whether a run ends with a result: it prints the text and a newline, or nothing but the reason.
-/
def EndsWith (outcome : Outcome) : Except Diagnostic String → Prop
  | .ok text => outcome.exitCode = 0 ∧ outcome.stdout = text ++ "\n" ∧ outcome.failure = none
  | .error reason =>
    outcome.exitCode = 1 ∧ outcome.stdout = "" ∧ outcome.failure = some reason.body

/--
Whether two runs end alike, though their logs may differ.
-/
def Alike (a b : Outcome) : Prop :=
  a.exitCode = b.exitCode ∧ a.stdout = b.stdout ∧ a.failure = b.failure

theorem EndsWith.alike {a b : Outcome} {result : Except Diagnostic String} (ha : a.EndsWith result)
    (hb : b.EndsWith result) : a.Alike b := by
  cases result with
  | ok text =>
    exact ⟨ha.1.trans hb.1.symm, ha.2.1.trans hb.2.1.symm, ha.2.2.trans hb.2.2.symm⟩
  | error reason =>
    exact ⟨ha.1.trans hb.1.symm, ha.2.1.trans hb.2.1.symm, ha.2.2.trans hb.2.2.symm⟩

end Outcome

end CommandLine

end PddlOutline

import PddlOutline.Model.Catalog
import PddlOutline.Reading.Domain
import PddlOutline.Reading.Problem

/-!
This module contains the reading of a domain together with its problems. The problems are filed
under the domain they are read with, whatever domain they declare.
-/

namespace PddlOutline

structure Failure where
  document : Document
  error : ReadError
deriving Repr, DecidableEq

namespace Catalog

def readProblem (d : Domain) (problem : Document) : Traced Failure Problem := do
  let p ← (Problem.read problem).mapError (Failure.mk problem)
  Traced.emit (.problemRead p)
  if p.domainLink ≠ d.name then
    Traced.emit (.foreignProblem p)
  return p

def addProblems (d : Domain) : List Document → Traced Failure Domain
  | [] => pure d
  | problem :: problems => do
    let p ← readProblem d problem
    addProblems (d.addProblem p) problems

def read (domain : Document) (problems : List Document) : Traced Failure Catalog := do
  let d ← (Domain.read domain).mapError (Failure.mk domain)
  Traced.emit (.domainRead d)
  let d ← addProblems d problems
  return single d

end Catalog

def Document.sourceName (d : Document) : String :=
  d.source.getD "<string>"

def LogRecord.ofCatalog (domain : Document) (log : List Event) : List LogRecord :=
  log.map (⟨some domain.sourceName, ·⟩)

end PddlOutline

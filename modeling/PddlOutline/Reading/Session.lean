import PddlOutline.Reading.Catalog

/-!
This module contains sessions, to which problems of a domain are submitted one at a time. A problem
is kept if the domain can be read together with all problems kept so far and the new one.
-/

namespace PddlOutline

structure Session where
  domain : Document
  kept : List Document
deriving Repr, DecidableEq

namespace Session

def start (domain : Document) : Session :=
  ⟨domain, []⟩

def attempt (s : Session) (problem : Document) : Except Failure Catalog :=
  (Catalog.read s.domain (s.kept ++ [problem])).outcome

def submit (s : Session) (problem : Document) : Session :=
  match s.attempt problem with
  | .ok _ => { s with kept := s.kept ++ [problem] }
  | .error _ => s

def run (s : Session) : List Document → List (Except Failure Catalog)
  | [] => []
  | problem :: problems => s.attempt problem :: (s.submit problem).run problems

end Session
end PddlOutline

import Mathlib.Control.Monad.Basic
import PddlOutline.Proofs.Success
import PddlOutline.Reading.Session

/-!
This module contains what comes of reading a domain with several problems, at once or one after the
other. Whether a problem can be read does not depend on the others, so a session is a fold: it files
the problems that can be read and nothing is left of the others.
-/

namespace PddlOutline

theorem Traced.outcome_mapError {ε δ α : Type} (f : ε → δ) (x : Traced ε α) :
    (x.mapError f).outcome = x.outcome.mapError f := rfl

namespace Problem

def IsReadable (problem : Document) : Prop :=
  ∃ p, (read problem).outcome = .ok p

/--
The problems that can be read among some documents, in their order.
-/
def accepted (problems : List Document) : List Problem :=
  problems.filterMap fun problem => (read problem).outcome.toOption

theorem accepted_append (before after : List Document) :
    accepted (before ++ after) = accepted before ++ accepted after :=
  List.filterMap_append

theorem accepted_cons_of_ok {problem : Document} {p : Problem}
    (h : (read problem).outcome = .ok p) (problems : List Document) :
    accepted (problem :: problems) = p :: accepted problems := by
  rw [accepted, List.filterMap_cons, h]
  rfl

theorem accepted_cons_of_error {problem : Document} {e : ReadError}
    (h : (read problem).outcome = .error e) (problems : List Document) :
    accepted (problem :: problems) = accepted problems := by
  rw [accepted, List.filterMap_cons, h]
  rfl

theorem mem_accepted {p : Problem} {problems : List Document} :
    p ∈ accepted problems ↔ ∃ problem ∈ problems, (read problem).outcome = .ok p := by
  rw [accepted, List.mem_filterMap]
  constructor
  . rintro ⟨problem, hproblem, hread⟩
    refine ⟨problem, hproblem, ?_⟩
    cases houtcome : (read problem).outcome with
    | error e =>
      rw [houtcome] at hread
      cases hread
    | ok q =>
      rw [houtcome] at hread
      cases hread
      rfl
  . rintro ⟨problem, hproblem, hread⟩
    exact ⟨problem, hproblem, by rw [hread]; rfl⟩

theorem forall_isReadable_or_first_error (problems : List Document) :
    (∀ problem ∈ problems, IsReadable problem)
      ∨ ∃ before problem after e, problems = before ++ problem :: after
        ∧ (∀ other ∈ before, IsReadable other) ∧ (read problem).outcome = .error e := by
  induction problems with
  | nil => exact .inl (by simp)
  | cons problem problems ih =>
    cases hread : (read problem).outcome with
    | error e => exact .inr ⟨[], problem, problems, e, rfl, by simp, hread⟩
    | ok p =>
      have hreadable : IsReadable problem := ⟨p, hread⟩
      rcases ih with hall | ⟨before, other, after, e, rfl, hbefore, hother⟩
      . exact .inl (by simpa using ⟨hreadable, hall⟩)
      . exact .inr ⟨problem :: before, other, after, e, rfl, by simpa using ⟨hreadable, hbefore⟩,
          hother⟩

end Problem

namespace Domain

def withProblems (d : Domain) (ps : List Problem) : Domain :=
  { d with problems := NameMap.ofList Problem.name ps }

theorem foldl_addProblem {d : Domain} (ps : List Problem) (h : d.problems = .empty) :
    ps.foldl addProblem d = d.withProblems ps := by
  induction ps using List.reverseRecOn with
  | nil =>
    rw [withProblems, NameMap.ofList, List.foldl_nil, List.foldl_nil, ← h]
  | append_singleton ps p ih =>
    rw [List.foldl_append, ih, withProblems, withProblems, NameMap.ofList_append_singleton]
    rfl

end Domain

namespace Catalog

/--
Whether a catalog has a single domain, which is `d` with the problems `ps`. They are in the order in
which their names came first, and the last problem of a name is found.
-/
def Files (c : Catalog) (d : Domain) (ps : List Problem) : Prop :=
  ∃ m : NameMap Problem, c.domains.entries = [(d.name, { d with problems := m })]
    ∧ m.keys = (ps.map Problem.name).eraseDups
    ∧ ∀ name, m.get? name = ps.reverse.find? (·.name = name)

def problemNames (c : Catalog) : List String :=
  c.domains.values.flatMap (·.problems.keys)

theorem files_single (d : Domain) (ps : List Problem) :
    (single (d.withProblems ps)).Files d ps :=
  ⟨NameMap.ofList Problem.name ps, rfl, NameMap.keys_ofList Problem.name ps,
    NameMap.get?_ofList Problem.name ps⟩

theorem Files.problemNames_eq {c : Catalog} {d : Domain} {ps : List Problem} (h : c.Files d ps) :
    c.problemNames = (ps.map Problem.name).eraseDups := by
  obtain ⟨m, hentries, hkeys, _⟩ := h
  rw [problemNames, NameMap.values, hentries, ← hkeys]
  simp

/--
What should come of a domain `d` and several problems: all of the problems are filed, or the first
that cannot be read is blamed.
-/
def IsOutcome (d : Domain) (problems : List Document) : Except Failure Catalog → Prop
  | .ok c =>
    (∀ problem ∈ problems, Problem.IsReadable problem) ∧ c.Files d (Problem.accepted problems)
  | .error failure => (Problem.read failure.document).outcome = .error failure.error
    ∧ ∃ before after, problems = before ++ failure.document :: after
      ∧ ∀ other ∈ before, Problem.IsReadable other

variable {domain : Document} {d : Domain} {problems : List Document}

theorem outcome_readProblem (d : Domain) (problem : Document) :
    (readProblem d problem).outcome
      =
    (Problem.read problem).outcome.mapError (Failure.mk problem) := by
  rw [readProblem, Traced.outcome_bind, Traced.outcome_mapError]
  cases (Problem.read problem).outcome with
  | error e => rfl
  | ok p =>
    -- Whether the problem declares another domain makes a difference for the log only.
    show (Traced.emit (.problemRead p) >>= fun _ =>
      if p.domainLink ≠ d.name then _ else _).outcome = .ok p
    split
    . rfl
    . rfl

theorem addProblems_of_forall_isReadable (h : ∀ problem ∈ problems, Problem.IsReadable problem)
    (d : Domain) :
    (addProblems d problems).outcome
      =
    .ok ((Problem.accepted problems).foldl Domain.addProblem d) := by
  induction problems generalizing d with
  | nil => rfl
  | cons problem problems ih =>
    obtain ⟨p, hread⟩ := h problem List.mem_cons_self
    rw [addProblems, Traced.outcome_bind, outcome_readProblem, hread,
      Problem.accepted_cons_of_ok hread]
    exact ih (fun other hother => h other (List.mem_cons_of_mem problem hother)) _

theorem addProblems_of_error {before after : List Document} {problem : Document} {e : ReadError}
    (hbefore : ∀ other ∈ before, Problem.IsReadable other)
    (h : (Problem.read problem).outcome = .error e) (d : Domain) :
    (addProblems d (before ++ problem :: after)).outcome = .error ⟨problem, e⟩ := by
  induction before generalizing d with
  | nil =>
    rw [List.nil_append, addProblems, Traced.outcome_bind, outcome_readProblem, h]
    rfl
  | cons other before ih =>
    obtain ⟨p, hread⟩ := hbefore other List.mem_cons_self
    rw [List.cons_append, addProblems, Traced.outcome_bind, outcome_readProblem, hread]
    exact ih (fun other' hother => hbefore other' (List.mem_cons_of_mem other hother)) _

theorem read_of_domain_error {e : ReadError} (h : (Domain.read domain).outcome = .error e)
    (problems : List Document) : (read domain problems).outcome = .error ⟨domain, e⟩ := by
  rw [read, Traced.outcome_bind, Traced.outcome_mapError, h]
  rfl

theorem read_of_domain_ok (h : (Domain.read domain).outcome = .ok d) (problems : List Document) :
    (read domain problems).outcome = (addProblems d problems).outcome.map single := by
  rw [read, Traced.outcome_bind, Traced.outcome_mapError, h]
  show (addProblems d problems >>= fun d => pure (single d)).outcome = _
  rw [Traced.outcome_bind]
  cases (addProblems d problems).outcome with
  | error e => rfl
  | ok d => rfl

theorem read_of_forall_isReadable (h : (Domain.read domain).outcome = .ok d)
    (hproblems : ∀ problem ∈ problems, Problem.IsReadable problem) :
    (read domain problems).outcome = .ok (single (d.withProblems (Problem.accepted problems))) := by
  rw [read_of_domain_ok h, addProblems_of_forall_isReadable hproblems,
    Domain.foldl_addProblem _ ((Domain.isReadFrom_of_read h).problems)]
  rfl

theorem exists_files_of_read (h : (Domain.read domain).outcome = .ok d)
    (hproblems : ∀ problem ∈ problems, Problem.IsReadable problem) :
    ∃ c, (read domain problems).outcome = .ok c ∧ c.Files d (Problem.accepted problems) :=
  ⟨_, read_of_forall_isReadable h hproblems, files_single d _⟩

theorem read_of_problem_error (h : (Domain.read domain).outcome = .ok d)
    {before after : List Document} {problem : Document} {e : ReadError}
    (hbefore : ∀ other ∈ before, Problem.IsReadable other)
    (hproblem : (Problem.read problem).outcome = .error e) :
    (read domain (before ++ problem :: after)).outcome = .error ⟨problem, e⟩ := by
  rw [read_of_domain_ok h, addProblems_of_error hbefore hproblem]
  rfl

theorem isOutcome_read (h : (Domain.read domain).outcome = .ok d) (problems : List Document) :
    IsOutcome d problems (read domain problems).outcome := by
  rcases Problem.forall_isReadable_or_first_error problems with hall
    | ⟨before, problem, after, e, rfl, hbefore, hproblem⟩
  . obtain ⟨c, hread, hfiles⟩ := exists_files_of_read h hall
    rw [hread]
    exact ⟨hall, hfiles⟩
  . rw [read_of_problem_error h hbefore hproblem]
    exact ⟨hproblem, before, after, rfl, hbefore⟩

theorem exists_of_read_ok {c : Catalog} (h : (read domain problems).outcome = .ok c) :
    ∃ d, (Domain.read domain).outcome = .ok d
      ∧ c = single (d.withProblems (Problem.accepted problems)) := by
  cases hread : (Domain.read domain).outcome with
  | error e =>
    rw [read_of_domain_error hread] at h
    cases h
  | ok d =>
    rcases Problem.forall_isReadable_or_first_error problems with hall
      | ⟨before, problem, after, e, rfl, hbefore, hproblem⟩
    . rw [read_of_forall_isReadable hread hall] at h
      cases h
      exact ⟨d, rfl, rfl⟩
    . rw [read_of_problem_error hread hbefore hproblem] at h
      cases h

end Catalog

namespace Session

/--
The session that is left after some problems have been submitted.
-/
def after (s : Session) (problems : List Document) : Session :=
  problems.foldl submit s

/--
What a session should answer to a problem: it files the problem together with those submitted before
that can be read, or it says why this problem cannot be read.
-/
def IsAnswer (d : Domain) (before : List Document) (problem : Document) :
    Except Failure Catalog → Prop
  | .ok c => Problem.IsReadable problem ∧ c.Files d (Problem.accepted (before ++ [problem]))
  | .error failure => failure.document = problem
    ∧ (Problem.read problem).outcome = .error failure.error

/--
The invariant of a session whose domain can be read: everything that it keeps can be read, and
nothing is lost of the problems submitted so far that can be.
-/
structure Keeps (s : Session) (domain : Document) (problems : List Document) : Prop where
  domain_eq : s.domain = domain
  isReadable : ∀ problem ∈ s.kept, Problem.IsReadable problem
  accepted_eq : Problem.accepted s.kept = Problem.accepted problems

variable {s : Session} {domain problem : Document} {problems : List Document} {d : Domain}
  {e : ReadError}

theorem submit_of_error {failure : Failure} (h : s.attempt problem = .error failure) :
    s.submit problem = s := by
  rw [submit, h]

theorem submit_of_ok {c : Catalog} (h : s.attempt problem = .ok c) :
    s.submit problem = { s with kept := s.kept ++ [problem] } := by
  rw [submit, h]

theorem run_getElem? {i : Nat} (h : problems[i]? = some problem) :
    (s.run problems)[i]? = some ((s.after (problems.take i)).attempt problem) := by
  induction problems generalizing s i with
  | nil => cases h
  | cons other problems ih =>
    cases i with
    | zero =>
      cases h
      rfl
    | succ i => exact ih h

theorem run_eraseIdx {i : Nat} {failure : Failure} (h : problems[i]? = some problem)
    (hattempt : (s.after (problems.take i)).attempt problem = .error failure) :
    s.run (problems.eraseIdx i) = (s.run problems).eraseIdx i
      ∧ s.after (problems.eraseIdx i) = s.after problems := by
  -- The induction is on what is submitted before the problem, which is answered alike.
  induction problems generalizing s i with
  | nil => cases h
  | cons other problems ih =>
    cases i with
    | zero =>
      cases h
      have hsubmit : s.submit problem = s := submit_of_error hattempt
      constructor
      . rw [run, hsubmit]
        rfl
      . rw [after, after, List.foldl_cons, hsubmit]
        rfl
    | succ i =>
      obtain ⟨hrun, hafter⟩ := ih h hattempt
      constructor
      . rw [List.eraseIdx_cons_succ, run, run, hrun]
        rfl
      . exact hafter

theorem attempt_of_domain_error (h : (Domain.read s.domain).outcome = .error e)
    (problem : Document) : s.attempt problem = .error ⟨s.domain, e⟩ :=
  Catalog.read_of_domain_error h _

theorem run_of_domain_error (h : (Domain.read s.domain).outcome = .error e)
    (problems : List Document) : s.run problems = problems.map fun _ => .error ⟨s.domain, e⟩ := by
  induction problems with
  | nil => rfl
  | cons problem problems ih =>
    have hattempt := attempt_of_domain_error h problem
    rw [run, submit_of_error hattempt, hattempt, ih]
    rfl

theorem Keeps.isReadable_append (h : s.Keeps domain problems)
    (hread : Problem.IsReadable problem) : ∀ other ∈ s.kept ++ [problem], Problem.IsReadable other := by
  intro other hother
  cases List.mem_append.mp hother with
  | inl hother => exact h.isReadable other hother
  | inr hother => exact List.mem_singleton.mp hother ▸ hread

theorem Keeps.attempt_of_error (h : s.Keeps domain problems)
    (hd : (Domain.read domain).outcome = .ok d) (hread : (Problem.read problem).outcome = .error e) :
    s.attempt problem = .error ⟨problem, e⟩ := by
  rw [attempt, h.domain_eq]
  exact Catalog.read_of_problem_error hd h.isReadable hread

theorem Keeps.attempt_of_ok (h : s.Keeps domain problems)
    (hd : (Domain.read domain).outcome = .ok d) (hread : Problem.IsReadable problem) :
    ∃ c, s.attempt problem = .ok c ∧ c.Files d (Problem.accepted (problems ++ [problem])) := by
  obtain ⟨c, hc, hfiles⟩ := Catalog.exists_files_of_read hd (h.isReadable_append hread)
  rw [Problem.accepted_append, h.accepted_eq, ← Problem.accepted_append] at hfiles
  exact ⟨c, by rw [attempt, h.domain_eq, hc], hfiles⟩

theorem Keeps.submit (h : s.Keeps domain problems) (hd : (Domain.read domain).outcome = .ok d)
    (problem : Document) : (s.submit problem).Keeps domain (problems ++ [problem]) := by
  cases hread : (Problem.read problem).outcome with
  | error e =>
    rw [submit_of_error (h.attempt_of_error hd hread)]
    refine ⟨h.domain_eq, h.isReadable, ?_⟩
    rw [Problem.accepted_append, Problem.accepted_cons_of_error hread, h.accepted_eq]
    exact (List.append_nil _).symm
  | ok p =>
    obtain ⟨c, hattempt, _⟩ := h.attempt_of_ok hd ⟨p, hread⟩
    rw [submit_of_ok hattempt]
    refine ⟨h.domain_eq, h.isReadable_append ⟨p, hread⟩, ?_⟩
    rw [Problem.accepted_append, h.accepted_eq, ← Problem.accepted_append]

theorem keeps_after (hd : (Domain.read domain).outcome = .ok d) (problems : List Document) :
    ((start domain).after problems).Keeps domain problems := by
  induction problems using List.reverseRecOn with
  | nil => exact ⟨rfl, by simp [after, start], rfl⟩
  | append_singleton problems problem ih =>
    rw [after, List.foldl_append]
    exact ih.submit hd problem

theorem length_run (s : Session) (problems : List Document) :
    (s.run problems).length = problems.length := by
  induction problems generalizing s with
  | nil => rfl
  | cons problem problems ih => rw [run, List.length_cons, ih, List.length_cons]

theorem domain_after (s : Session) (problems : List Document) :
    (s.after problems).domain = s.domain := by
  induction problems generalizing s with
  | nil => rfl
  | cons problem problems ih =>
    have hsubmit : (s.submit problem).domain = s.domain := by
      unfold submit
      split
      . rfl
      . rfl
    exact (ih (s.submit problem)).trans hsubmit

theorem exists_attempt_error (h : (Problem.read problem).outcome = .error e) (domain : Document)
    (problems : List Document) :
    ∃ failure, ((start domain).after problems).attempt problem = .error failure := by
  cases hread : (Domain.read domain).outcome with
  | error e' =>
    have hdomain : ((start domain).after problems).domain = domain := domain_after _ _
    exact ⟨_, attempt_of_domain_error (hdomain.symm ▸ hread) problem⟩
  | ok d => exact ⟨_, (keeps_after hread problems).attempt_of_error hread h⟩

theorem Keeps.isAnswer_attempt (h : s.Keeps domain problems)
    (hd : (Domain.read domain).outcome = .ok d) (problem : Document) :
    IsAnswer d problems problem (s.attempt problem) := by
  cases hread : (Problem.read problem).outcome with
  | error e =>
    rw [h.attempt_of_error hd hread]
    exact ⟨rfl, hread⟩
  | ok p =>
    obtain ⟨c, hattempt, hfiles⟩ := h.attempt_of_ok hd ⟨p, hread⟩
    rw [hattempt]
    exact ⟨⟨p, hread⟩, hfiles⟩

theorem files_of_run {i : Nat} {c : Catalog} (hd : (Domain.read domain).outcome = .ok d)
    (h : ((start domain).run problems)[i]? = some (.ok c)) :
    c.Files d (Problem.accepted (problems.take (i + 1))) := by
  have hlt : i < problems.length := by
    rw [← length_run (start domain) problems]
    exact (List.getElem?_eq_some_iff.mp h).1
  have hproblem : problems[i]? = some problems[i] := List.getElem?_eq_getElem hlt
  have hanswer := (keeps_after hd (problems.take i)).isAnswer_attempt hd problems[i]
  rw [run_getElem? hproblem, Option.some.injEq] at h
  rw [h] at hanswer
  rw [List.take_add_one, hproblem]
  exact hanswer.2

theorem problemNames_isPrefix {i j : Nat} {c c' : Catalog} (hle : i ≤ j)
    (hi : ((start domain).run problems)[i]? = some (.ok c))
    (hj : ((start domain).run problems)[j]? = some (.ok c')) :
    c.problemNames <+: c'.problemNames := by
  cases hd : (Domain.read domain).outcome with
  | error e =>
    rw [run_of_domain_error hd, List.getElem?_map] at hi
    obtain ⟨_, _, hi⟩ := Option.map_eq_some_iff.mp hi
    cases hi
  | ok d =>
    obtain ⟨later, hlater⟩ : problems.take (i + 1) <+: problems.take (j + 1) :=
      List.take_prefix_take_left (Nat.succ_le_succ hle)
    rw [(files_of_run hd hi).problemNames_eq, (files_of_run hd hj).problemNames_eq, ← hlater,
      Problem.accepted_append, List.map_append, List.eraseDups_append]
    exact List.prefix_append _ _

end Session

/--
A session with a domain that can be read is a fold over the problems submitted to it: each of them
is answered as if it were read alone, those that can be read are filed and keep their places, and
those that cannot be read leave the session as it was.
-/
theorem session_folds (domain : Document) (problems : List Document) :
    (∀ e, (Domain.read domain).outcome = .error e →
      (Session.start domain).run problems = (problems.map fun _ => .error ⟨domain, e⟩)
        ∧ (Catalog.read domain problems).outcome = .error ⟨domain, e⟩)
    ∧ (∀ d, (Domain.read domain).outcome = .ok d →
      (∀ (i : Nat) problem, problems[i]? = some problem →
        ∃ answer, ((Session.start domain).run problems)[i]? = some answer
          ∧ Session.IsAnswer d (problems.take i) problem answer)
      ∧ (∃ c, (Catalog.read domain ((Session.start domain).after problems).kept).outcome = .ok c
        ∧ c.Files d (Problem.accepted problems))
      ∧ Catalog.IsOutcome d problems (Catalog.read domain problems).outcome)
    ∧ (∀ (i j : Nat) (c c' : Catalog), i ≤ j →
      ((Session.start domain).run problems)[i]? = some (.ok c) →
      ((Session.start domain).run problems)[j]? = some (.ok c') →
        c.problemNames <+: c'.problemNames)
    ∧ ∀ (i : Nat) problem e, problems[i]? = some problem →
      (Problem.read problem).outcome = .error e →
        (Session.start domain).run (problems.eraseIdx i)
            = ((Session.start domain).run problems).eraseIdx i
          ∧ (Session.start domain).after (problems.eraseIdx i)
            = (Session.start domain).after problems := by
  refine ⟨?_, ?_, ?_, ?_⟩
  . intro e h
    exact ⟨Session.run_of_domain_error h problems, Catalog.read_of_domain_error h problems⟩
  . intro d hd
    refine ⟨?_, ?_, Catalog.isOutcome_read hd problems⟩
    . intro i problem hproblem
      exact ⟨_, Session.run_getElem? hproblem,
        (Session.keeps_after hd (problems.take i)).isAnswer_attempt hd problem⟩
    . have hkeeps := Session.keeps_after hd problems
      rw [← hkeeps.accepted_eq]
      exact Catalog.exists_files_of_read hd hkeeps.isReadable
  . intro i j c c' hle hi hj
    exact Session.problemNames_isPrefix hle hi hj
  . intro i problem e hproblem hread
    obtain ⟨failure, hattempt⟩ := Session.exists_attempt_error hread domain (problems.take i)
    exact Session.run_eraseIdx hproblem hattempt

theorem session_folds_resubmitted :
    let p := Document.ofString "(define (problem p) (:domain d))"
    let broken := Document.ofString "(:objects a -)"
    let unclosed := Document.ofString "(:types"
    let d := Document.ofString "(define (domain d))"
    let answers := (Session.start d).run [p, broken, p]
    (Session.start unclosed).run [p] = [.error ⟨unclosed, .malformed .unclosed (some ⟨0, 1⟩)⟩]
      ∧ (∃ domain answer, answers[1]? = some answer ∧ Session.IsAnswer domain [p] broken answer)
      ∧ (∃ c c', answers[0]? = some (.ok c) ∧ answers[2]? = some (.ok c')
        ∧ c.problemNames <+: c'.problemNames)
      ∧ (Session.start d).run [p, p] = answers.eraseIdx 1 := by
  intro p broken unclosed d answers
  have hunclosed : (Domain.read unclosed).outcome
      = .error (.malformed .unclosed (some ⟨0, 1⟩)) := by
    decide +kernel
  have hd : (Domain.read d).outcome
      = .ok ⟨"d", [], .flat [], .flat [], [], .empty, .empty⟩ := by
    decide +kernel
  have hp : (Problem.read p).outcome = .ok ⟨"p", "d", .flat [], [], []⟩ := by
    decide +kernel
  have hbroken : (Problem.read broken).outcome
      = .error (.malformed .missingType (some ⟨12, 13⟩)) := by
    decide +kernel
  obtain ⟨_, hanswers, hnames, hskipped⟩ := session_folds d [p, broken, p]
  have hok : ∀ i ∈ [0, 2], ∃ c, answers[i]? = some (.ok c) := by
    intro i hi
    have hi' : [p, broken, p][i]? = some p := by
      simp only [List.mem_cons, List.not_mem_nil, or_false] at hi
      rcases hi with rfl | rfl
      . rfl
      . rfl
    obtain ⟨answer, hrun, hanswer⟩ := (hanswers _ hd).1 i p hi'
    cases answer with
    | ok c => exact ⟨c, hrun⟩
    | error failure => cases hp.symm.trans hanswer.2
  obtain ⟨c, hc⟩ := hok 0 (by decide)
  obtain ⟨c', hc'⟩ := hok 2 (by decide)
  refine ⟨((session_folds unclosed [p]).1 _ hunclosed).1, ?_, ?_, ?_⟩
  . exact ⟨_, (hanswers _ hd).1 1 broken rfl⟩
  . exact ⟨c, c', hc, hc', hnames 0 2 c c' (by decide) hc hc'⟩
  . exact (hskipped 1 broken _ rfl hbroken).1

end PddlOutline

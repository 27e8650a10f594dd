import Mathlib.Data.List.Forall2
import PddlOutline.Proofs.Session
import PddlOutline.Proofs.Summary
import PddlOutline.Proofs.Text.Quoted

/-!
This module contains what the log tells of the documents that are read. Every line stands for
something that was found or missed, in the order of the documents, and if the reading fails the log
tells what was read until then.
-/

namespace PddlOutline

/--
What a line of the log says: how important it is, which part of the program says it, and what was
counted.
-/
structure LogLine where
  level : Level
  target : String
  message : String
  counts : List (String × Nat)
deriving DecidableEq

namespace LogLine

def ofEvent (e : Event) : LogLine :=
  ⟨e.level, e.target, e.message, e.fields⟩

/--
The levels whose lines are kept at a level.
-/
def keptLevels : Level → List Level
  | .error => [.error]
  | .warn => [.error, .warn]
  | .info => [.error, .warn, .info]
  | .debug => [.error, .warn, .info, .debug]
  | .trace => [.error, .warn, .info, .debug, .trace]

def isVisible (max : Level) (l : LogLine) : Bool :=
  l.level ∈ keptLevels max

/--
What stands between the level of a line and its target. A scope is named by its source.
-/
inductive Opens : Option String → String → Prop
  | bare : Opens none ""
  | within {source : String} {quoted : List Char} (h : Text.Quotes source.toList quoted) :
    Opens (some source) ("PARSE\x7bsource=" ++ String.ofList quoted ++ "\x7d: ")

/--
Whether a text is the line that is written down.
-/
def IsWritten (scope : Option String) (l : LogLine) (text : String) : Prop :=
  ∃ opening message, Opens scope opening ∧ Text.Guards l.message.toList message
    ∧ text = l.level.label ++ " " ++ opening ++ l.target ++ ": " ++ String.ofList message
      ++ String.join (l.counts.map fun (name, count) => " " ++ name ++ "=" ++ toString count)

theorem mem_keptLevels {level max : Level} :
    level ∈ keptLevels max ↔ level.verbosity ≤ max.verbosity := by
  cases level <;> cases max <;> decide

theorem isVisible_ofEvent (max : Level) (scope : Option String) (e : Event) :
    (ofEvent e).isVisible max = LogRecord.isVisible max ⟨scope, e⟩ :=
  decide_eq_decide.mpr mem_keptLevels

theorem isVisible_trace (l : LogLine) : l.isVisible .trace := by
  cases l with
  | mk level => cases level <;> rfl

/--
The scope of a line is told from the level of debugging on.
-/
theorem opens_scopeText (max : Level) (source : String) (e : Event) :
    Opens (if Level.debug ∈ keptLevels max then some source else none)
      (LogRecord.scopeText max ⟨some source, e⟩) := by
  by_cases h : Level.debug.verbosity ≤ max.verbosity
  . rw [if_pos (mem_keptLevels.mpr h)]
    simp only [LogRecord.scopeText, if_pos h]
    exact .within (Text.quotes_quote source.toList)
  . rw [if_neg (mt mem_keptLevels.mp h)]
    simp only [LogRecord.scopeText, if_neg h]
    exact .bare

theorem isWritten_line (max : Level) (source : String) (e : Event) :
    (ofEvent e).IsWritten (if Level.debug ∈ keptLevels max then some source else none)
      (LogRecord.line max ⟨some source, e⟩) :=
  ⟨_, _, opens_scopeText max source e, Text.guards_guarded _, rfl⟩

end LogLine

/--
What the log of a computation says at the level of tracing.
-/
def Traced.lines {ε α : Type} (x : Traced ε α) : List LogLine :=
  x.log.map LogLine.ofEvent

namespace Traced

variable {ε α β : Type} {x : Traced ε α}

theorem lines_bind_of_ok {a : α} (h : x.outcome = .ok a) (f : α → Traced ε β) :
    (x >>= f).lines = x.lines ++ (f a).lines := by
  rw [lines, log_bind_of_ok h, List.map_append]
  rfl

theorem lines_bind_of_error {e : ε} (h : x.outcome = .error e) (f : α → Traced ε β) :
    (x >>= f).lines = x.lines := by
  rw [lines, log_bind_of_error h]
  rfl

theorem lines_ofExcept_ok_bind {y : Except ε α} {a : α} (h : y = .ok a) (f : α → Traced ε β) :
    (ofExcept y >>= f).lines = (f a).lines :=
  lines_bind_of_ok h f

theorem lines_ofExcept_error_bind {y : Except ε α} {e : ε} (h : y = .error e)
    (f : α → Traced ε β) : (ofExcept y >>= f).lines = [] :=
  lines_bind_of_error h f

theorem lines_ofExcept_bind_eq_nil {y : Except ε α} {f : α → Traced ε β}
    (h : ∀ a, (f a).lines = []) : (ofExcept y >>= f).lines = [] := by
  cases y with
  | ok a => exact h a
  | error e => rfl

theorem lines_bind_pure (f : α → β) : (x >>= fun a => pure (f a)).lines = x.lines := by
  cases h : x.outcome with
  | ok a =>
    rw [lines_bind_of_ok h]
    exact List.append_nil _
  | error e => rw [lines_bind_of_error h]

theorem lines_emit_bind (event : Event) (f : Unit → Traced ε β) :
    (emit event >>= f).lines = LogLine.ofEvent event :: (f ()).lines :=
  lines_bind_of_ok rfl f

end Traced

def Action.logLine (a : Action) : LogLine :=
  ⟨.trace, "pddlx::domain", "action: " ++ a.heading, []⟩

theorem LogLine.ofEvent_actionRead (a : Action) : ofEvent (.actionRead a) = a.logLine := by
  rw [Action.logLine, ← a.signature_eq]
  rfl

/--
How many names are in a typed list.
-/
def TypedList.count : TypedList → Nat
  | .flat names => names.length
  | .grouped types => (types.entries.flatMap Prod.snd).length

theorem TypedList.size_eq (l : TypedList) : l.size = l.count := by
  cases l with
  | flat names => rfl
  | grouped types =>
    show types.values.flatten.length = _
    rw [NameMap.values, ← List.flatMap_def]
    rfl

namespace Domain

variable {d : Document} {domain : Domain}

def headerLines (d : Document) : List LogLine :=
  if (Header.domainName? d.chars).isSome then
    []
  else
    [⟨.warn, "pddlx::domain", "No `(domain ...)` header found, using `unknown_domain`", []⟩]

def logLine (d : Domain) : LogLine :=
  ⟨.debug, "pddlx::parse", "Extracted domain `" ++ d.name ++ "`",
    [("requirements", d.requirements.length), ("types", d.types.count),
      ("constants", d.constants.count), ("predicates", d.predicates.length),
      ("actions", d.actions.keys.length)]⟩

theorem ofEvent_domainRead (d : Domain) : LogLine.ofEvent (.domainRead d) = d.logLine := by
  have hactions : d.actions.keys.length = d.actions.size := List.length_map _
  rw [logLine, hactions, ← d.types.size_eq, ← d.constants.size_eq]
  rfl

/--
How far the actions of a domain are read: all `actions` at the places `before`, and none at the
places `behind`. No action is read if another section of the domain cannot be read.
-/
structure ReadsActions (d : Document) (before behind : List Nat) (actions : List Action) :
    Prop where
  places : d.fragment.places .action = before ++ behind
  reads : List.Forall₂ (fun offset action => Action.read d.fragment offset = .ok action)
    before actions
  stops : ∀ offset ∈ behind.head?, HasSections d → ∃ e, Action.read d.fragment offset = .error e
  starts : ¬ HasSections d → before = []

theorem lines_readName (d : Document) : (readName d.chars).lines = headerLines d := by
  cases h : Header.domainName? d.chars with
  | some name =>
    rw [readName, headerLines, h]
    rfl
  | none =>
    rw [readName, headerLines, h]
    rfl

theorem exists_lines_readActions (f : Fragment) (offsets : List Nat) :
    ∃ before behind actions, offsets = before ++ behind
      ∧ List.Forall₂ (fun offset action => Action.read f offset = .ok action) before actions
      ∧ (∀ offset ∈ behind.head?, ∃ e, Action.read f offset = .error e)
      ∧ (readActions f offsets).lines = actions.map Action.logLine := by
  induction offsets with
  | nil => exact ⟨[], [], [], rfl, .nil, by simp, rfl⟩
  | cons offset offsets ih =>
    cases hread : Action.read f offset with
    | error e =>
      refine ⟨[], offset :: offsets, [], rfl, .nil, by simp [hread], ?_⟩
      rw [readActions, Traced.lines_ofExcept_error_bind hread]
      rfl
    | ok action =>
      obtain ⟨before, behind, actions, rfl, hreads, hstops, hlines⟩ := ih
      refine ⟨offset :: before, behind, action :: actions, rfl, .cons hread hreads, hstops, ?_⟩
      rw [readActions, Traced.lines_ofExcept_ok_bind hread, Traced.lines_emit_bind,
        LogLine.ofEvent_actionRead, List.map_cons, ← hlines]
      exact congrArg _ (Traced.lines_bind_pure _)

theorem lines_read_of_hasSections (h : HasSections d) :
    (read d).lines
      =
    headerLines d ++ (readActions d.fragment (d.fragment.places .action)).lines := by
  obtain ⟨name, hname⟩ := outcome_readName d.chars
  obtain ⟨requirements, hrequirements⟩ := h.requirements
  obtain ⟨types, htypes⟩ := h.types
  obtain ⟨constants, hconstants⟩ := h.constants
  obtain ⟨predicates, hpredicates⟩ := h.predicates
  rw [read, Traced.lines_bind_of_ok hname, lines_readName,
    Traced.lines_ofExcept_ok_bind hrequirements, Traced.lines_ofExcept_ok_bind htypes,
    Traced.lines_ofExcept_ok_bind hconstants, Traced.lines_ofExcept_ok_bind hpredicates,
    Traced.lines_bind_pure]
  rfl

theorem lines_read_of_not_hasSections (h : ¬ HasSections d) : (read d).lines = headerLines d := by
  obtain ⟨name, hname⟩ := outcome_readName d.chars
  rw [read, Traced.lines_bind_of_ok hname, lines_readName, List.append_right_eq_self]
  cases hrequirements : readRequirements d.fragment with
  | error e => exact Traced.lines_ofExcept_error_bind rfl _
  | ok requirements =>
    rw [Traced.lines_ofExcept_ok_bind rfl]
    cases htypes : readTypedList d.fragment .types with
    | error e => exact Traced.lines_ofExcept_error_bind rfl _
    | ok types =>
      rw [Traced.lines_ofExcept_ok_bind rfl]
      cases hconstants : readTypedList d.fragment .constants with
      | error e => exact Traced.lines_ofExcept_error_bind rfl _
      | ok constants =>
        rw [Traced.lines_ofExcept_ok_bind rfl]
        cases hpredicates : readPredicates d.fragment with
        | error e => exact Traced.lines_ofExcept_error_bind rfl _
        | ok predicates =>
          exact absurd ⟨⟨_, hrequirements⟩, ⟨_, htypes⟩, ⟨_, hconstants⟩, ⟨_, hpredicates⟩⟩ h

theorem exists_readsActions (d : Document) : ∃ before behind actions,
    ReadsActions d before behind actions
      ∧ (read d).lines = headerLines d ++ actions.map Action.logLine := by
  by_cases h : HasSections d
  . obtain ⟨before, behind, actions, hplaces, hreads, hstops, hlines⟩ :=
      exists_lines_readActions d.fragment (d.fragment.places .action)
    refine ⟨before, behind, actions, ⟨hplaces, hreads, fun o ho _ => hstops o ho, fun h' => ?_⟩, ?_⟩
    . exact absurd h h'
    . rw [lines_read_of_hasSections h, hlines]
  . refine ⟨[], d.fragment.places .action, [], ⟨rfl, .nil, ?_, fun _ => rfl⟩, ?_⟩
    . exact fun _ _ h' => absurd h' h
    . rw [lines_read_of_not_hasSections h]
      exact (List.append_nil _).symm

theorem rightUnique_read (f : Fragment) :
    Relator.RightUnique fun offset action => Action.read f offset = .ok action :=
  fun _ _ _ h h' => Except.ok.inj (h.symm.trans h')

theorem ReadsActions.of_read {before behind : List Nat} {actions : List Action}
    (h : ReadsActions d before behind actions) (hread : (read d).outcome = .ok domain) :
    behind = [] ∧ domain.actions = indexActions actions := by
  have hfrom := isReadFrom_of_read hread
  obtain ⟨actions', hactions, hindex⟩ := hfrom.actions
  rw [readActions_eq_ok, h.places] at hactions
  have hbehind : behind = [] := by
    have hrest := List.forall₂_drop before.length hactions
    rw [List.drop_left] at hrest
    cases behind with
    | nil => rfl
    | cons offset behind =>
      obtain ⟨action, _, hok, _⟩ := List.forall₂_cons_left_iff.mp hrest
      obtain ⟨e, he⟩ := h.stops offset rfl hfrom.hasSections
      cases hok.symm.trans he
  rw [hbehind, List.append_nil] at hactions
  rw [(rightUnique_read d.fragment).forall₂ h.reads hactions]
  exact ⟨hbehind, hindex⟩

end Domain

namespace Problem

def headerLines (d : Document) : List LogLine :=
  if (Header.problemNames? d.chars).isSome then
    []
  else
    [⟨.warn, "pddlx::problem",
      "No `(define (problem ...) (:domain ...))` header found, using `unknown_problem`", []⟩]

/--
What is said of a problem that is read with the domain `name`.
-/
def logLines (name : String) (p : Problem) : List LogLine :=
  let extracted : LogLine := ⟨.debug, "pddlx::parse",
    "Extracted problem `" ++ p.name ++ "` (domain: `" ++ p.domainLink ++ "`)",
    [("objects", p.objects.count), ("init", p.init.length), ("goal", p.goal.length)]⟩
  if p.domainLink = name then
    [extracted]
  else
    [extracted, ⟨.debug, "pddlx::parse",
      "Problem `" ++ p.name ++ "` declares another domain: `" ++ p.domainLink ++ "`", []⟩]

theorem lines_read (d : Document) : (read d).lines = headerLines d := by
  have hrest : ∀ names : String × String, (do
      let objects ← Traced.ofExcept (readObjects d.fragment)
      let init ← Traced.ofExcept (readExpressions d.fragment .init)
      let goal ← Traced.ofExcept (readExpressions d.fragment .goal)
      return Problem.mk names.1 names.2 objects init goal).lines = [] := by
    intro names
    apply Traced.lines_ofExcept_bind_eq_nil
    intro objects
    apply Traced.lines_ofExcept_bind_eq_nil
    intro init
    apply Traced.lines_ofExcept_bind_eq_nil
    intro goal
    rfl
  have hnames : ∃ names, (readNames d.chars).outcome = .ok names
      ∧ (readNames d.chars).lines = headerLines d := by
    cases h : Header.problemNames? d.chars with
    | some names =>
      rw [readNames, headerLines, h]
      exact ⟨_, rfl, rfl⟩
    | none =>
      rw [readNames, headerLines, h]
      exact ⟨_, rfl, rfl⟩
  obtain ⟨names, hok, hlines⟩ := hnames
  rw [read, Traced.lines_bind_of_ok hok, hlines]
  exact (congrArg _ (hrest names)).trans (List.append_nil _)

end Problem

namespace Catalog

variable {domain problem : Document} {d : Domain} {problems : List Document} {p : Problem}
  {e : ReadError}

theorem lines_readProblem_of_ok (h : (Problem.read problem).outcome = .ok p) :
    (readProblem d problem).lines = Problem.headerLines problem ++ p.logLines d.name := by
  have hok : ((Problem.read problem).mapError (Failure.mk problem)).outcome = .ok p := by
    rw [Traced.outcome_mapError, h, Outcome.mapError_ok]
  rw [readProblem, Traced.lines_bind_of_ok hok]
  apply congr (congrArg _ (Problem.lines_read problem))
  rw [Traced.lines_emit_bind, Problem.logLines, ← p.objects.size_eq]
  by_cases hlink : p.domainLink = d.name
  . rw [if_neg (not_not.mpr hlink), if_pos hlink]
    rfl
  . rw [if_pos hlink, if_neg hlink]
    rfl

theorem lines_readProblem_of_error (h : (Problem.read problem).outcome = .error e) :
    (readProblem d problem).lines = Problem.headerLines problem := by
  have herror : ((Problem.read problem).mapError (Failure.mk problem)).outcome
      = .error ⟨problem, e⟩ := by
    rw [Traced.outcome_mapError, h, Outcome.mapError_error]
  rw [readProblem, Traced.lines_bind_of_error herror]
  exact Problem.lines_read problem

theorem outcome_readProblem_of_ok (h : (Problem.read problem).outcome = .ok p) :
    (readProblem d problem).outcome = .ok p := by
  rw [outcome_readProblem, h, Outcome.mapError_ok]

theorem lines_addProblems {ps : List Problem}
    (h : List.Forall₂ (fun problem p => (Problem.read problem).outcome = .ok p) problems ps)
    (d : Domain) :
    (addProblems d problems).lines
      =
    (List.zipWith (fun problem p => Problem.headerLines problem ++ p.logLines d.name)
      problems ps).flatten := by
  -- A domain keeps its name when a problem is added to it.
  induction h generalizing d with
  | nil => rfl
  | @cons problem p problems ps hread _ ih =>
    rw [addProblems, Traced.lines_bind_of_ok (outcome_readProblem_of_ok hread),
      lines_readProblem_of_ok hread, ih, List.zipWith_cons_cons, List.flatten_cons]
    rfl

theorem lines_addProblems_of_error {before behind : List Document}
    (hbefore : ∀ other ∈ before, Problem.IsReadable other)
    (h : (Problem.read problem).outcome = .error e) (d : Domain) :
    (addProblems d (before ++ problem :: behind)).lines
      =
    (addProblems d before).lines ++ Problem.headerLines problem := by
  induction before generalizing d with
  | nil =>
    have herror : (readProblem d problem).outcome = .error ⟨problem, e⟩ := by
      rw [outcome_readProblem, h, Outcome.mapError_error]
    exact (Traced.lines_bind_of_error herror _).trans (lines_readProblem_of_error h)
  | cons other before ih =>
    rw [List.forall_mem_cons] at hbefore
    obtain ⟨q, hread⟩ := hbefore.1
    have hok := outcome_readProblem_of_ok (d := d) hread
    rw [List.cons_append, addProblems, addProblems, Traced.lines_bind_of_ok hok,
      Traced.lines_bind_of_ok hok, ih hbefore.2, List.append_assoc]

theorem lines_read_of_ok (h : (Domain.read domain).outcome = .ok d) (problems : List Document) :
    (read domain problems).lines
      =
    (Domain.read domain).lines ++ d.logLine :: (addProblems d problems).lines := by
  have hok : ((Domain.read domain).mapError (Failure.mk domain)).outcome = .ok d := by
    rw [Traced.outcome_mapError, h, Outcome.mapError_ok]
  rw [read, Traced.lines_bind_of_ok hok, Traced.lines_emit_bind, Traced.lines_bind_pure,
    Domain.ofEvent_domainRead]
  rfl

theorem lines_read_of_error (h : (Domain.read domain).outcome = .error e)
    (problems : List Document) : (read domain problems).lines = (Domain.read domain).lines := by
  have herror : ((Domain.read domain).mapError (Failure.mk domain)).outcome
      = .error ⟨domain, e⟩ := by
    rw [Traced.outcome_mapError, h, Outcome.mapError_error]
  rw [read, Traced.lines_bind_of_error herror]
  rfl

/--
What is logged at a level while a domain and its problems are read.
-/
def log (max : Level) (domain : Document) (problems : List Document) : List String :=
  LogRecord.lines max (LogRecord.ofCatalog domain (read domain problems).log)

theorem forall₂_log (max : Level) (domain : Document) (problems : List Document) :
    List.Forall₂
      (LogLine.IsWritten
        (if Level.debug ∈ LogLine.keptLevels max then some domain.sourceName else none))
      ((read domain problems).lines.filter (LogLine.isVisible max)) (log max domain problems) := by
  have hvisible : LogLine.isVisible max ∘ LogLine.ofEvent
      = LogRecord.isVisible max ∘ (LogRecord.mk (some domain.sourceName)) :=
    funext (LogLine.isVisible_ofEvent max _)
  rw [log, LogRecord.lines, LogRecord.ofCatalog, Traced.lines, List.filter_map, List.filter_map,
    List.map_map, hvisible, List.forall₂_map_left_iff, List.forall₂_map_right_iff, List.forall₂_same]
  exact fun e _ => LogLine.isWritten_line max domain.sourceName e

end Catalog

/--
The log tells of a domain and its problems what was read of them, line by line. If a problem cannot
be read, the log goes on as far as its header, and at a lower level lines are left out and others
lose their scope.
-/
theorem log_tells (domain : Document) (problems : List Document) :
    (∀ max, List.Forall₂
      (LogLine.IsWritten
        (if Level.debug ∈ LogLine.keptLevels max then some domain.sourceName else none))
      ((Catalog.read domain problems).lines.filter (LogLine.isVisible max))
      (Catalog.log max domain problems))
    ∧ List.Forall₂ (LogLine.IsWritten (some domain.sourceName))
      (Catalog.read domain problems).lines (Catalog.log .trace domain problems)
    ∧ ∃ before behind actions, Domain.ReadsActions domain before behind actions
      ∧ (∀ e, (Domain.read domain).outcome = .error e →
        (Catalog.read domain problems).lines
          = Domain.headerLines domain ++ actions.map Action.logLine)
      ∧ ∀ d, (Domain.read domain).outcome = .ok d →
        behind = []
        ∧ d.actions.keys = (actions.map Action.name).eraseDups
        ∧ (∀ ps,
          List.Forall₂ (fun problem p => (Problem.read problem).outcome = .ok p) problems ps →
          (Catalog.read domain problems).lines
            = Domain.headerLines domain ++ actions.map Action.logLine ++ d.logLine
              :: (List.zipWith (fun problem p => Problem.headerLines problem ++ p.logLines d.name)
                problems ps).flatten)
        ∧ ∀ first problem rest e, problems = first ++ problem :: rest →
          (∀ other ∈ first, Problem.IsReadable other) →
          (Problem.read problem).outcome = .error e →
          (Catalog.read domain problems).lines
            = (Catalog.read domain first).lines ++ Problem.headerLines problem := by
  obtain ⟨before, behind, actions, hactions, hlines⟩ := Domain.exists_readsActions domain
  refine ⟨?_, ?_, before, behind, actions, hactions, ?_, ?_⟩
  . exact fun max => Catalog.forall₂_log max domain problems
  . have htrace := Catalog.forall₂_log .trace domain problems
    rwa [List.filter_eq_self.mpr fun l _ => l.isVisible_trace] at htrace
  . intro e h
    rw [Catalog.lines_read_of_error h, hlines]
  . intro d hd
    obtain ⟨hbehind, hindex⟩ := hactions.of_read hd
    refine ⟨hbehind, ?_, ?_, ?_⟩
    . rw [hindex]
      exact NameMap.keys_ofList Action.name actions
    . intro ps hps
      rw [Catalog.lines_read_of_ok hd, hlines, Catalog.lines_addProblems hps]
    . rintro first problem rest e rfl hfirst hproblem
      rw [Catalog.lines_read_of_ok hd, Catalog.lines_read_of_ok hd,
        Catalog.lines_addProblems_of_error hfirst hproblem, List.append_assoc, List.cons_append]

/--
The second action takes the place of the first, and each of them has its line.
-/
theorem log_tells_duplicates :
    let action := "(:action a :parameters (?x - t ?y) :precondition () :effect ())"
    let domain := Document.ofString
      ("(domain d) (:types u v - w x) (:constants k)" ++ action ++ "\n" ++ action)
    let p := Document.ofString "(define (problem p) (:domain e) (:objects o q - t))"
    let broken := Document.ofString "(:objects a -)"
    let unnamed := "No `(define (problem ...) (:domain ...))` header found, using `unknown_problem`"
    (Catalog.read domain [p, broken]).lines
      = [⟨.trace, "pddlx::domain", "action: a(?x: t, ?y)", []⟩,
        ⟨.trace, "pddlx::domain", "action: a(?x: t, ?y)", []⟩,
        ⟨.debug, "pddlx::parse", "Extracted domain `d`",
          [("requirements", 0), ("types", 3), ("constants", 1), ("predicates", 0), ("actions", 1)]⟩,
        ⟨.debug, "pddlx::parse", "Extracted problem `p` (domain: `e`)",
          [("objects", 2), ("init", 0), ("goal", 0)]⟩,
        ⟨.debug, "pddlx::parse", "Problem `p` declares another domain: `e`", []⟩,
        ⟨.warn, "pddlx::problem", unnamed, []⟩]
      ∧ Catalog.log .trace domain [p, broken]
        = ["TRACE PARSE\x7bsource=\"<string>\"\x7d: pddlx::domain: action: a(?x: t, ?y)",
          "TRACE PARSE\x7bsource=\"<string>\"\x7d: pddlx::domain: action: a(?x: t, ?y)",
          "DEBUG PARSE\x7bsource=\"<string>\"\x7d: pddlx::parse: Extracted domain `d` "
            ++ "requirements=0 types=3 constants=1 predicates=0 actions=1",
          "DEBUG PARSE\x7bsource=\"<string>\"\x7d: pddlx::parse: Extracted problem `p` "
            ++ "(domain: `e`) objects=2 init=0 goal=0",
          "DEBUG PARSE\x7bsource=\"<string>\"\x7d: pddlx::parse: "
            ++ "Problem `p` declares another domain: `e`",
          "WARN PARSE\x7bsource=\"<string>\"\x7d: pddlx::problem: " ++ unnamed]
      ∧ Catalog.log .info domain [p, broken] = ["WARN pddlx::problem: " ++ unnamed] := by
  intro action domain p broken unnamed
  let a : Action := ⟨"a", ⟨["?x", "?y"], ["t"]⟩, [], []⟩
  let d : Domain := ⟨"d", [], .grouped ⟨[("w", ["u", "v"]), ("object", ["x"])], by decide⟩,
    .flat ["k"], [], ⟨[("a", a)], by decide⟩, .empty⟩
  let q : Problem := ⟨"p", "e", .grouped ⟨[("t", ["o", "q"])], by decide⟩, [], []⟩
  have hd : (Domain.read domain).outcome = .ok d := by
    decide +kernel
  have hp : (Problem.read p).outcome = .ok q := by
    decide +kernel
  have hbroken : (Problem.read broken).outcome
      = .error (.malformed .missingType (some ⟨12, 13⟩)) := by
    decide +kernel
  have hdomain : (Header.domainName? domain.chars).isSome := by
    decide +kernel
  have hmissing : ¬ (Header.problemNames? broken.chars).isSome := by
    decide +kernel
  obtain ⟨_, _, _, _, _, _, _, hfirst⟩ := log_tells domain [p, broken]
  obtain ⟨_, _, _, herror⟩ := hfirst d hd
  obtain ⟨_, _, before, behind, actions, hactions, _, hrest⟩ := log_tells domain [p]
  obtain ⟨hbehind, _, hlines, _⟩ := hrest d hd
  have hbefore : before = [44, 108] := by
    have hplaces := hactions.places
    rw [hbehind, List.append_nil] at hplaces
    rw [← hplaces]
    decide +kernel
  have hread : ∀ offset ∈ [44, 108], Action.read domain.fragment offset = .ok a := by
    decide +kernel
  have htwice : actions = [a, a] := by
    apply (Domain.rightUnique_read domain.fragment).forall₂ hactions.reads
    rw [hbefore]
    exact .cons (hread 44 (by decide)) (.cons (hread 108 (by decide)) .nil)
  have hevents : (Catalog.read domain [p, broken]).log
      = [.actionRead a, .actionRead a, .domainRead d, .problemRead q, .foreignProblem q,
        .problemUnnamed] := by
    decide +kernel
  refine ⟨?_, ?_, ?_⟩
  . rw [herror [p] broken [] _ rfl (by simpa using ⟨_, hp⟩) hbroken, hlines _ (.cons hp .nil),
      htwice, Domain.headerLines, if_pos hdomain, Problem.headerLines, if_neg hmissing]
    decide +kernel
  . rw [Catalog.log, hevents]
    decide +kernel
  . rw [Catalog.log, hevents]
    decide +kernel

end PddlOutline

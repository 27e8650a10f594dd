import Mathlib.Data.List.Nodup
import PddlOutline.Proofs.Action
import PddlOutline.Proofs.Header
import PddlOutline.Proofs.LetterCase.Section
import PddlOutline.Proofs.NameMap
import PddlOutline.Reading.Domain
import PddlOutline.Reading.Problem

/-!
This module contains what is read from documents that differ in the case of their letters alone.
Reading commutes with lower case, so two such documents are read alike.
-/

namespace PddlOutline

theorem Fragment.agree_of_lower {α β : Type} (read : Fragment → Except ReadError α)
    (read' : Fragment → Except ReadError β) {view : α → β}
    (hread : ∀ f : Fragment, read' f.lower = (read f).map view) {f g : Fragment}
    (h : f.lower = g.lower) : Outcome.Agree (fun a b => view a = view b) (read f) (read g) := by
  apply Outcome.agree_of_map_eq
  rw [← hread, ← hread, h]

namespace Header

variable (cs : List Char)

theorem word?_lower (word : String) :
    word? word (Text.lower cs) = (word? word cs).map Text.lower := by
  unfold word?
  rw [Text.startsWith_lower]
  split
  . exact congrArg some List.map_drop.symm
  . rfl

theorem blanks?_lower : blanks? (Text.lower cs) = (blanks? cs).map Text.lower := by
  cases cs with
  | nil => rfl
  | cons c cs =>
    rw [Text.lower_cons, blanks?, blanks?, Text.isBlank_toLower, Text.trimStart_lower]
    split
    . rfl
    . rfl

theorem isNameChar_toLower (c : Char) : isNameChar c.toLower = isNameChar c := by
  have hclosing : (c.toLower != ')') = (c != ')') := congrArg (!·) (Text.toLower_beq (by decide) c)
  rw [isNameChar, isNameChar, Text.isBlank_toLower, hclosing]

theorem name?_lower :
    name? (Text.lower cs) = (name? cs).map (Prod.map Text.lower Text.lower) := by
  unfold name?
  rw [Text.takeWhile_lower isNameChar_toLower, Text.dropWhile_lower isNameChar_toLower]
  cases cs.takeWhile isNameChar with
  | nil => rfl
  | cons c name => rfl

theorem domainAt?_lower : domainAt? (Text.lower cs) = (domainAt? cs).map Text.lower := by
  unfold domainAt?
  rw [word?_lower]
  apply Outcome.option_map_bind_eq
  intro cs
  rw [blanks?_lower]
  apply Outcome.option_map_bind_eq
  intro cs
  rw [name?_lower]
  exact Outcome.option_map_bind_eq fun _ => rfl

theorem domainName?_lower : domainName? (Text.lower cs) = (domainName? cs).map Text.lower := by
  have hline : Text.firstMatch domainAt? ∘ Text.lower
      = Option.map Text.lower ∘ Text.firstMatch domainAt? :=
    funext (Text.firstMatch_lower domainAt?_lower)
  rw [domainName?, domainName?, Text.lines_lower, List.findSome?_map, hline, List.map_findSome?]

theorem problemAt?_lower :
    problemAt? (Text.lower cs) = (problemAt? cs).map (Prod.map Text.lower Text.lower) :=
  problemAt?_commutes (fun word _ cs => word?_lower cs word) Text.trimStart_lower
    blanks?_lower name?_lower cs

theorem problemNames?_lower :
    problemNames? (Text.lower cs) = (problemNames? cs).map (Prod.map Text.lower Text.lower) := by
  rw [problemNames?, problemNames?, Text.collapse_lower Text.isBlank_toLower]
  exact Text.firstMatch_lower problemAt?_lower _

end Header

namespace Action

def lower (a : Action) : Action :=
  ⟨a.name.toLower, Relabeling.lowering.parameters a.parameters,
    a.preconditions.map String.toLower, a.effects.map String.toLower⟩

theorem beforeParen_lower (cs : List Char) :
    beforeParen (Text.lower cs) = Text.lower (beforeParen cs) := by
  apply Text.takeWhile_lower
  intro c
  rw [isParen, isParen, Text.toLower_beq (by decide), Text.toLower_beq (by decide)]

theorem isTag_lower (word : List Char) : isTag (Text.lower word) = isTag word :=
  Text.head?_lower_beq (by decide) word

theorem name?_lower (body : List Char) : name? (Text.lower body) = (name? body).map Text.lower := by
  have hrest : (Text.lower body).drop Keyword.action.size
      = Text.lower (body.drop Keyword.action.size) := List.map_drop.symm
  have hline : ∀ lines : List (List Char), (lines.map Text.lower).headD []
      = Text.lower (lines.headD []) := by
    intro lines
    cases lines with
    | nil => rfl
    | cons line lines => rfl
  have htag : (fun word => !isTag word) ∘ Text.lower = fun word => !isTag word :=
    funext fun word => congrArg (!·) (isTag_lower word)
  unfold name?
  rw [hrest]
  simp only [Text.lines_lower, hline, beforeParen_lower, Text.words_lower, List.takeWhile_map, htag,
    List.getLast?_map, List.head?_map]
  generalize (List.takeWhile _ _).getLast? = last
  cases last with
  | some name => rfl
  | none =>
    apply Outcome.option_map_bind_eq
    intro word
    simp only [beforeParen_lower, isTag_lower, Text.isEmpty_lower]
    split
    . rfl
    . rfl

theorem needed_lower (body : Fragment) (k : Keyword) :
    needed body.lower k = (needed body k).map Section.lower := by
  rw [needed, needed, Section.first_lower, Fragment.span_lower]
  apply Outcome.map_bind_eq
  intro found
  cases found with
  | none => rfl
  | some s => rfl

theorem parametersOf_lower (body : Fragment) :
    parametersOf body.lower = (parametersOf body).map Relabeling.lowering.parameters := by
  rw [parametersOf, parametersOf, needed_lower]
  apply Outcome.map_bind_eq
  intro s
  rw [Section.tokens_lower]
  apply Outcome.map_bind_eq
  intro tokens
  have h := Parameters.ofTokens_relabel .lowering tokens
  rwa [show Relabeling.lowering.error = id from rfl, Outcome.mapError_id] at h

theorem expressionsOf_lower (body : Fragment) (k : Keyword) :
    expressionsOf body.lower k = (expressionsOf body k).map (List.map String.toLower) := by
  rw [expressionsOf, expressionsOf, needed_lower]
  exact Outcome.map_bind_eq fun s => s.expressions_lower

theorem ofFragment_lower (body : Fragment) :
    ofFragment body.lower = (ofFragment body).map lower := by
  have hname := name?_lower body.chars
  cases h : name? body.chars with
  | none =>
    rw [h] at hname
    rw [ofFragment_of_name_none body h, ofFragment_of_name_none body.lower hname]
    rfl
  | some name =>
    rw [h] at hname
    rw [ofFragment_of_name body h, ofFragment_of_name body.lower hname, parametersOf_lower,
      expressionsOf_lower, expressionsOf_lower]
    apply Outcome.map_bind_eq
    intro parameters
    apply Outcome.map_bind_eq
    intro preconditions
    apply Outcome.map_bind_eq
    intro effects
    rw [Text.ofList_lower]
    rfl

theorem read_lower (f : Fragment) (offset : Nat) :
    read f.lower offset = (read f offset).map lower := by
  rw [read, read, Section.delimit_lower]
  cases Section.delimit f .action offset with
  | error e => rfl
  | ok nesting =>
    show f.lower.slice nesting.outer.span >>= ofFragment = _
    rw [Fragment.slice_lower]
    exact Outcome.map_bind_eq ofFragment_lower

end Action

namespace Domain

theorem readName_lower (cs : List Char) :
    (readName (Text.lower cs)).outcome = (readName cs).outcome.map String.toLower := by
  rw [readName, readName, Header.domainName?_lower]
  cases Header.domainName? cs with
  | none =>
    have hunknown : unknownName.toLower = unknownName := Text.toLower_eq_self (by decide)
    exact congrArg Except.ok hunknown.symm
  | some name => exact congrArg Except.ok (Text.ofList_lower name)

variable (f : Fragment)

theorem form_readTypedList_lower (k : Keyword) :
    (readTypedList f.lower k).map TypedList.form = (readTypedList f k).map TypedList.form :=
  Section.readD_lower f k rfl Section.form_typedList_lower

theorem readRequirements_lower :
    readRequirements f.lower = (readRequirements f).map (List.map String.toLower) :=
  Section.readD_texts_lower f .requirements Section.symbols_lower

theorem readPredicates_lower :
    readPredicates f.lower = (readPredicates f).map (List.map String.toLower) :=
  Section.readD_texts_lower f .predicates Section.parts_lower

theorem readActions_lower (offsets : List Nat) :
    (readActions f.lower offsets).outcome
      =
    (readActions f offsets).outcome.map (List.map Action.lower) := by
  induction offsets with
  | nil => rfl
  | cons offset offsets ih =>
    simp only [readActions, Traced.outcome_bind, Traced.outcome_ofExcept, Traced.outcome_emit,
      Traced.outcome_pure, Action.read_lower, ih]
    apply Outcome.map_bind_eq
    intro action
    exact Outcome.map_bind_eq fun actions => rfl

/--
Whether two domains are the same up to the case of letters, but for their actions. Of typed lists
only the form is compared, because types that differ in their case alone are different types.
-/
structure SameLetters (d d' : Domain) : Prop where
  name : d.name.toLower = d'.name.toLower
  requirements : d.requirements.map String.toLower = d'.requirements.map String.toLower
  types : d.types.form = d'.types.form
  constants : d.constants.form = d'.constants.form
  predicates : d.predicates.map String.toLower = d'.predicates.map String.toLower

/--
Whether the actions of two domains are filed in the same order and are the same up to the case of
letters.
-/
def SameActions (d d' : Domain) : Prop :=
  d.actions.entries.map (Prod.map String.toLower Action.lower)
    = d'.actions.entries.map (Prod.map String.toLower Action.lower)

/--
Whether no two actions in a document have names that differ in the case of letters at most.
-/
def NamesApart (d : Document) : Prop :=
  ∀ actions, (readActions d.fragment (d.fragment.places .action)).outcome = .ok actions →
    (actions.map fun a => a.name.toLower).Nodup

theorem entries_indexActions {actions : List Action}
    (h : (actions.map fun a => a.name.toLower).Nodup) :
    (indexActions actions).entries.map (Prod.map String.toLower Action.lower)
      =
    (actions.map Action.lower).map fun a => (a.name, a) := by
  have hnames : (actions.map Action.name).Nodup := by
    apply List.Nodup.of_map String.toLower
    rwa [List.map_map]
  have hentries : (indexActions actions).entries = actions.map fun a => (a.name, a) :=
    NameMap.entries_ofList_of_nodup hnames
  rw [hentries, List.map_map, List.map_map]
  rfl

theorem entries_indexActions_eq {actions actions' : List Action}
    (h : actions.map Action.lower = actions'.map Action.lower)
    (hapart : (actions.map fun a => a.name.toLower).Nodup) :
    (indexActions actions).entries.map (Prod.map String.toLower Action.lower)
      =
    (indexActions actions').entries.map (Prod.map String.toLower Action.lower) := by
  have hnames : (actions.map fun a => a.name.toLower) = actions'.map fun a => a.name.toLower := by
    have := congrArg (List.map Action.name) h
    rwa [List.map_map, List.map_map] at this
  rw [entries_indexActions hapart, entries_indexActions (hnames ▸ hapart), h]

theorem readActions_places_lower :
    (readActions f.lower (f.lower.places .action)).outcome
      =
    (readActions f (f.places .action)).outcome.map (List.map Action.lower) := by
  rw [Fragment.places_lower, readActions_lower]

theorem agree_read {d d' : Document} (h : d.fragment.lower = d'.fragment.lower) :
    Outcome.Agree (fun a b => SameLetters a b ∧ (NamesApart d → SameActions a b))
      (read d).outcome (read d').outcome := by
  -- What both runs answer is compared step by step, so the first failure is that of the same step.
  unfold read
  simp only [Traced.outcome_bind, Traced.outcome_ofExcept, Traced.outcome_pure]
  apply (Fragment.agree_of_lower (fun f => (readName f.chars).outcome)
    (fun f => (readName f.chars).outcome) (fun f => readName_lower f.chars) h).bind
  intro name name' _ hname
  apply (Fragment.agree_of_lower readRequirements readRequirements readRequirements_lower h).bind
  intro requirements requirements' _ hrequirements
  apply (Fragment.agree_of_lower (readTypedList · .types)
    (fun f => (readTypedList f .types).map TypedList.form)
    (form_readTypedList_lower · .types) h).bind
  intro types types' _ htypes
  apply (Fragment.agree_of_lower (readTypedList · .constants)
    (fun f => (readTypedList f .constants).map TypedList.form)
    (form_readTypedList_lower · .constants) h).bind
  intro constants constants' _ hconstants
  apply (Fragment.agree_of_lower readPredicates readPredicates readPredicates_lower h).bind
  intro predicates predicates' _ hpredicates
  apply (Fragment.agree_of_lower (fun f => (readActions f (f.places .action)).outcome)
    (fun f => (readActions f (f.places .action)).outcome) readActions_places_lower h).bind
  intro actions actions' hread hactions
  refine ⟨⟨hname, hrequirements, htypes, hconstants, hpredicates⟩, ?_⟩
  intro hapart
  exact entries_indexActions_eq hactions (hapart actions hread)

end Domain

namespace Problem

theorem readNames_lower (cs : List Char) :
    (readNames (Text.lower cs)).outcome
      =
    (readNames cs).outcome.map (Prod.map String.toLower String.toLower) := by
  rw [readNames, readNames, Header.problemNames?_lower]
  cases Header.problemNames? cs with
  | none =>
    have hunknown : (unknownName.toLower, Domain.unknownName.toLower)
        = (unknownName, Domain.unknownName) := by
      rw [Text.toLower_eq_self (by decide), Text.toLower_eq_self (by decide)]
    exact congrArg Except.ok hunknown.symm
  | some names =>
    obtain ⟨name, domain⟩ := names
    exact congrArg Except.ok (Prod.ext (Text.ofList_lower name) (Text.ofList_lower domain))

variable (f : Fragment)

theorem form_readObjects_lower :
    (readObjects f.lower).map TypedList.form = (readObjects f).map TypedList.form :=
  Section.readD_lower f .objects rfl Section.form_typedList_lower

theorem readExpressions_lower (k : Keyword) :
    readExpressions f.lower k = (readExpressions f k).map (List.map String.toLower) :=
  Section.readD_texts_lower f k Section.expressions_lower

/--
Whether two problems are the same up to the case of letters. Of their objects only the form is
compared.
-/
structure SameLetters (p p' : Problem) : Prop where
  name : p.name.toLower = p'.name.toLower
  domainLink : p.domainLink.toLower = p'.domainLink.toLower
  objects : p.objects.form = p'.objects.form
  init : p.init.map String.toLower = p'.init.map String.toLower
  goal : p.goal.map String.toLower = p'.goal.map String.toLower

theorem agree_read {d d' : Document} (h : d.fragment.lower = d'.fragment.lower) :
    Outcome.Agree SameLetters (read d).outcome (read d').outcome := by
  unfold read
  simp only [Traced.outcome_bind, Traced.outcome_ofExcept, Traced.outcome_pure]
  apply (Fragment.agree_of_lower (fun f => (readNames f.chars).outcome)
    (fun f => (readNames f.chars).outcome) (fun f => readNames_lower f.chars) h).bind
  rintro ⟨name, domainLink⟩ ⟨name', domainLink'⟩ _ hnames
  apply (Fragment.agree_of_lower readObjects (fun f => (readObjects f).map TypedList.form)
    form_readObjects_lower h).bind
  intro objects objects' _ hobjects
  apply (Fragment.agree_of_lower (readExpressions · .init) (readExpressions · .init)
    (readExpressions_lower · .init) h).bind
  intro init init' _ hinit
  apply (Fragment.agree_of_lower (readExpressions · .goal) (readExpressions · .goal)
    (readExpressions_lower · .goal) h).bind
  intro goal goal' _ hgoal
  exact ⟨congrArg Prod.fst hnames, congrArg Prod.snd hnames, hobjects, hinit, hgoal⟩

end Problem

/--
Texts that are the same up to the case of letters are read alike: reading them fails in the same
place for the same reason, or what is read is the same up to the case of letters. Actions are
compared if their names do not become equal by a change of case.
-/
theorem read_of_toLower_eq {text text' : String} (h : text.toLower = text'.toLower) :
    Outcome.Agree Problem.SameLetters (Problem.read (.ofString text)).outcome
        (Problem.read (.ofString text')).outcome
      ∧ Outcome.Agree
        (fun d d' => d.SameLetters d' ∧ (Domain.NamesApart (.ofString text) → d.SameActions d'))
        (Domain.read (.ofString text)).outcome (Domain.read (.ofString text')).outcome := by
  have hchars : Text.lower (Document.ofString text).chars
      = Text.lower (Document.ofString text').chars := by
    rw [Document.ofString_chars, Document.ofString_chars, ← Text.normalize_lower,
      ← Text.normalize_lower, ← Text.toList_toLower, ← Text.toList_toLower, h]
  have hfragment : (Document.ofString text).fragment.lower
      = (Document.ofString text').fragment.lower :=
    congrArg (Fragment.mk 0) hchars
  exact ⟨Problem.agree_read hfragment, Domain.agree_read hfragment⟩

theorem read_of_toLower_eq_shouted :
    let text := "(domain d) (:action a :parameters (?x - t) :precondition (p) :effect (q))"
    let text' := "(Domain D) (:ACTION A :PARAMETERS (?X - T) :PRECONDITION (P) :EFFECT (Q))"
    let a : Action := ⟨"a", ⟨["?x"], ["t"]⟩, ["(p)"], ["(q)"]⟩
    let a' : Action := ⟨"A", ⟨["?X"], ["T"]⟩, ["(P)"], ["(Q)"]⟩
    let d : Domain := ⟨"d", [], .empty, .empty, [], NameMap.empty.insert "a" a, .empty⟩
    let d' : Domain := ⟨"D", [], .empty, .empty, [], NameMap.empty.insert "A" a', .empty⟩
    text.toLower = text'.toLower
      ∧ (Domain.read (.ofString text)).outcome = .ok d
      ∧ (Domain.read (.ofString text')).outcome = .ok d'
      ∧ d.SameLetters d' ∧ d.SameActions d' := by
  intro text text' a a' d d'
  have htext : text.toLower = text'.toLower := by
    rw [← String.toList_inj, Text.toList_toLower, Text.toList_toLower]
    decide +kernel
  have hread : (Domain.read (.ofString text)).outcome = .ok d := by
    decide +kernel
  have hread' : (Domain.read (.ofString text')).outcome = .ok d' := by
    decide +kernel
  have hapart : Domain.NamesApart (.ofString text) := by
    intro actions hactions
    have hone : (Domain.readActions (Document.ofString text).fragment
        ((Document.ofString text).fragment.places .action)).outcome = .ok [a] := by
      decide +kernel
    cases hone.symm.trans hactions
    exact List.nodup_singleton _
  have hagree := (read_of_toLower_eq htext).2
  rw [hread, hread'] at hagree
  exact ⟨htext, hread, hread', hagree.1, hagree.2 hapart⟩

end PddlOutline

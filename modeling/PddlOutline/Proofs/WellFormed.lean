import PddlOutline.Proofs.Session
import PddlOutline.Proofs.Success

/-!
This module contains what holds of everything that is read: whatever is filed under a name has this
name, names of actions are plain words, and expressions are quoted from the document, one balanced
group behind the other.
-/

namespace PddlOutline
namespace Fragment

/--
Whether a scan of a fragment alone finds a group that is the whole fragment.
-/
def IsGroup (g : Fragment) : Prop :=
  ∃ nesting, Nesting.first (whole g.chars) 0 = .ok nesting
    ∧ nesting.outer.span = (whole g.chars).span

/--
Whether fragments are groups in `f`, of which each one ends before the next one starts.
-/
structure Quotes (f : Fragment) (gs : List Fragment) : Prop where
  isPart : ∀ g ∈ gs, f.IsPart g
  isGroup : ∀ g ∈ gs, g.IsGroup
  pairwise : gs.Pairwise (·.stop ≤ ·.start)

variable {f p q : Fragment} {gs hs : List Fragment}

theorem isGroup_enclosed (offset : Nat) (t : Forest) : (Fragment.mk offset t.enclosed).IsGroup := by
  have hgroup : (whole t.enclosed).GroupAt 0 t := ⟨[], [], by simp [whole], rfl⟩
  refine ⟨_, Nesting.first_of_groupAt hgroup, ?_⟩
  rw [span, whole, stop_of_enclosed]
  rfl

theorem Quotes.nil (f : Fragment) : f.Quotes [] :=
  ⟨by simp, by simp, .nil⟩

theorem Quotes.singleton (h : f.IsGroup) : f.Quotes [f] :=
  ⟨by simpa using IsPart.refl f, by simpa using h, List.pairwise_singleton _ _⟩

theorem Quotes.of_isPart (hp : f.IsPart p) (h : p.Quotes gs) : f.Quotes gs :=
  ⟨fun g hg => hp.trans (h.isPart g hg), h.isGroup, h.pairwise⟩

theorem Quotes.append (hp : f.IsPart p) (hq : f.IsPart q) (hpq : p.stop ≤ q.start)
    (hgs : p.Quotes gs) (hhs : q.Quotes hs) : f.Quotes (gs ++ hs) := by
  have hgs' := hgs.of_isPart hp
  have hhs' := hhs.of_isPart hq
  refine ⟨?_, ?_, ?_⟩
  . intro g hg
    exact (List.mem_append.mp hg).elim (hgs'.isPart g) (hhs'.isPart g)
  . intro g hg
    exact (List.mem_append.mp hg).elim (hgs'.isGroup g) (hhs'.isGroup g)
  . refine List.pairwise_append.mpr ⟨hgs.pairwise, hhs.pairwise, ?_⟩
    intro g hg h hh
    have := (hgs.isPart g hg).stop_le
    have := (hhs.isPart h hh).start_le
    omega

end Fragment

namespace Forest

open Fragment

theorem isPart_plain (offset : Nat) (c : Char) (hc : c ≠ '(' ∧ c ≠ ')') (rest : Forest) :
    (Fragment.mk offset (plain c hc rest).chars).IsPart ⟨offset + c.utf8Size, rest.chars⟩ :=
  ⟨[c], [], by simp [chars], rfl⟩

theorem isPart_group (offset : Nat) (inside rest : Forest) :
    (Fragment.mk offset (group inside rest).chars).IsPart ⟨offset, inside.enclosed⟩ :=
  ⟨[], rest.chars, by simp [chars, enclosed], rfl⟩

theorem isPart_inside (offset : Nat) (inside rest : Forest) :
    (Fragment.mk offset (group inside rest).chars).IsPart ⟨offset + 1, inside.chars⟩ :=
  ⟨['('], ')' :: rest.chars, by simp [chars], rfl⟩

theorem isPart_behind (offset : Nat) (inside rest : Forest) :
    (Fragment.mk offset (group inside rest).chars).IsPart
      ⟨offset + 1 + Text.byteSize inside.chars + 1, rest.chars⟩ :=
  ⟨inside.enclosed, [], by simp [chars, enclosed], by simp; omega⟩

theorem quotes_fragments (t : Forest) (offset : Nat) :
    (Fragment.mk offset t.chars).Quotes (t.fragments offset) := by
  induction t generalizing offset with
  | nil => exact .nil _
  | plain c hc rest ih => exact (ih _).of_isPart (isPart_plain offset c hc rest)
  | group inside rest _ ih =>
    apply Quotes.append (isPart_group offset inside rest) (isPart_behind offset inside rest) _
      (.singleton (isGroup_enclosed offset inside)) (ih _)
    simp [stop]
    omega

theorem quotes_unwrapped (t : Forest) (offset : Nat) :
    (Fragment.mk offset t.chars).Quotes (t.unwrapped offset) := by
  induction t generalizing offset with
  | nil => exact .nil _
  | plain c hc rest ih => exact (ih _).of_isPart (isPart_plain offset c hc rest)
  | group inside rest =>
    rw [unwrapped]
    split
    . -- The groups inside of a conjunction come before those behind it.
      apply Quotes.append (isPart_inside offset inside rest) (isPart_behind offset inside rest) _
        (inside.quotes_fragments _) (rest.quotes_fragments _)
      simp [stop]
    . exact quotes_fragments (group inside rest) offset

end Forest

/--
Whether texts stand in a document in this order, each of them a balanced group behind the one
before.
-/
def Document.Quotes (d : Document) (texts : List String) : Prop :=
  ∃ gs, d.fragment.Quotes gs ∧ gs.map Fragment.text = texts

namespace Section

variable {f : Fragment} {s : Section} {k : Keyword} {t : Forest} {texts : List String}
  {d : Document}

theorem Holds.quotes_expressions (h : s.Holds t) :
    s.fragment.Quotes (s.keyword.form.expressions s.nesting.outer.opening t) := by
  cases s.keyword.form with
  | block => exact (t.quotes_unwrapped _).of_isPart h.1.isPart_inside
  | value =>
    have hgroup : s.fragment.IsPart ⟨s.nesting.outer.opening, (Forest.group t .nil).chars⟩ :=
      Fragment.groupAt_iff_isPart.mp h.1
    exact (Forest.quotes_unwrapped _ _).of_isPart hgroup

theorem quotes_of_expressions (hf : d.fragment.IsPart f) (hs : first f k = .ok (some s))
    (h : s.expressions = .ok texts) : d.Quotes texts := by
  obtain ⟨_, rfl, t, hholds⟩ := exists_of_first_ok hs
  rw [hholds.expressions_fragments] at h
  cases h
  exact ⟨_, hholds.quotes_expressions.of_isPart hf, rfl⟩

theorem quotes_of_parts (hf : d.fragment.IsPart f) (hs : first f k = .ok (some s))
    (h : s.parts = .ok texts) : d.Quotes texts := by
  obtain ⟨_, rfl, t, hholds⟩ := exists_of_first_ok hs
  rw [hholds.parts_fragments] at h
  cases h
  exact ⟨_, ((t.quotes_fragments _).of_isPart hholds.1.isPart_inside).of_isPart hf, rfl⟩

theorem quotes_of_readD {read : Section → Except ReadError (List String)}
    (h : readD d.fragment k [] read = .ok texts)
    (hread : ∀ s, first d.fragment k = .ok (some s) → read s = .ok texts → d.Quotes texts) :
    d.Quotes texts := by
  rcases readD_eq_ok.mp h with ⟨_, rfl⟩ | ⟨s, hs, h⟩
  . exact ⟨[], .nil _, rfl⟩
  . exact hread s hs h

end Section

namespace Action

/--
Whether an action may have this name.
-/
structure IsName (name : List Char) : Prop where
  ne_nil : name ≠ []
  isAtom : ∀ c ∈ name, ¬ Text.isBlank c ∧ c ≠ '(' ∧ c ≠ ')'
  not_isTag : name.head? ≠ some ':'

theorem not_isParen_of_mem_beforeParen {cs : List Char} {c : Char} (h : c ∈ beforeParen cs) :
    c ≠ '(' ∧ c ≠ ')' := by
  have hc := List.all_eq_true.mp List.all_takeWhile c h
  simpa [isParen] using hc

theorem isAtom_of_mem_words {cs word : List Char} (h : word ∈ Text.words cs) :
    word ≠ [] ∧ ∀ c ∈ word, c ∈ cs ∧ ¬ Text.isBlank c := by
  obtain ⟨before, after, hcs, hne, hsolid⟩ := Text.exists_split_of_mem_words h
  refine ⟨hne, ?_⟩
  intro c hc
  exact ⟨by simp [hcs, hc], hsolid c hc⟩

theorem isName_of_name? {body name : List Char} (h : name? body = some name) : IsName name := by
  unfold name? at h
  simp only at h
  split at h
  next word hlast =>
    cases h
    have hword := List.mem_of_getLast? hlast
    have htag := List.all_eq_true.mp List.all_takeWhile _ hword
    obtain ⟨hne, hatom⟩ := isAtom_of_mem_words (List.takeWhile_subset _ hword)
    refine ⟨hne, ?_, by simpa [isTag] using htag⟩
    intro c hc
    exact ⟨(hatom c hc).2, not_isParen_of_mem_beforeParen (hatom c hc).1⟩
  next =>
    obtain ⟨word, hword, h⟩ := Option.bind_eq_some_iff.mp h
    simp only [Option.ite_none_left_eq_some, Option.some.injEq, Bool.or_eq_true, not_or,
      List.isEmpty_iff] at h
    obtain ⟨⟨hne, htag⟩, rfl⟩ := h
    refine ⟨hne, ?_, by simpa [isTag] using htag⟩
    intro c hc
    have hmem : c ∈ word := List.takeWhile_subset _ hc
    exact ⟨((isAtom_of_mem_words (List.mem_of_mem_head? hword)).2 c hmem).2,
      not_isParen_of_mem_beforeParen hc⟩

/--
Whether an action has a name that it may have and quotes its expressions from a document.
-/
structure IsWellFormed (a : Action) (d : Document) : Prop where
  name : IsName a.name.toList
  preconditions : d.Quotes a.preconditions
  effects : d.Quotes a.effects

theorem IsReadFrom.isWellFormed {a : Action} {body : Fragment} {d : Document}
    (h : a.IsReadFrom body) (hbody : d.fragment.IsPart body) : a.IsWellFormed d := by
  obtain ⟨s, hs, hpreconditions⟩ := h.preconditions
  obtain ⟨s', hs', heffects⟩ := h.effects
  exact ⟨isName_of_name? h.name, Section.quotes_of_expressions hbody hs hpreconditions,
    Section.quotes_of_expressions hbody hs' heffects⟩

end Action

namespace Domain

/--
Whether the actions of a domain are filed under their names and everything in it is quoted from a
document.
-/
structure IsWellFormed (domain : Domain) (d : Document) : Prop where
  predicates : d.Quotes domain.predicates
  actions : ∀ entry ∈ domain.actions.entries,
    entry.1 = entry.2.name ∧ entry.2.IsWellFormed d

theorem IsReadFrom.isWellFormed {domain : Domain} {d : Document} (h : domain.IsReadFrom d) :
    domain.IsWellFormed d := by
  constructor
  . apply Section.quotes_of_readD h.predicates
    intro s hs hparts
    exact Section.quotes_of_parts (.refl _) hs hparts
  . intro entry hentry
    obtain ⟨hkey, offset, t, _, hgroup, haction⟩ := h.exists_of_mem_actions hentry
    exact ⟨hkey, haction.isWellFormed (Fragment.groupAt_iff_isPart.mp hgroup)⟩

end Domain

namespace Problem

/--
Whether everything in a problem is quoted from a document.
-/
structure IsWellFormed (problem : Problem) (d : Document) : Prop where
  init : d.Quotes problem.init
  goal : d.Quotes problem.goal

theorem quotes_of_readExpressions {d : Document} {k : Keyword} {texts : List String}
    (h : readExpressions d.fragment k = .ok texts) : d.Quotes texts := by
  apply Section.quotes_of_readD h
  intro s hs hexpressions
  exact Section.quotes_of_expressions (.refl _) hs hexpressions

theorem IsReadFrom.isWellFormed {problem : Problem} {d : Document} (h : problem.IsReadFrom d) :
    problem.IsWellFormed d :=
  ⟨quotes_of_readExpressions h.init, quotes_of_readExpressions h.goal⟩

end Problem

/--
A catalog holds the domain that was read, filed under its name, with its actions and problems filed
under theirs. All expressions are quoted from the documents they were read from.
-/
theorem wellFormed_of_read {domain : Document} {problems : List Document} {c : Catalog}
    (h : (Catalog.read domain problems).outcome = .ok c) :
    ∃ d, c.domains.entries = [(d.name, d)] ∧ d.IsWellFormed domain
      ∧ ∀ entry ∈ d.problems.entries, entry.1 = entry.2.name
        ∧ ∃ problem ∈ problems, (Problem.read problem).outcome = .ok entry.2
          ∧ entry.2.IsWellFormed problem := by
  obtain ⟨d, hd, rfl⟩ := Catalog.exists_of_read_ok h
  have hwell := (Domain.isReadFrom_of_read hd).isWellFormed
  refine ⟨_, rfl, ⟨hwell.predicates, hwell.actions⟩, ?_⟩
  intro entry hentry
  obtain ⟨hkey, hmem⟩ := NameMap.mem_entries_ofList hentry
  obtain ⟨problem, hproblem, hread⟩ := Problem.mem_accepted.mp hmem
  exact ⟨hkey, problem, hproblem, hread, (Problem.isReadFrom_of_read hread).isWellFormed⟩

theorem wellFormed_of_read_conjunctions :
    let domain := Document.ofString
      "(define (domain d) (:predicates (p) (q ?x))
        (:action a :parameters () :precondition (and (p) (q b)) :effect (not (p))))"
    let problem := Document.ofString "(define (problem e) (:domain d)) (:init (p)) (:goal (and))"
    let a : Action := ⟨"a", .empty, ["(p)", "(q b)"], ["(not (p))"]⟩
    let p : Problem := ⟨"e", "d", .empty, ["(p)"], []⟩
    let d : Domain := ⟨"d", [], .empty, .empty, ["(p)", "(q ?x)"], NameMap.empty.insert "a" a,
      NameMap.empty.insert "e" p⟩
    (Catalog.read domain [problem]).outcome = .ok (.single d)
      ∧ domain.Quotes ["(p)", "(q b)"] ∧ problem.Quotes ["(p)"] := by
  intro domain problem a p d
  have hread : (Catalog.read domain [problem]).outcome = .ok (.single d) := by
    decide +kernel
  obtain ⟨d', hentries, hwell, hproblems⟩ := wellFormed_of_read hread
  have hvalues : [d] = [d'] := congrArg (List.map Prod.snd) hentries
  cases hvalues
  obtain ⟨_, problem', hmem, _, hquotes⟩ := hproblems ("e", p) List.mem_cons_self
  cases List.mem_singleton.mp hmem
  refine ⟨hread, ?_, hquotes.init⟩
  exact (hwell.actions ("a", a) List.mem_cons_self).2.preconditions

end PddlOutline

import Mathlib.Data.List.Forall2
import PddlOutline.Proofs.Failure
import PddlOutline.Proofs.NameMap

/-!
This module contains how reading succeeds: which sections are found and what is read from them. All
that is said of what was read is derived from it.
-/

namespace PddlOutline

namespace Section

variable {f : Fragment} {k : Keyword} {offset : Nat} {nesting : Nesting} {s : Section}

theorem first_eq_ok_of_delimit (h : delimit f k offset = .ok nesting) :
    Nesting.first f offset = .ok nesting := by
  unfold delimit at h
  split at h
  . cases h
    assumption
  . cases h
  . cases h
  . cases h

theorem exists_of_delimit_ok (ho : offset ∈ f.places k) (h : delimit f k offset = .ok nesting) :
    ∃ (front gap rest : List Char) (t : Forest), f.chars = front ++ (gap ++ (t.enclosed ++ rest))
      ∧ offset = f.start + Text.byteSize front
      ∧ (∃ tag behind, gap ++ (t.enclosed ++ rest) = tag ++ behind ∧ k.Tag tag)
      ∧ Text.IsPlain gap ∧ nesting = t.nesting (offset + Text.byteSize gap) := by
  obtain ⟨front, tag, behind, hchars, htag, rfl⟩ := Fragment.mem_places.mp ho
  have hfirst := first_eq_ok_of_delimit h
  obtain ⟨gap, rest, hgap, hplain, hcases⟩ := Nesting.first_cases hchars
  rw [hgap] at hchars
  rcases hcases with hfirst' | ⟨_, _, hfirst'⟩ | ⟨_, _, hfirst'⟩ | ⟨t, after, rfl, hfirst'⟩
  . cases hfirst'.symm.trans hfirst
  . cases hfirst'.symm.trans hfirst
  . cases hfirst'.symm.trans hfirst
  . cases hfirst'.symm.trans hfirst
    exact ⟨front, gap, after, t, hchars, rfl, ⟨tag, behind, hgap.symm, htag⟩, hplain, rfl⟩

theorem exists_of_delimit_value (hk : k.form = .value) (ho : offset ∈ f.places k)
    (h : delimit f k offset = .ok nesting) :
    ∃ (front tag gap rest : List Char) (t : Forest),
      f.chars = front ++ (tag ++ (gap ++ (t.enclosed ++ rest)))
        ∧ offset = f.start + Text.byteSize front ∧ k.Tag tag
        ∧ nesting = t.nesting (offset + Text.byteSize (tag ++ gap)) := by
  obtain ⟨front, gap, rest, t, hchars, hoffset, ⟨tag, behind, htag, hletters⟩, _, hnesting⟩ :=
    exists_of_delimit_ok ho h
  -- The keyword has no parenthesis, so the first group starts behind it.
  rcases List.append_eq_append_iff.mp htag with ⟨part, rfl, hpart⟩ | ⟨gap', rfl, _⟩
  . cases part with
    | nil =>
      rw [List.append_nil] at hletters
      exact ⟨front, gap, [], rest, t, by simp [hchars], hoffset, hletters, by simpa using hnesting⟩
    | cons c part =>
      have hc : '(' = c := (List.cons.inj hpart).1
      exact absurd hc.symm (hletters.isPlain hk c (by simp)).1
  . exact ⟨front, tag, gap', rest, t, by simp [hchars], hoffset, hletters, hnesting⟩

theorem exists_of_delimit_block (hk : k.form = .block) (ho : offset ∈ f.places k)
    (h : delimit f k offset = .ok nesting) :
    ∃ (front rest tag behind : List Char) (t : Forest), f.chars = front ++ (t.enclosed ++ rest)
      ∧ offset = f.start + Text.byteSize front ∧ t.enclosed = tag ++ behind ∧ k.Tag tag
      ∧ nesting = t.nesting offset := by
  obtain ⟨front, gap, rest, t, hchars, hoffset, ⟨tag, behind, htag, hletters⟩, hplain, hnesting⟩ :=
    exists_of_delimit_ok ho h
  obtain ⟨tag', rfl⟩ := hletters.eq_cons hk
  have hgap : gap = [] := by
    cases gap with
    | nil => rfl
    | cons c gap => exact absurd (List.cons.inj htag).1 (hplain c List.mem_cons_self).1
  rw [hgap, Text.byteSize_nil, Nat.add_zero] at hnesting
  rw [hgap, List.nil_append] at hchars htag
  -- The keyword does not close a parenthesis, so it ends in the group.
  rcases List.append_eq_append_iff.mp htag with ⟨_, hpart, _⟩ | ⟨behind', henclosed, _⟩
  . have hclosing : ')' ∈ '(' :: tag' := by
      rw [hpart, Forest.enclosed]
      simp
    exact absurd rfl (Keyword.of_mem_chars (hletters.toLower_mem hclosing)).2.2.2.1
  . exact ⟨front, rest, '(' :: tag', behind', t, hchars, hoffset, henclosed, hletters, hnesting⟩

theorem exists_delimit_of_first_ok (h : first f k = .ok (some s)) :
    ∃ i, (f.places k).head? = some i ∧ delimit f k i = .ok s.nesting
      ∧ s.keyword = k ∧ s.fragment = f := by
  cases hplace : (f.places k).head? with
  | none =>
    rw [first_of_nil (List.head?_eq_none_iff.mp hplace)] at h
    cases h
  | some i =>
    refine ⟨i, rfl, ?_⟩
    cases hdelimit : delimit f k i with
    | error e =>
      rw [first_of_delimit_error hplace hdelimit] at h
      cases h
    | ok nesting =>
      rw [first_of_delimit_ok hplace hdelimit] at h
      split at h
      . cases h
        exact ⟨rfl, rfl, rfl⟩
      . obtain ⟨_, _, h⟩ := Outcome.map_eq_ok.mp h
        cases h
        exact ⟨rfl, rfl, rfl⟩

theorem exists_of_first_ok (h : first f k = .ok (some s)) :
    s.keyword = k ∧ s.fragment = f ∧ ∃ t, s.Holds t := by
  obtain ⟨i, hi, hdelimit, hkeyword, hfragment⟩ := exists_delimit_of_first_ok h
  obtain ⟨front, gap, rest, t, hchars, hoffset, _, _, hnesting⟩ :=
    exists_of_delimit_ok (List.mem_of_mem_head? hi) hdelimit
  have hgroup : f.GroupAt (i + Text.byteSize gap) t :=
    ⟨front ++ gap, rest, by simp [hchars], by simp [hoffset, Nat.add_assoc]⟩
  refine ⟨hkeyword, hfragment, t, ?_⟩
  rw [Holds, hfragment, hnesting]
  exact ⟨hgroup, rfl⟩

theorem Holds.isPart_of_mem_groups {t : Forest} {b : Group} (h : s.Holds t)
    (hb : b ∈ s.nesting.groups) :
    ∃ u : Forest, s.fragment.IsPart ⟨b.opening, u.enclosed⟩ ∧ b = (u.nesting b.opening).outer := by
  rw [h.2] at hb
  exact h.1.isPart_of_mem_groups hb

theorem readD_eq_ok {α : Type} {absent a : α} {read : Section → Except ReadError α} :
    readD f k absent read = .ok a ↔
      first f k = .ok none ∧ a = absent ∨ ∃ s, first f k = .ok (some s) ∧ read s = .ok a := by
  unfold readD
  cases first f k with
  | error e => simp [bind, Except.bind]
  | ok found =>
    cases found with
    | none => simp [bind, Except.bind, pure, Except.pure, eq_comm]
    | some s => simp [bind, Except.bind]

end Section

namespace Action

variable {f body : Fragment} {k : Keyword} {offset : Nat} {a : Action}

theorem needed_eq_ok {s : Section} :
    needed body k = .ok s ↔ Section.first body k = .ok (some s) := by
  unfold needed
  cases Section.first body k with
  | error e => simp [bind, Except.bind]
  | ok found =>
    cases found with
    | none => simp [bind, Except.bind, throw, throwThe, MonadExceptOf.throw]
    | some s => simp [bind, Except.bind, pure, Except.pure]

/--
What an action that was read is made of.
-/
structure IsReadFrom (a : Action) (body : Fragment) : Prop where
  name : name? body.chars = some a.name.toList
  parameters : ∃ s, Section.first body .parameters = .ok (some s)
    ∧ s.tokens >>= Parameters.ofTokens = .ok a.parameters
  preconditions : ∃ s, Section.first body .precondition = .ok (some s)
    ∧ s.expressions = .ok a.preconditions
  effects : ∃ s, Section.first body .effect = .ok (some s) ∧ s.expressions = .ok a.effects

theorem isReadFrom_of_ofFragment (h : ofFragment body = .ok a) : a.IsReadFrom body := by
  cases hname : name? body.chars with
  | none =>
    rw [ofFragment_of_name_none body hname] at h
    cases h
  | some name =>
    rw [ofFragment_of_name body hname] at h
    simp only [parametersOf, expressionsOf, Outcome.bind_eq_ok, needed_eq_ok] at h
    obtain ⟨_, ⟨s, hs, htokens⟩, _, ⟨s', hs', hpreconditions⟩, _, ⟨s'', hs'', heffects⟩, h⟩ := h
    cases h
    exact ⟨by rw [hname, String.toList_ofList], ⟨s, hs, Outcome.bind_eq_ok.mpr htokens⟩,
      ⟨s', hs', hpreconditions⟩, ⟨s'', hs'', heffects⟩⟩

theorem exists_isReadFrom_of_read (ho : offset ∈ f.places .action) (h : read f offset = .ok a) :
    ∃ t, f.GroupAt offset t ∧ a.IsReadFrom ⟨offset, t.enclosed⟩ := by
  obtain ⟨t, ht⟩ := exists_groupAt_of_read_ok ho h
  rw [read_of_groupAt ht] at h
  exact ⟨t, ht, isReadFrom_of_ofFragment h⟩

end Action

namespace Domain

variable {f : Fragment} {d : Document} {domain : Domain}

theorem readActions_eq_ok {offsets : List Nat} {actions : List Action} :
    (readActions f offsets).outcome = .ok actions ↔
      List.Forall₂ (fun offset action => Action.read f offset = .ok action) offsets actions := by
  induction offsets generalizing actions with
  | nil =>
    rw [List.forall₂_nil_left_iff, readActions, Traced.outcome_pure, Except.ok.injEq, eq_comm]
  | cons offset offsets ih =>
    simp only [readActions, Traced.outcome_bind, Traced.outcome_ofExcept, Traced.outcome_emit,
      Traced.outcome_pure, Outcome.bind_eq_ok, List.forall₂_cons_left_iff, Except.ok.injEq]
    constructor
    . rintro ⟨action, hread, _, _, actions, hactions, rfl⟩
      exact ⟨action, actions, hread, ih.mp hactions, rfl⟩
    . rintro ⟨action, actions, hread, hactions, rfl⟩
      exact ⟨action, hread, (), trivial, actions, ih.mpr hactions, rfl⟩

theorem exists_read_of_mem {offsets : List Nat} {actions : List Action} {a : Action}
    (h : (readActions f offsets).outcome = .ok actions) (ha : a ∈ actions) :
    ∃ offset ∈ offsets, Action.read f offset = .ok a := by
  rw [readActions_eq_ok] at h
  induction h with
  | nil => cases ha
  | @cons offset action offsets actions hread _ ih =>
    cases List.mem_cons.mp ha with
    | inl ha => exact ⟨offset, List.mem_cons_self, ha ▸ hread⟩
    | inr ha =>
      obtain ⟨other, ho, hother⟩ := ih ha
      exact ⟨other, List.mem_cons_of_mem offset ho, hother⟩

theorem exists_groupAt_of_readActions_ok {offsets : List Nat} {actions : List Action}
    (ho : ∀ offset ∈ offsets, offset ∈ f.places .action)
    (h : (readActions f offsets).outcome = .ok actions) :
    ∀ i ∈ offsets, ∃ t, f.GroupAt i t := by
  rw [readActions_eq_ok] at h
  induction h with
  | nil => exact nofun
  | @cons offset action offsets actions hread _ ih =>
    rw [List.forall_mem_cons] at ho ⊢
    exact ⟨Action.exists_groupAt_of_read_ok ho.1 hread, ih ho.2⟩

theorem keys_indexActions (actions : List Action) :
    (indexActions actions).keys = (actions.map Action.name).eraseDups :=
  NameMap.keys_ofList Action.name actions

theorem get?_indexActions (actions : List Action) (name : String) :
    (indexActions actions).get? name = actions.reverse.find? (·.name = name) :=
  NameMap.get?_ofList Action.name actions name

/--
Whether everything of a domain but its actions can be read.
-/
structure HasSections (d : Document) : Prop where
  requirements : ∃ requirements, readRequirements d.fragment = .ok requirements
  types : ∃ types, readTypedList d.fragment .types = .ok types
  constants : ∃ constants, readTypedList d.fragment .constants = .ok constants
  predicates : ∃ predicates, readPredicates d.fragment = .ok predicates

theorem outcome_readName (cs : List Char) : ∃ name, (readName cs).outcome = .ok name := by
  unfold readName
  split
  . exact ⟨_, rfl⟩
  . exact ⟨_, rfl⟩

/--
What a domain that was read is made of. Its problems are read from other documents.
-/
structure IsReadFrom (domain : Domain) (d : Document) : Prop where
  name : (readName d.chars).outcome = .ok domain.name
  requirements : readRequirements d.fragment = .ok domain.requirements
  types : readTypedList d.fragment .types = .ok domain.types
  constants : readTypedList d.fragment .constants = .ok domain.constants
  predicates : readPredicates d.fragment = .ok domain.predicates
  actions : ∃ actions, (readActions d.fragment (d.fragment.places .action)).outcome = .ok actions
    ∧ domain.actions = indexActions actions
  problems : domain.problems = .empty

theorem isReadFrom_of_read (h : (read d).outcome = .ok domain) : domain.IsReadFrom d := by
  unfold read at h
  simp only [Traced.outcome_bind, Traced.outcome_ofExcept, Traced.outcome_pure,
    Outcome.bind_eq_ok] at h
  obtain ⟨_, hname, _, hrequirements, _, htypes, _, hconstants, _, hpredicates, actions, hactions,
    h⟩ := h
  cases h
  exact ⟨hname, hrequirements, htypes, hconstants, hpredicates, ⟨actions, hactions, rfl⟩, rfl⟩

theorem read_eq_ok : (read d).outcome = .ok domain ↔ domain.IsReadFrom d := by
  constructor
  . exact isReadFrom_of_read
  . rintro ⟨hname, hrequirements, htypes, hconstants, hpredicates, ⟨actions, hactions, hindex⟩,
      hproblems⟩
    unfold Fragment.places at hactions
    unfold read
    simp only [Traced.outcome_bind, Traced.outcome_ofExcept, Traced.outcome_pure, hname,
      hrequirements, htypes, hconstants, hpredicates, hactions]
    show Except.ok _ = _
    rw [← hindex, ← hproblems]

theorem IsReadFrom.hasSections (h : domain.IsReadFrom d) : HasSections d :=
  ⟨⟨_, h.requirements⟩, ⟨_, h.types⟩, ⟨_, h.constants⟩, ⟨_, h.predicates⟩⟩

theorem IsReadFrom.exists_of_mem_actions (h : domain.IsReadFrom d) {entry : String × Action}
    (hentry : entry ∈ domain.actions.entries) :
    entry.1 = entry.2.name ∧ ∃ offset t, offset ∈ d.fragment.places .action
      ∧ d.fragment.GroupAt offset t ∧ entry.2.IsReadFrom ⟨offset, t.enclosed⟩ := by
  obtain ⟨actions, hactions, hindex⟩ := h.actions
  rw [hindex] at hentry
  obtain ⟨hkey, hmem⟩ := NameMap.mem_entries_ofList hentry
  obtain ⟨offset, ho, hread⟩ := exists_read_of_mem hactions hmem
  obtain ⟨t, ht, haction⟩ := Action.exists_isReadFrom_of_read ho hread
  exact ⟨hkey, offset, t, ho, ht, haction⟩

theorem closes_of_read_ok (h : (read d).outcome = .ok domain) :
    (∀ k ∈ keywords, d.fragment.ClosesFirst k)
      ∧ ∀ i ∈ d.fragment.places .action, ∃ t, d.fragment.GroupAt i t := by
  have hread := isReadFrom_of_read h
  obtain ⟨actions, hactions, _⟩ := hread.actions
  exact ⟨closesFirst_of_sections_ok hread.requirements hread.types hread.constants
      hread.predicates,
    exists_groupAt_of_readActions_ok (fun _ ho => ho) hactions⟩

end Domain

namespace Problem

variable {d : Document} {problem : Problem}

/--
What a problem that was read is made of.
-/
structure IsReadFrom (problem : Problem) (d : Document) : Prop where
  names : (readNames d.chars).outcome = .ok (problem.name, problem.domainLink)
  objects : readObjects d.fragment = .ok problem.objects
  init : readExpressions d.fragment .init = .ok problem.init
  goal : readExpressions d.fragment .goal = .ok problem.goal

theorem isReadFrom_of_read (h : (read d).outcome = .ok problem) : problem.IsReadFrom d := by
  unfold read at h
  simp only [Traced.outcome_bind, Traced.outcome_ofExcept, Traced.outcome_pure,
    Outcome.bind_eq_ok] at h
  obtain ⟨_, hnames, _, hobjects, _, hinit, _, hgoal, h⟩ := h
  cases h
  exact ⟨hnames, hobjects, hinit, hgoal⟩

theorem read_eq_ok : (read d).outcome = .ok problem ↔ problem.IsReadFrom d := by
  constructor
  . exact isReadFrom_of_read
  . rintro ⟨hnames, hobjects, hinit, hgoal⟩
    unfold read
    simp only [Traced.outcome_bind, Traced.outcome_ofExcept, Traced.outcome_pure, hnames, hobjects,
      hinit, hgoal]
    rfl

theorem closes_of_read_ok (h : (read d).outcome = .ok problem) :
    ∀ k ∈ keywords, d.fragment.ClosesFirst k := by
  have hread := isReadFrom_of_read h
  intro k hk
  simp only [keywords, List.mem_cons, List.not_mem_nil, or_false] at hk
  rcases hk with rfl | rfl | rfl
  . exact Section.closesFirst_of_readD_ok rfl hread.objects
  . exact Section.closesFirst_of_readD_ok rfl hread.init
  . exact Section.closesFirst_of_readD_ok rfl hread.goal

end Problem
end PddlOutline

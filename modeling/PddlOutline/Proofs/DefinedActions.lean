import PddlOutline.Proofs.Success

/-!
This module contains which actions a domain has. Every place of the keyword is the place of a
definition, also one within another definition, and all of them have to be readable, although of
several definitions with the same name only the last one counts.
-/

namespace PddlOutline
namespace Action

variable {f : Fragment} {offset : Nat} {outcome : Except ReadError Action}

/--
What is read of the group at `offset`.
-/
inductive DefinedAt (f : Fragment) (offset : Nat) : Except ReadError Action → Prop
  | group (t : Forest) (ht : f.GroupAt offset t) :
      DefinedAt f offset (ofFragment ⟨offset, t.enclosed⟩)
  | unclosed (h : ∀ t, ¬ f.GroupAt offset t) :
      DefinedAt f offset (.error (.malformed .unclosed (some ⟨offset, offset + 1⟩)))

theorem definedAt_iff (ho : offset ∈ f.places .action) :
    DefinedAt f offset outcome ↔ read f offset = outcome := by
  constructor
  . intro h
    cases h with
    | group t ht => exact read_of_groupAt ht
    | unclosed hnone => exact read_of_forall_not_groupAt ho hnone
  . rintro rfl
    by_cases h : ∃ t, f.GroupAt offset t
    . obtain ⟨t, ht⟩ := h
      rw [read_of_groupAt ht]
      exact .group t ht
    . rw [not_exists] at h
      rw [read_of_forall_not_groupAt ho h]
      exact .unclosed h

end Action

namespace Domain

variable {f : Fragment} {d : Document} {offsets : List Nat} {e : ReadError}

/--
Whether the first definition that cannot be read fails with `e`.
-/
def FailsFirst (f : Fragment) (offsets : List Nat) (e : ReadError) : Prop :=
  ∃ before offset behind, offsets = before ++ offset :: behind
    ∧ (∀ i ∈ before, ∃ a, Action.DefinedAt f i (.ok a)) ∧ Action.DefinedAt f offset (.error e)

theorem failsFirst_cons {offset : Nat} :
    FailsFirst f (offset :: offsets) e ↔
      Action.DefinedAt f offset (.error e)
        ∨ (∃ a, Action.DefinedAt f offset (.ok a)) ∧ FailsFirst f offsets e := by
  constructor
  . rintro ⟨before, i, behind, hoffsets, hbefore, hi⟩
    cases before with
    | nil =>
      obtain ⟨rfl, rfl⟩ := List.cons.inj hoffsets
      exact .inl hi
    | cons j before =>
      obtain ⟨rfl, hrest⟩ := List.cons.inj hoffsets
      rw [List.forall_mem_cons] at hbefore
      exact .inr ⟨hbefore.1, before, i, behind, hrest, hbefore.2, hi⟩
  . rintro (h | ⟨ha, before, i, behind, rfl, hbefore, hi⟩)
    . exact ⟨[], offset, offsets, rfl, by simp, h⟩
    . exact ⟨offset :: before, i, behind, rfl, List.forall_mem_cons.mpr ⟨ha, hbefore⟩, hi⟩

theorem readActions_eq_error_iff (ho : ∀ offset ∈ offsets, offset ∈ f.places .action) :
    (readActions f offsets).outcome = .error e ↔ FailsFirst f offsets e := by
  induction offsets with
  | nil => simp [readActions, FailsFirst]
  | cons offset offsets ih =>
    rw [List.forall_mem_cons] at ho
    rw [failsFirst_cons, ← ih ho.2]
    simp only [readActions, Traced.outcome_bind, Traced.outcome_ofExcept, Traced.outcome_emit,
      Traced.outcome_pure, Outcome.bind_eq_error, Action.definedAt_iff ho.1]
    simp

theorem exists_readActions_eq_ok_iff (ho : ∀ offset ∈ offsets, offset ∈ f.places .action) :
    (∃ actions, (readActions f offsets).outcome = .ok actions) ↔
      ∀ offset ∈ offsets, ∃ a, Action.DefinedAt f offset (.ok a) := by
  induction offsets with
  | nil => simp [readActions]
  | cons offset offsets ih =>
    rw [List.forall_mem_cons] at ho
    rw [List.forall_mem_cons, ← ih ho.2]
    simp only [readActions, Traced.outcome_bind, Traced.outcome_ofExcept, Traced.outcome_emit,
      Traced.outcome_pure, Outcome.bind_eq_ok, Action.definedAt_iff ho.1]
    simp

theorem forall₂_definedAt {actions : List Action}
    (ho : ∀ offset ∈ offsets, offset ∈ f.places .action)
    (h : (readActions f offsets).outcome = .ok actions) :
    List.Forall₂ (fun offset a => Action.DefinedAt f offset (.ok a)) offsets actions := by
  rw [readActions_eq_ok] at h
  induction h with
  | nil => exact .nil
  | cons hread _ ih =>
    rw [List.forall_mem_cons] at ho
    exact .cons ((Action.definedAt_iff ho.1).mpr hread) (ih ho.2)

/--
If all other sections are read, it is up to the actions whether the domain is read.
-/
theorem HasSections.exists_outcome_eq (h : HasSections d) :
    ∃ domain : List Action → Domain, (read d).outcome
      = (readActions d.fragment (d.fragment.places .action)).outcome.map domain := by
  obtain ⟨name, hname⟩ := outcome_readName d.chars
  obtain ⟨requirements, hrequirements⟩ := h.requirements
  obtain ⟨types, htypes⟩ := h.types
  obtain ⟨constants, hconstants⟩ := h.constants
  obtain ⟨predicates, hpredicates⟩ := h.predicates
  refine ⟨fun actions =>
    ⟨name, requirements, types, constants, predicates, indexActions actions, .empty⟩, ?_⟩
  unfold read
  simp only [Traced.outcome_bind, Traced.outcome_ofExcept, Traced.outcome_pure, hname,
    hrequirements, htypes, hconstants, hpredicates]
  rfl

end Domain

/--
The actions of a domain are read from all places of the keyword, in their order. A name stands where
it was defined first and belongs to the action that was defined last. If the other sections are
read, the domain is refused for the first definition that cannot be read, and only then.
-/
theorem actions_defined_in_order (d : Document) :
    ((∀ offset, offset ∈ d.fragment.places .action ↔
        ∃ front tag rest, d.chars = front ++ (tag ++ rest) ∧ Keyword.action.Tag tag
          ∧ offset = Text.byteSize front)
      ∧ (d.fragment.places .action).Pairwise (· < ·))
    ∧ (∀ domain, (Domain.read d).outcome = .ok domain →
      ∃ actions, List.Forall₂ (fun offset a => Action.DefinedAt d.fragment offset (.ok a))
          (d.fragment.places .action) actions
        ∧ domain.actions.keys = (actions.map Action.name).eraseDups
        ∧ ∀ name, domain.actions.get? name = actions.reverse.find? (·.name = name))
    ∧ (Domain.HasSections d → ∀ e, (Domain.read d).outcome = .error e ↔
      Domain.FailsFirst d.fragment (d.fragment.places .action) e)
    ∧ ((∃ domain, (Domain.read d).outcome = .ok domain) ↔
      Domain.HasSections d
        ∧ ∀ offset ∈ d.fragment.places .action, ∃ a, Action.DefinedAt d.fragment offset (.ok a)) := by
  refine ⟨⟨?_, d.fragment.places_pairwise .action⟩, ?_, ?_, ?_⟩
  . intro offset
    rw [Fragment.mem_places, show d.fragment.start = 0 from rfl]
    simp only [Nat.zero_add]
    rfl
  . intro domain h
    obtain ⟨actions, hactions, hindex⟩ := (Domain.isReadFrom_of_read h).actions
    refine ⟨actions, Domain.forall₂_definedAt (fun _ ho => ho) hactions, ?_⟩
    rw [hindex]
    exact ⟨Domain.keys_indexActions actions, Domain.get?_indexActions actions⟩
  . intro h e
    obtain ⟨domain, hdomain⟩ := h.exists_outcome_eq
    rw [hdomain, Outcome.map_eq_error]
    exact Domain.readActions_eq_error_iff fun _ ho => ho
  . rw [← Domain.exists_readActions_eq_ok_iff fun _ ho => ho]
    constructor
    . rintro ⟨domain, h⟩
      have hread := Domain.isReadFrom_of_read h
      obtain ⟨actions, hactions, _⟩ := hread.actions
      exact ⟨hread.hasSections, actions, hactions⟩
    . rintro ⟨h, hactions⟩
      obtain ⟨domain, hdomain⟩ := h.exists_outcome_eq
      rw [hdomain]
      exact Outcome.exists_map_eq_ok.mpr hactions

/--
A definition within another one, which is the last of its name, and a definition that cannot be read
although there is another one of the same name.
-/
theorem actions_defined_in_order_nested :
    let d := Document.ofString ("(define (domain d)"
      ++ " (:action m :parameters () :precondition () :effect (p))"
      ++ " (:ACTION n :parameters () :precondition () :effect"
      ++ " (q (:action m :parameters (?x) :precondition () :effect (r)))))")
    let m : Action := ⟨"m", ⟨["?x"], []⟩, [], ["(r)"]⟩
    let n : Action := ⟨"n", ⟨[], []⟩, [],
      ["(q (:action m :parameters (?x) :precondition () :effect (r)))"]⟩
    let unread := Document.ofString ("(:action m :parameters () :precondition ())"
      ++ " (:action m :parameters () :precondition () :effect (p))")
    let e := ReadError.missingSection .effect (some ⟨0, 43⟩)
    (∃ domain actions, (Domain.read d).outcome = .ok domain
        ∧ List.Forall₂ (fun offset a => Action.DefinedAt d.fragment offset (.ok a)) [19, 75, 129]
          actions
        ∧ domain.actions.entries = [("m", m), ("n", n)]
        ∧ actions.reverse.find? (·.name = "m") = some m)
      ∧ Domain.HasSections unread
      ∧ Domain.FailsFirst unread.fragment [0, 44] e
      ∧ (Domain.read unread).outcome = .error e
      ∧ ∃ a, Action.read unread.fragment 44 = .ok a := by
  intro d m n unread e
  have hd : d.fragment.places .action = [19, 75, 129]
      ∧ (Domain.read d).outcome = .ok ⟨"d", [], .flat [], .flat [], [],
        ⟨[("m", m), ("n", n)], by decide⟩, .empty⟩ := by
    decide +kernel
  have hunread : unread.fragment.places .action = [0, 44]
      ∧ (Domain.read unread).outcome = .error e
      ∧ Action.read unread.fragment 44 = .ok ⟨"m", ⟨[], []⟩, [], ["(p)"]⟩
      ∧ Domain.readRequirements unread.fragment = .ok []
      ∧ Domain.readTypedList unread.fragment .types = .ok (.flat [])
      ∧ Domain.readTypedList unread.fragment .constants = .ok (.flat [])
      ∧ Domain.readPredicates unread.fragment = .ok [] := by
    decide +kernel
  obtain ⟨hplaces, hread⟩ := hd
  obtain ⟨hplaces', herror, hlast, hrequirements, htypes, hconstants, hpredicates⟩ := hunread
  have hsections : Domain.HasSections unread :=
    ⟨⟨_, hrequirements⟩, ⟨_, htypes⟩, ⟨_, hconstants⟩, ⟨_, hpredicates⟩⟩
  obtain ⟨_, hdefined, _, _⟩ := actions_defined_in_order d
  obtain ⟨actions, hactions, _, hget⟩ := hdefined _ hread
  obtain ⟨_, _, hfails, _⟩ := actions_defined_in_order unread
  have hfirst := (hfails hsections e).mp herror
  rw [hplaces] at hactions
  rw [hplaces'] at hfirst
  exact ⟨⟨_, actions, hread, hactions, rfl, (hget "m").symm⟩, hsections, hfirst, herror, _, hlast⟩

end PddlOutline

import Mathlib.Data.List.Forall2
import PddlOutline.Proofs.Action
import PddlOutline.Reading.Domain
import PddlOutline.Reading.Problem

/-!
This module contains the locality of reading: two documents with the same names in their headers
and the same groups of parentheses at the places of their keywords are read alike, whatever stands
around these groups and wherever they stand.
-/

namespace PddlOutline
namespace Fragment

/--
Whether the group at `i` in `f` is the group at `j` in `g`. Parentheses that are never closed, and
so open no group, count as the same.
-/
def SameGroup (f g : Fragment) (i j : Nat) : Prop :=
  ∀ t, f.GroupAt i t ↔ g.GroupAt j t

/--
Whether a keyword that is absent from `f` is absent from `g`, and comes first with the same group
otherwise.
-/
def SameSection (f g : Fragment) (k : Keyword) : Prop :=
  Option.Rel (f.SameGroup g) (f.places k).head? (g.places k).head?

def SameActions (f g : Fragment) : Prop :=
  List.Forall₂ (f.SameGroup g) (f.places .action) (g.places .action)

theorem sameGroup_of_groupAt {f g : Fragment} {i j : Nat} {t : Forest} (hf : f.GroupAt i t)
    (hg : g.GroupAt j t) : f.SameGroup g i j := by
  intro u
  constructor
  . intro hu
    rwa [hu.unique hf]
  . intro hu
    rwa [hu.unique hg]

end Fragment

namespace Section

/--
Whether two searches for a section end alike: the keyword is absent, the same forest is found, or
the errors differ in nothing but the place they blame.
-/
inductive Alike (k : Keyword) :
    Except ReadError (Option Section) → Except ReadError (Option Section) → Prop
  | absent : Alike k (.ok none) (.ok none)
  | found {s s' : Section} {t : Forest} (hs : s.keyword = k) (hs' : s'.keyword = k)
    (h : s.Holds t) (h' : s'.Holds t) : Alike k (.ok (some s)) (.ok (some s'))
  | failed {e e' : ReadError} (h : e.unlocated = e'.unlocated) : Alike k (.error e) (.error e')

/--
Whether all that `read` takes from a section of the keyword is the forest in it.
-/
def IsLocal (k : Keyword) {α : Type} (read : Section → Except ReadError α) : Prop :=
  ∃ answer : Forest → Except ReadError α, ∀ s t, s.keyword = k → s.Holds t →
    (read s).mapError ReadError.unlocated = answer t

/--
Whether all that `read` takes from a section of the keyword are the words behind the head symbol and
the groups.
-/
def ReadsContents (k : Keyword) {α : Type} (read : Section → Except ReadError α) : Prop :=
  ∃ answer : List (List Char) → List Forest → Except ReadError α, ∀ s t, s.keyword = k →
    s.Holds t → (read s).mapError ReadError.unlocated = answer (k.form.words t) t.trees

variable {k : Keyword} {α : Type} {read : Section → Except ReadError α}

theorem readsContents_typedList (k : Keyword) : ReadsContents k typedList := by
  refine ⟨fun words _ => TypedList.ofTokens (words.map Token.ofChars), ?_⟩
  rintro s t rfl h
  exact h.typedList_eq

theorem readsContents_symbols (k : Keyword) :
    ReadsContents k fun s => do return (← s.tokens).map Token.symbol := by
  refine ⟨fun words _ => .ok (words.map String.ofList), ?_⟩
  rintro s t rfl h
  exact congrArg (Except.mapError ReadError.unlocated) h.symbols_eq

theorem readsContents_expressions (hk : k.form = .block) : ReadsContents k expressions := by
  refine ⟨fun _ trees => .ok ((Forest.conjuncts trees).map (String.ofList ·.enclosed)), ?_⟩
  rintro s t rfl h
  rw [h.expressions_eq, hk]
  rfl

theorem readsContents_parts (k : Keyword) : ReadsContents k parts := by
  refine ⟨fun _ trees => .ok (trees.map (String.ofList ·.enclosed)), ?_⟩
  rintro s t rfl h
  rw [h.parts_eq]
  rfl

theorem ReadsContents.isLocal (h : ReadsContents k read) : IsLocal k read := by
  obtain ⟨answer, hanswer⟩ := h
  exact ⟨fun t => answer (k.form.words t) t.trees, hanswer⟩

theorem isLocal_parameters (k : Keyword) :
    IsLocal k fun s => s.tokens >>= Parameters.ofTokens := by
  refine ⟨fun t => Parameters.ofTokens ((k.form.words t).map Token.ofChars), ?_⟩
  rintro s t rfl h
  exact h.parameters_eq

theorem isLocal_expressions (k : Keyword) : IsLocal k expressions := by
  refine ⟨fun t => .ok ((Forest.conjuncts (k.form.trees t)).map (String.ofList ·.enclosed)), ?_⟩
  rintro s t rfl h
  rw [h.expressions_eq]
  rfl

theorem IsLocal.eq (hread : IsLocal k read) {s s' : Section} {t : Forest} (hs : s.keyword = k)
    (hs' : s'.keyword = k) (h : s.Holds t) (h' : s'.Holds t) :
    (read s).mapError ReadError.unlocated = (read s').mapError ReadError.unlocated := by
  obtain ⟨answer, hanswer⟩ := hread
  rw [hanswer s t hs h, hanswer s' t hs' h']

theorem first_alike_of_sameSection (hk : k.form = .block) {f g : Fragment}
    (h : f.SameSection g k) : Alike k (first f k) (first g k) := by
  unfold Fragment.SameSection at h
  generalize hf : (f.places k).head? = i at h
  generalize hg : (g.places k).head? = j at h
  cases h with
  | none =>
    rw [first_of_nil (List.head?_eq_none_iff.mp hf), first_of_nil (List.head?_eq_none_iff.mp hg)]
    exact .absent
  | @some i j hsame =>
    by_cases hclosed : ∃ t, f.GroupAt i t
    . obtain ⟨t, ht⟩ := hclosed
      have ht' := (hsame t).mp ht
      rw [first_of_groupAt hk hf ht, first_of_groupAt hk hg ht']
      exact .found rfl rfl (holds_of_groupAt ht k) (holds_of_groupAt ht' k)
    . have hopen : ∀ t, ¬ f.GroupAt i t := not_exists.mp hclosed
      have hopen' : ∀ t, ¬ g.GroupAt j t := fun t ht => hopen t ((hsame t).mpr ht)
      rw [first_of_forall_not_groupAt hk hf hopen, first_of_forall_not_groupAt hk hg hopen']
      exact .failed rfl

/--
What leads up to the text in which a keyword occurs does not matter to the search for it.
-/
theorem first_alike_of_lead (hk : k.form = .value) {t u : Forest}
    {lead lead' rest : List Char} (ht : t.enclosed = lead ++ rest) (hu : u.enclosed = lead' ++ rest)
    (hlead : ∀ offset, Text.occurrences k.chars offset (lead ++ rest)
      = Text.occurrences k.chars (offset + Text.byteSize lead) rest)
    (hlead' : ∀ offset, Text.occurrences k.chars offset (lead' ++ rest)
      = Text.occurrences k.chars (offset + Text.byteSize lead') rest) (i j : Nat) :
    Alike k (first ⟨i, t.enclosed⟩ k) (first ⟨j, u.enclosed⟩ k) := by
  rcases Text.first_occurrence k.chars rest with hnone | ⟨front, c, behind, hrest, hstart, hhead⟩
  . rw [first_of_nil, first_of_nil]
    . exact .absent
    . simpa [hu, hlead'] using hnone _
    . simpa [ht, hlead] using hnone _
  have hi : ((Fragment.mk i t.enclosed).places k).head?
      = some (i + Text.byteSize (lead ++ front)) := by
    show (Text.occurrences k.chars i t.enclosed).head? = _
    rw [ht, hlead, hhead, Text.byteSize_append, Nat.add_assoc]
  have hj : ((Fragment.mk j u.enclosed).places k).head?
      = some (j + Text.byteSize (lead' ++ front)) := by
    show (Text.occurrences k.chars j u.enclosed).head? = _
    rw [hu, hlead', hhead, Text.byteSize_append, Nat.add_assoc]
  have hbehind : t.enclosed = (lead ++ front) ++ c :: behind := by
    rw [ht, hrest, List.append_assoc]
  have hother : ∀ {cs : List Char}, t.enclosed = (lead ++ front) ++ cs →
      u.enclosed = (lead' ++ front) ++ cs := by
    intro cs hcs
    rw [hu, hrest, List.append_assoc, List.append_cancel_left (hbehind.symm.trans hcs)]
  -- The first parenthesis behind the keyword closes or opens a group, the same one in both.
  obtain ⟨tag, gap, htag, hgap, ⟨after, hclosing⟩ | ⟨v, after, hopening⟩⟩ :=
    exists_value hk hbehind hstart
  . rw [first_value_of_closing htag hk hgap hclosing hi,
      first_value_of_closing htag hk hgap (hother hclosing) hj]
    exact .failed rfl
  . have hopening' := hother hopening
    rw [first_value_of_enclosed htag hk hgap hopening hi,
      first_value_of_enclosed htag hk hgap hopening' hj]
    split
    . have hgroup : (Fragment.mk i t.enclosed).GroupAt
          (i + Text.byteSize (lead ++ front ++ (tag ++ gap))) v :=
        ⟨lead ++ front ++ (tag ++ gap), after, by simp [hopening], rfl⟩
      have hgroup' : (Fragment.mk j u.enclosed).GroupAt
          (j + Text.byteSize (lead' ++ front ++ (tag ++ gap))) v :=
        ⟨lead' ++ front ++ (tag ++ gap), after, by simp [hopening'], rfl⟩
      exact .found rfl rfl (holds_of_groupAt hgroup k) (holds_of_groupAt hgroup' k)
    . exact .failed rfl

theorem first_alike_of_enclosed (hk : k.form = .value) (t : Forest) (i j : Nat) :
    Alike k (first ⟨i, t.enclosed⟩ k) (first ⟨j, t.enclosed⟩ k) := by
  have hlead : ∀ offset, Text.occurrences k.chars offset ([] ++ t.enclosed)
      = Text.occurrences k.chars (offset + Text.byteSize []) t.enclosed := fun _ => rfl
  exact first_alike_of_lead hk rfl rfl hlead hlead i j

theorem readD_congr {f g : Fragment} (h : Alike k (first f k) (first g k)) (hread : IsLocal k read)
    (absent : α) :
    (readD f k absent read).mapError ReadError.unlocated
      =
    (readD g k absent read).mapError ReadError.unlocated := by
  unfold readD
  generalize first f k = x at h
  generalize first g k = y at h
  cases h with
  | absent => rfl
  | found hs hs' h h' => exact hread.eq hs hs' h h'
  | failed h => exact congrArg Except.error h

theorem readD_congr_of_sameSection {f g : Fragment} (hk : k.form = .block)
    (h : f.SameSection g k) (hread : IsLocal k read) (absent : α) :
    (readD f k absent read).mapError ReadError.unlocated
      =
    (readD g k absent read).mapError ReadError.unlocated := by
  apply readD_congr
  . exact first_alike_of_sameSection hk h
  . exact hread

end Section

namespace Action

theorem needed_congr {k : Keyword} {α : Type} {read : Section → Except ReadError α}
    {f g : Fragment} (h : Section.Alike k (Section.first f k) (Section.first g k))
    (hread : Section.IsLocal k read) :
    (needed f k >>= read).mapError ReadError.unlocated
      =
    (needed g k >>= read).mapError ReadError.unlocated := by
  unfold needed
  generalize Section.first f k = x at h
  generalize Section.first g k = y at h
  cases h with
  | absent => rfl
  | found hs hs' h h' => exact hread.eq hs hs' h h'
  | failed h => exact congrArg Except.error h

theorem ofFragment_congr {body body' : Fragment} (hname : name? body.chars = name? body'.chars)
    (h : ∀ k, k.form = .value → Section.Alike k (Section.first body k) (Section.first body' k)) :
    (ofFragment body).mapError ReadError.unlocated
      =
    (ofFragment body').mapError ReadError.unlocated := by
  have hparameters : (parametersOf body).mapError ReadError.unlocated
      = (parametersOf body').mapError ReadError.unlocated :=
    needed_congr (h .parameters rfl) (Section.isLocal_parameters _)
  have hexpressions : ∀ k, k.form = .value → (expressionsOf body k).mapError ReadError.unlocated
      = (expressionsOf body' k).mapError ReadError.unlocated := by
    intro k hk
    apply needed_congr
    . exact h k hk
    . exact Section.isLocal_expressions k
  cases hfound : name? body.chars with
  | none =>
    rw [ofFragment_of_name_none body hfound, ofFragment_of_name_none body' (hname ▸ hfound)]
    rfl
  | some name =>
    rw [ofFragment_of_name body hfound, ofFragment_of_name body' (hname ▸ hfound)]
    simp only [Outcome.mapError_bind]
    rw [hparameters, hexpressions .precondition rfl, hexpressions .effect rfl]

theorem read_congr {f g : Fragment} {i j : Nat} (h : f.SameGroup g i j)
    (hi : i ∈ f.places .action) (hj : j ∈ g.places .action) :
    (read f i).mapError ReadError.unlocated = (read g j).mapError ReadError.unlocated := by
  by_cases hclosed : ∃ t, f.GroupAt i t
  . obtain ⟨t, ht⟩ := hclosed
    rw [read_of_groupAt ht, read_of_groupAt ((h t).mp ht)]
    apply ofFragment_congr
    . rfl
    . intro k hk
      exact Section.first_alike_of_enclosed hk t i j
  . have hopen : ∀ t, ¬ f.GroupAt i t := not_exists.mp hclosed
    have hopen' : ∀ t, ¬ g.GroupAt j t := fun t ht => hopen t ((h t).mpr ht)
    rw [read_of_forall_not_groupAt hi hopen, read_of_forall_not_groupAt hj hopen']
    rfl

end Action

namespace Domain

theorem readActions_congr {f g : Fragment} {is js : List Nat}
    (h : List.Forall₂ (f.SameGroup g) is js) (his : ∀ i ∈ is, i ∈ f.places .action)
    (hjs : ∀ j ∈ js, j ∈ g.places .action) :
    (readActions f is).outcome.mapError ReadError.unlocated
      =
    (readActions g js).outcome.mapError ReadError.unlocated := by
  induction h with
  | nil => rfl
  | @cons i j is js hgroup _ ih =>
    have haction := Action.read_congr hgroup (his i List.mem_cons_self) (hjs j List.mem_cons_self)
    have hactions := ih (fun k hk => his k (List.mem_cons_of_mem i hk))
      (fun k hk => hjs k (List.mem_cons_of_mem j hk))
    simp only [readActions, Traced.outcome_bind, Traced.outcome_ofExcept, Traced.outcome_emit,
      Traced.outcome_pure, Outcome.mapError_bind]
    rw [haction, hactions]

theorem readName_congr {cs ds : List Char} (h : Header.domainName? cs = Header.domainName? ds) :
    readName cs = readName ds := by
  rw [readName, readName, h]

theorem read_congr {d d' : Document}
    (hname : Header.domainName? d.chars = Header.domainName? d'.chars)
    (hsections : ∀ k ∈ [Keyword.requirements, .types, .constants, .predicates],
      d.fragment.SameSection d'.fragment k)
    (hactions : d.fragment.SameActions d'.fragment) :
    (read d).outcome.mapError ReadError.unlocated
      =
    (read d').outcome.mapError ReadError.unlocated := by
  have hrequirements : (readRequirements d.fragment).mapError ReadError.unlocated
      = (readRequirements d'.fragment).mapError ReadError.unlocated := by
    apply Section.readD_congr_of_sameSection rfl (hsections .requirements (by decide))
    exact (Section.readsContents_symbols _).isLocal
  have htypedList : ∀ k ∈ [Keyword.types, .constants],
      (readTypedList d.fragment k).mapError ReadError.unlocated
        = (readTypedList d'.fragment k).mapError ReadError.unlocated := by
    intro k hk
    have hform : ∀ k ∈ [Keyword.types, .constants], k.form = .block := by decide
    have hsub : ∀ k ∈ [Keyword.types, .constants],
        k ∈ [Keyword.requirements, .types, .constants, .predicates] := by decide
    apply Section.readD_congr_of_sameSection (hform k hk) (hsections k (hsub k hk))
    exact (Section.readsContents_typedList k).isLocal
  have hpredicates : (readPredicates d.fragment).mapError ReadError.unlocated
      = (readPredicates d'.fragment).mapError ReadError.unlocated := by
    apply Section.readD_congr_of_sameSection rfl (hsections .predicates (by decide))
    exact (Section.readsContents_parts _).isLocal
  have hreadActions := readActions_congr hactions (fun _ hi => hi) (fun _ hj => hj)
  unfold read
  simp only [Traced.outcome_bind, Traced.outcome_ofExcept, Traced.outcome_pure,
    Outcome.mapError_bind]
  rw [readName_congr hname, hrequirements, htypedList .types (by decide),
    htypedList .constants (by decide), hpredicates]
  unfold Fragment.places at hreadActions
  rw [hreadActions]

end Domain

namespace Problem

theorem readNames_congr {cs ds : List Char}
    (h : Header.problemNames? cs = Header.problemNames? ds) : readNames cs = readNames ds := by
  rw [readNames, readNames, h]

theorem read_congr {d d' : Document}
    (hname : Header.problemNames? d.chars = Header.problemNames? d'.chars)
    (hsections : ∀ k ∈ [Keyword.objects, .init, .goal], d.fragment.SameSection d'.fragment k) :
    (read d).outcome.mapError ReadError.unlocated
      =
    (read d').outcome.mapError ReadError.unlocated := by
  have hobjects : (readObjects d.fragment).mapError ReadError.unlocated
      = (readObjects d'.fragment).mapError ReadError.unlocated := by
    apply Section.readD_congr_of_sameSection rfl (hsections .objects (by decide))
    exact (Section.readsContents_typedList _).isLocal
  have hinit : (readExpressions d.fragment .init).mapError ReadError.unlocated
      = (readExpressions d'.fragment .init).mapError ReadError.unlocated := by
    apply Section.readD_congr_of_sameSection rfl (hsections .init (by decide))
    exact Section.isLocal_expressions _
  have hgoal : (readExpressions d.fragment .goal).mapError ReadError.unlocated
      = (readExpressions d'.fragment .goal).mapError ReadError.unlocated := by
    apply Section.readD_congr_of_sameSection rfl (hsections .goal (by decide))
    exact Section.isLocal_expressions _
  unfold read
  simp only [Traced.outcome_bind, Traced.outcome_ofExcept, Traced.outcome_pure,
    Outcome.mapError_bind]
  rw [readNames_congr hname, hobjects, hinit, hgoal]

end Problem

/--
What is read depends on nothing but the names in the header and the groups of the sections and
actions. The errors may blame different places, for the groups may stand at different places.
-/
theorem reading_local (d d' : Document) :
    (Header.domainName? d.chars = Header.domainName? d'.chars
      → (∀ k ∈ [Keyword.requirements, .types, .constants, .predicates],
        d.fragment.SameSection d'.fragment k)
      → d.fragment.SameActions d'.fragment
      → (Domain.read d).outcome.mapError ReadError.unlocated
          = (Domain.read d').outcome.mapError ReadError.unlocated)
    ∧ (Header.problemNames? d.chars = Header.problemNames? d'.chars
      → (∀ k ∈ [Keyword.objects, .init, .goal], d.fragment.SameSection d'.fragment k)
      → (Problem.read d).outcome.mapError ReadError.unlocated
          = (Problem.read d').outcome.mapError ReadError.unlocated) := by
  constructor
  . exact Domain.read_congr
  . exact Problem.read_congr

/--
The sections in another order and between other parentheses.
-/
theorem reading_local_rearranged : ∃ d d' : Document, d ≠ d'
    ∧ (Domain.read d).outcome.mapError ReadError.unlocated
      = (Domain.read d').outcome.mapError ReadError.unlocated
    ∧ (Problem.read d).outcome.mapError ReadError.unlocated
      = (Problem.read d').outcome.mapError ReadError.unlocated := by
  let types := Forest.prepend ":types a".toList (by decide) .nil
  let init := Forest.prepend ":init ".toList (by decide) (.group .nil .nil)
  let action := Forest.prepend ":action m :parameters ".toList (by decide)
    (.group .nil (.prepend " :precondition ".toList (by decide)
      (.group .nil (.prepend " :effect ".toList (by decide) (.group .nil .nil)))))
  let d : Document := ⟨types.enclosed ++ (init.enclosed ++ (action.enclosed ++ [])), none⟩
  let d' : Document := ⟨[')', '('] ++ (action.enclosed ++ (init.enclosed ++ (types.enclosed ++ []))),
    none⟩
  have hplaces : (∀ k ∈ [Keyword.requirements, .constants, .predicates, .objects, .goal],
        d.fragment.places k = [] ∧ d'.fragment.places k = [])
      ∧ d.fragment.places .types = [0] ∧ d'.fragment.places .types = [66]
      ∧ d.fragment.places .init = [10] ∧ d'.fragment.places .init = [56]
      ∧ d.fragment.places .action = [20] ∧ d'.fragment.places .action = [2] := by
    decide +kernel
  obtain ⟨habsent, htypes, htypes', hinit, hinit', haction, haction'⟩ := hplaces
  have hgroups : d.fragment.SameGroup d'.fragment 0 66 ∧ d.fragment.SameGroup d'.fragment 10 56
      ∧ d.fragment.SameGroup d'.fragment 20 2 := by
    refine ⟨?_, ?_, ?_⟩
    . apply Fragment.sameGroup_of_groupAt (t := types)
      . exact ⟨[], _, rfl, by decide +kernel⟩
      . exact ⟨[')', '('] ++ (action.enclosed ++ init.enclosed), [], rfl, by decide +kernel⟩
    . apply Fragment.sameGroup_of_groupAt (t := init)
      . exact ⟨types.enclosed, _, rfl, by decide +kernel⟩
      . exact ⟨[')', '('] ++ action.enclosed, types.enclosed, rfl, by decide +kernel⟩
    . apply Fragment.sameGroup_of_groupAt (t := action)
      . exact ⟨types.enclosed ++ init.enclosed, [], rfl, by decide +kernel⟩
      . exact ⟨[')', '('], _, rfl, by decide +kernel⟩
  have hsections : ∀ k ≠ .action, k.form = .block → d.fragment.SameSection d'.fragment k := by
    intro k haction hk
    unfold Fragment.SameSection
    by_cases htypes'' : k = .types
    . rw [htypes'', htypes, htypes']
      exact .some hgroups.1
    by_cases hinit'' : k = .init
    . rw [hinit'', hinit, hinit']
      exact .some hgroups.2.1
    . have habsent' : k ∈ [Keyword.requirements, .constants, .predicates, .objects, .goal] := by
        cases k <;> simp_all [Keyword.form]
      rw [(habsent k habsent').1, (habsent k habsent').2]
      exact .none
  refine ⟨d, d', by decide +kernel, ?_, ?_⟩
  . apply (reading_local d d').1
    . decide +kernel
    . intro k hk
      simp only [List.mem_cons, List.not_mem_nil, or_false] at hk
      rcases hk with rfl | rfl | rfl | rfl
      . exact hsections _ (by decide) rfl
      . exact hsections _ (by decide) rfl
      . exact hsections _ (by decide) rfl
      . exact hsections _ (by decide) rfl
    . rw [Fragment.SameActions, haction, haction']
      exact .cons hgroups.2.2 .nil
  . apply (reading_local d d').2
    . decide +kernel
    . intro k hk
      simp only [List.mem_cons, List.not_mem_nil, or_false] at hk
      rcases hk with rfl | rfl | rfl
      . exact hsections _ (by decide) rfl
      . exact hsections _ (by decide) rfl
      . exact hsections _ (by decide) rfl

end PddlOutline

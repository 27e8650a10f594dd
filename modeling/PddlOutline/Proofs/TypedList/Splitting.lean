import Mathlib.Data.List.Chain
import PddlOutline.Proofs.TokenLists

/-!
This module contains how a typed list is split into groups and written back. A list can be split if
every `-` has a type directly behind it, and then it is what its groups are written as. Of a `-` the
groups do not keep the place.
-/

namespace PddlOutline

namespace Token

def separator : Token :=
  ofString "-"

/--
What groups keep of a token: everything, but of a separator that it is one.
-/
def kept (t : Token) : Token :=
  if t.isSeparator then separator else t

/--
Whether every separator has something else directly behind it.
-/
def AreFollowed (ts : List Token) : Prop :=
  ∀ front t rest, ts = front ++ t :: rest → t.isSeparator →
    ∃ u ∈ rest.head?, ¬ u.isSeparator

/--
Whether no separator has another one directly behind it.
-/
def AreApart (ts : List Token) : Prop :=
  ts.IsChain fun t u => t.isSeparator → ¬ u.isSeparator

variable {t u : Token} {ts us : List Token}

theorem isSeparator_separator : separator.isSeparator := rfl

theorem kept_of_isSeparator (h : t.isSeparator) : t.kept = separator :=
  if_pos h

theorem kept_of_not_isSeparator (h : ¬ t.isSeparator) : t.kept = t :=
  if_neg h

theorem isSeparator_of_kept_eq (h : t.kept = separator) : t.isSeparator := by
  by_contra hsep
  rw [kept_of_not_isSeparator hsep] at h
  exact hsep (h ▸ isSeparator_separator)

theorem eq_of_kept_eq (h : t.kept = u) (hu : ¬ u.isSeparator) : t = u := by
  by_cases hsep : t.isSeparator
  . rw [kept_of_isSeparator hsep] at h
    exact absurd (h ▸ isSeparator_separator) hu
  . rwa [kept_of_not_isSeparator hsep] at h

theorem eq_of_map_kept_eq (h : ts.map kept = us) (hus : ∀ u ∈ us, ¬ u.isSeparator) : ts = us := by
  induction ts generalizing us with
  | nil => exact h
  | cons t ts ih =>
    subst h
    rw [List.map_cons, List.forall_mem_cons] at hus
    rw [List.map_cons, ← eq_of_kept_eq rfl hus.1, ← ih rfl hus.2]

theorem areFollowed_cons :
    AreFollowed (t :: ts) ↔
      (t.isSeparator → ∃ u ∈ ts.head?, ¬ u.isSeparator) ∧ AreFollowed ts :=
  Text.forall_split_cons

theorem areApart_cons :
    AreApart (t :: ts) ↔ (t.isSeparator → ∀ u ∈ ts.head?, ¬ u.isSeparator) ∧ AreApart ts := by
  rw [AreApart, List.isChain_cons]
  constructor
  . rintro ⟨ht, hts⟩
    exact ⟨fun hsep u hu => ht u hu hsep, hts⟩
  . rintro ⟨ht, hts⟩
    exact ⟨fun u hu hsep => ht hsep u hu, hts⟩

end Token

namespace TypedGroup

/--
The tokens of a group, with a `-` before the type.
-/
def toTokens (g : TypedGroup) : List Token :=
  match g.type with
  | some type => g.names ++ [.separator, type]
  | none => g.names

/--
Whether groups have the form in which lists are split: there is no `-` among their names and types,
and only the last group may lack a type, if it has a name.
-/
structure AreSplit (groups : List TypedGroup) : Prop where
  names : ∀ g ∈ groups, ∀ name ∈ g.names, ¬ name.isSeparator
  types : ∀ g ∈ groups, ∀ type ∈ g.type, ¬ type.isSeparator
  of_untyped : ∀ front g rest, groups = front ++ g :: rest → g.type = none →
    rest = [] ∧ g.names ≠ []

/--
Whether an error is about the first `-` directly behind another one, or, if there is none, about the
`-` at the end.
-/
inductive Refuses (ts : List Token) : ReadError → Prop
  | double (front : List Token) (s t : Token) (rest : List Token)
      (hts : ts = front ++ s :: t :: rest) (hs : s.isSeparator) (ht : t.isSeparator)
      (hfirst : Token.AreApart (front ++ [s])) :
      Refuses ts (.malformed .expectedType t.span)
  | last (front : List Token) (s : Token) (hts : ts = front ++ [s]) (hs : s.isSeparator)
      (hapart : Token.AreApart ts) :
      Refuses ts (.malformed .missingType s.span)

variable {ts names : List Token} {t s type : Token} {groups : List TypedGroup} {g : TypedGroup}
  {e : ReadError}

theorem areSplit_nil : AreSplit [] where
  names := by simp
  types := by simp
  of_untyped := by simp

theorem areSplit_cons :
    AreSplit (g :: groups) ↔
      ((∀ name ∈ g.names, ¬ name.isSeparator) ∧ (∀ type ∈ g.type, ¬ type.isSeparator)
        ∧ (g.type = none → groups = [] ∧ g.names ≠ [])) ∧ AreSplit groups := by
  constructor
  . rintro ⟨hnames, htypes, huntyped⟩
    rw [List.forall_mem_cons] at hnames htypes
    rw [Text.forall_split_cons] at huntyped
    exact ⟨⟨hnames.1, htypes.1, huntyped.1⟩, hnames.2, htypes.2, huntyped.2⟩
  . rintro ⟨⟨hnames, htypes, huntyped⟩, hgroups⟩
    exact ⟨List.forall_mem_cons.mpr ⟨hnames, hgroups.names⟩,
      List.forall_mem_cons.mpr ⟨htypes, hgroups.types⟩,
      Text.forall_split_cons.mpr ⟨huntyped, hgroups.of_untyped⟩⟩

/-! Which lists are split. -/

theorem exists_ok_iff : (∃ groups, ofTokens ts = .ok groups) ↔ Token.AreFollowed ts := by
  fun_induction ofTokens ts with
  | case1 => simp [Token.AreFollowed]
  | case2 t hsep => simp [Token.areFollowed_cons, hsep]
  | case3 t hsep type ts htype => simp [Token.areFollowed_cons, hsep, htype]
  | case4 t hsep type ts htype ih =>
    refine Outcome.exists_map_eq_ok.trans (ih.trans ?_)
    rw [Token.areFollowed_cons, Token.areFollowed_cons]
    simp [htype]
  | case5 t ts hsep ih =>
    refine Outcome.exists_map_eq_ok.trans (ih.trans ?_)
    rw [Token.areFollowed_cons]
    simp [hsep]

/--
What is refused behind a token that is in its place.
-/
theorem refuses_cons (h : t.isSeparator → ∃ u ∈ ts.head?, ¬ u.isSeparator) :
    Refuses (t :: ts) e ↔ Refuses ts e := by
  constructor
  . intro hrefuses
    cases hrefuses with
    | double front s u rest hts hs hu hfirst =>
      cases front with
      | nil =>
        obtain ⟨rfl, rfl⟩ := List.cons.inj hts
        obtain ⟨v, hv, hsep⟩ := h hs
        cases hv
        exact absurd hu hsep
      | cons v front =>
        exact .double front s u rest (List.cons.inj hts).2 hs hu (Token.areApart_cons.mp hfirst).2
    | last front s hts hs hapart =>
      cases front with
      | nil =>
        obtain ⟨rfl, rfl⟩ := List.cons.inj hts
        obtain ⟨v, hv, _⟩ := h hs
        cases hv
      | cons v front =>
        exact .last front s (List.cons.inj hts).2 hs (Token.areApart_cons.mp hapart).2
  . have hbehind : t.isSeparator → ∀ u ∈ ts.head?, ¬ u.isSeparator := by
      intro hsep u hu
      obtain ⟨v, hv, hv'⟩ := h hsep
      rwa [Option.mem_unique hu hv]
    intro hrefuses
    cases hrefuses with
    | double front s u rest hts hs hu hfirst =>
      have hhead : (front ++ [s]).head? = ts.head? := by
        rw [hts, List.head?_append, List.head?_append]
        rfl
      refine .double (t :: front) s u rest (by rw [hts]; rfl) hs hu ?_
      exact Token.areApart_cons.mpr ⟨hhead ▸ hbehind, hfirst⟩
    | last front s hts hs hapart =>
      exact .last (t :: front) s (by rw [hts]; rfl) hs (Token.areApart_cons.mpr ⟨hbehind, hapart⟩)

theorem ofTokens_eq_error_iff : ofTokens ts = .error e ↔ Refuses ts e := by
  fun_induction ofTokens ts with
  | case1 =>
    constructor
    . intro h
      cases h
    . intro h
      cases h with
      | double front s t rest hts => simp at hts
      | last front s hts => simp at hts
  | case2 s hs =>
    constructor
    . intro h
      cases h
      exact .last [] s rfl hs (List.isChain_singleton s)
    . intro h
      cases h with
      | double front s' t rest hts =>
        have := congrArg List.length hts
        simp at this
        omega
      | last front s' hts =>
        have hlast := congrArg List.getLast? hts
        rw [List.getLast?_singleton, List.getLast?_concat, Option.some.injEq] at hlast
        rw [hlast]
  | case3 s hs t ts ht =>
    constructor
    . intro h
      cases h
      exact .double [] s t ts rfl hs ht (List.isChain_singleton s)
    . intro h
      have hnot : ∀ us, us.head? = some t → ¬ Token.AreApart (s :: us) := by
        intro us hhead hapart
        exact (Token.areApart_cons.mp hapart).1 hs t hhead ht
      cases h with
      | double front s' t' rest hts hs' ht' hfirst =>
        cases front with
        | nil =>
          cases hts
          rfl
        | cons v front =>
          rw [List.cons_append, List.cons.injEq] at hts
          obtain ⟨rfl, htail⟩ := hts
          have hhead : (front ++ [s']).head? = some t := by
            rw [← List.head?_cons, htail, List.head?_append, List.head?_append]
            rfl
          exact absurd hfirst (hnot _ hhead)
      | last front s' hts hs' hapart => exact absurd hapart (hnot _ rfl)
  | case4 s hs type ts htype ih =>
    rw [Outcome.map_eq_error, ih, refuses_cons (by simp [htype]), refuses_cons (by simp [htype])]
  | case5 t ts ht ih => rw [Outcome.map_eq_error, ih, refuses_cons (by simp [ht])]

/-! What is written. -/

theorem toTokens_cons (name : Token) (names : List Token) (type : Option Token) :
    toTokens ⟨name :: names, type⟩ = name :: toTokens ⟨names, type⟩ := by
  cases type with
  | none => rfl
  | some type => rfl

theorem AreSplit.consName (h : AreSplit groups) (ht : ¬ t.isSeparator) :
    AreSplit (consName t groups) := by
  cases groups with
  | nil => exact areSplit_cons.mpr ⟨by simpa using ht, areSplit_nil⟩
  | cons g groups =>
    obtain ⟨⟨hnames, htypes, huntyped⟩, hgroups⟩ := areSplit_cons.mp h
    refine areSplit_cons.mpr ⟨⟨?_, htypes, ?_⟩, hgroups⟩
    . exact List.forall_mem_cons.mpr ⟨ht, hnames⟩
    . intro htype
      exact ⟨(huntyped htype).1, List.cons_ne_nil _ _⟩

theorem written_of_ofTokens (h : ofTokens ts = .ok groups) :
    AreSplit groups ∧ groups.flatMap toTokens = ts.map Token.kept := by
  fun_induction ofTokens ts generalizing groups with
  | case1 =>
    cases h
    exact ⟨areSplit_nil, rfl⟩
  | case2 => cases h
  | case3 => cases h
  | case4 s hs type ts htype ih =>
    obtain ⟨groups, hgroups, rfl⟩ := Outcome.map_eq_ok.mp h
    obtain ⟨hsplit, hwritten⟩ := ih hgroups
    refine ⟨areSplit_cons.mpr ⟨by simpa using htype, hsplit⟩, ?_⟩
    rw [List.flatMap_cons, hwritten, List.map_cons, List.map_cons, Token.kept_of_isSeparator hs,
      Token.kept_of_not_isSeparator htype]
    rfl
  | case5 t ts ht ih =>
    obtain ⟨groups, hgroups, rfl⟩ := Outcome.map_eq_ok.mp h
    obtain ⟨hsplit, hwritten⟩ := ih hgroups
    refine ⟨hsplit.consName ht, ?_⟩
    rw [flatMap_consName (toTokens_cons t) rfl, hwritten, List.map_cons,
      Token.kept_of_not_isSeparator ht]

theorem ofTokens_typed (hnames : ∀ name ∈ names, ¬ name.isSeparator) (hs : s.isSeparator)
    (htype : ¬ type.isSeparator) :
    ofTokens (names ++ s :: type :: ts) = (ofTokens ts).map (⟨names, some type⟩ :: ·) := by
  induction names with
  | nil => exact ofTokens_of_isSeparator hs htype ts
  | cons name names ih =>
    rw [List.forall_mem_cons] at hnames
    rw [List.cons_append, ofTokens_of_not_isSeparator hnames.1, ih hnames.2, Outcome.map_map]
    rfl

theorem ofTokens_untyped (hnames : ∀ name ∈ names, ¬ name.isSeparator) (hne : names ≠ []) :
    ofTokens names = .ok [⟨names, none⟩] := by
  induction names with
  | nil => exact absurd rfl hne
  | cons name names ih =>
    rw [List.forall_mem_cons] at hnames
    rw [ofTokens_of_not_isSeparator hnames.1]
    cases names with
    | nil => rfl
    | cons name' names =>
      rw [ih hnames.2 (List.cons_ne_nil _ _)]
      rfl

theorem ofTokens_of_written (h : AreSplit groups)
    (hts : groups.flatMap toTokens = ts.map Token.kept) : ofTokens ts = .ok groups := by
  induction groups generalizing ts with
  | nil =>
    rw [List.map_eq_nil_iff.mp hts.symm]
    rfl
  | cons g groups ih =>
    obtain ⟨⟨hnames, htypes, huntyped⟩, hgroups⟩ := areSplit_cons.mp h
    obtain ⟨names, type⟩ := g
    cases type with
    | none =>
      obtain ⟨rfl, hne⟩ := huntyped rfl
      rw [List.flatMap_singleton] at hts
      rw [Token.eq_of_map_kept_eq hts.symm hnames]
      exact ofTokens_untyped hnames hne
    | some type =>
      rw [List.flatMap_cons, toTokens, List.append_assoc] at hts
      obtain ⟨front, rest, rfl, hfront, hrest⟩ := List.map_eq_append_iff.mp hts.symm
      obtain ⟨s, rest, rfl, hs, hrest⟩ := List.map_eq_cons_iff.mp hrest
      obtain ⟨type', rest, rfl, htype, hrest⟩ := List.map_eq_cons_iff.mp hrest
      have hnot := htypes type rfl
      rw [Token.eq_of_map_kept_eq hfront hnames, Token.eq_of_kept_eq htype hnot,
        ofTokens_typed hnames (Token.isSeparator_of_kept_eq hs) hnot, ih hgroups hrest.symm]
      rfl

theorem ofTokens_eq_ok_iff :
    ofTokens ts = .ok groups ↔
      AreSplit groups ∧ groups.flatMap toTokens = ts.map Token.kept :=
  ⟨written_of_ofTokens, fun h => ofTokens_of_written h.1 h.2⟩

theorem AreSplit.map_kept (h : AreSplit groups) :
    (groups.flatMap toTokens).map Token.kept = groups.flatMap toTokens := by
  have hkept : ∀ t ∈ groups.flatMap toTokens, t.kept = t := by
    intro t ht
    obtain ⟨⟨names, type⟩, hg, ht⟩ := List.mem_flatMap.mp ht
    have hname : t ∈ names → t.kept = t :=
      fun ht => Token.kept_of_not_isSeparator (h.names _ hg t ht)
    cases type with
    | none => exact hname ht
    | some type =>
      cases List.mem_append.mp ht with
      | inl ht => exact hname ht
      | inr ht =>
        rcases List.mem_cons.mp ht with rfl | ht
        . rfl
        . rw [List.mem_singleton.mp ht]
          exact Token.kept_of_not_isSeparator (h.types _ hg type rfl)
  rw [List.map_congr_left hkept, List.map_id']

end TypedGroup

/--
A list is split iff every `-` has a type directly behind it. The groups are written as the list, and
groups in the form in which lists are split are read back from what they are written as. A list that
cannot be split is refused for the first `-` behind another one or for the last.
-/
theorem typed_groups_written (ts : List Token) :
    ((∃ groups, TypedGroup.ofTokens ts = .ok groups) ↔ Token.AreFollowed ts)
    ∧ (∀ groups, TypedGroup.ofTokens ts = .ok groups ↔
        TypedGroup.AreSplit groups ∧ groups.flatMap TypedGroup.toTokens = ts.map Token.kept)
    ∧ (∀ groups, TypedGroup.AreSplit groups →
        TypedGroup.ofTokens (groups.flatMap TypedGroup.toTokens) = .ok groups)
    ∧ ∀ e, TypedGroup.ofTokens ts = .error e ↔ TypedGroup.Refuses ts e :=
  ⟨TypedGroup.exists_ok_iff, fun _ => TypedGroup.ofTokens_eq_ok_iff,
    fun _ h => TypedGroup.ofTokens_of_written h h.map_kept.symm,
    fun _ => TypedGroup.ofTokens_eq_error_iff⟩

/--
A group without names, names without a type, and a list in which the last `-` is the second of two.
-/
theorem typed_groups_written_mixed :
    let tokens : List Token := [⟨"-", some ⟨0, 1⟩⟩, ⟨"t", some ⟨2, 3⟩⟩, ⟨"a", some ⟨4, 5⟩⟩,
      ⟨"-", some ⟨6, 7⟩⟩, ⟨"u", some ⟨8, 9⟩⟩, ⟨"b", some ⟨10, 11⟩⟩]
    let groups : List TypedGroup := [⟨[], some ⟨"t", some ⟨2, 3⟩⟩⟩,
      ⟨[⟨"a", some ⟨4, 5⟩⟩], some ⟨"u", some ⟨8, 9⟩⟩⟩, ⟨[⟨"b", some ⟨10, 11⟩⟩], none⟩]
    let refused := tokens ++ [⟨"-", some ⟨12, 13⟩⟩, ⟨"-", some ⟨14, 15⟩⟩]
    TypedGroup.ofTokens tokens = .ok groups
      ∧ Token.AreFollowed tokens
      ∧ TypedGroup.AreSplit groups
      ∧ groups.flatMap TypedGroup.toTokens = tokens.map Token.kept
      ∧ TypedGroup.ofTokens (groups.flatMap TypedGroup.toTokens) = .ok groups
      ∧ TypedGroup.Refuses refused (.malformed .expectedType (some ⟨14, 15⟩)) := by
  intro tokens groups refused
  have hok : TypedGroup.ofTokens tokens = .ok groups := by
    decide +kernel
  have herror : TypedGroup.ofTokens refused
      = .error (.malformed .expectedType (some ⟨14, 15⟩)) := by
    decide +kernel
  obtain ⟨hfollowed, hwritten, hread, _⟩ := typed_groups_written tokens
  obtain ⟨_, _, _, hrefuses⟩ := typed_groups_written refused
  obtain ⟨hsplit, htokens⟩ := (hwritten groups).mp hok
  exact ⟨hok, hfollowed.mp ⟨groups, hok⟩, hsplit, htokens, hread groups hsplit,
    (hrefuses _).mp herror⟩

end PddlOutline

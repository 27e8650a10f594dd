import PddlOutline.Proofs.Success
import PddlOutline.Proofs.TypedList.Labels

/-!
This module contains where the names in typed lists and in parameters come from. They are the words
of their section but `-`, each of them as it stands, so a group of parentheses in such a list is
torn where it has a blank and nowhere else.
-/

namespace PddlOutline
namespace Text

theorem exists_word_of_part {front part rest : List Char} (hne : part ≠ [])
    (hpart : ∀ c ∈ part, ¬ isBlank c) :
    ∃ word ∈ words (front ++ (part ++ rest)), part <:+: word := by
  generalize hcs : front ++ (part ++ rest) = cs
  induction cs using Fragment.runs.cases generalizing front with
  | nil => simp [hne] at hcs
  | blank c cs hc ih =>
    rw [words_blank hc]
    cases front with
    | nil =>
      obtain ⟨d, part, rfl⟩ := List.exists_cons_of_ne_nil hne
      rw [(List.cons.inj hcs).1] at hpart
      exact absurd hc (hpart c List.mem_cons_self)
    | cons d front => exact ih (List.cons.inj hcs).2
  | word word rest' hword hsolid hrest ih =>
    rw [words_word hword hsolid hrest]
    rcases List.append_eq_append_iff.mp hcs with ⟨inner, rfl, hinner⟩ | ⟨behind, rfl, hbehind⟩
    . rcases List.append_eq_append_iff.mp hinner with ⟨tail, rfl, _⟩ | ⟨tail, rfl, htail⟩
      . exact ⟨_, List.mem_cons_self, front, tail, by simp⟩
      . -- The part ends with the word, because a blank follows.
        cases tail with
        | nil => exact ⟨_, List.mem_cons_self, front, [], by simp⟩
        | cons d tail =>
          have hblank : isBlank d := hrest d (by simp [htail])
          exact absurd hblank (hpart d (by simp))
    . obtain ⟨word', hword', hinfix⟩ := ih hbehind.symm
      exact ⟨word', List.mem_cons_of_mem _ hword', hinfix⟩

end Text

theorem Forest.isPlain_chars {t : Forest} (h : t.trees = []) : Text.IsPlain t.chars := by
  induction t with
  | nil => simp [chars, Text.IsPlain]
  | plain c hc rest ih =>
    intro d hd
    cases List.mem_cons.mp hd with
    | inl hd => exact hd ▸ hc
    | inr hd => exact ih h d hd
  | group inside rest => cases h

namespace Parameters

theorem ofTokens.mem_go {tokens : List Token} {untyped : Nat} {separator : Option Token}
    {p : Parameters} (h : go untyped separator tokens = .ok p) (label : String) :
    label ∈ p.values ++ p.types ↔
      ∃ token ∈ tokens, ¬ token.isSeparator ∧ token.symbol = label := by
  fun_induction go untyped separator tokens generalizing p with
  | case1 => cases h
  | case2 =>
    cases h
    simp [empty]
  | case3 => cases h
  | case4 untyped separator token tokens hsep _ ih =>
    rw [ih h, List.exists_mem_cons_iff]
    simp [hsep]
  | case5 => cases h
  | case6 untyped separator token tokens hsep _ _ ih =>
    obtain ⟨p, hp, rfl⟩ := Outcome.map_eq_ok.mp h
    have := ih hp
    rw [List.exists_mem_cons_iff, ← this]
    simp [hsep, consValue, eq_comm]
  | case7 => cases h
  | case8 untyped separator token tokens hsep _ huntyped ih =>
    obtain ⟨p, hp, rfl⟩ := Outcome.map_eq_ok.mp h
    have := ih hp
    rw [List.exists_mem_cons_iff, ← this]
    simp [hsep, consTypes, huntyped, eq_comm]
    grind

end Parameters

namespace Section

/--
Whether `names` are the words of a section but `-`, each of them as it stands. Those in `implicit`
need not be among the words.
-/
structure Files (s : Section) (t : Forest) (implicit names : List String) : Prop where
  holds : s.Holds t
  mem_words : ∀ name ∈ names, name ∈ implicit ∨ name.toList ∈ s.keyword.form.words t
  mem_names : ∀ word ∈ s.keyword.form.words t, word ≠ ['-'] → String.ofList word ∈ names
  /-- Parentheses come from the groups in the section. -/
  isPlain : t.trees = [] → ∀ name ∈ names, Text.IsPlain name.toList
  /-- A group without blanks is not torn. -/
  exists_word : ∀ (front : List Char) (u : Forest) (rest : List Char),
    t.chars = front ++ (u.enclosed ++ rest) → (∀ c ∈ u.enclosed, ¬ Text.isBlank c) →
      ∃ word ∈ Text.words t.chars, u.enclosed <:+: word

variable {s : Section} {f : Fragment} {k : Keyword} {t : Forest} {tokens : List Token}
  {implicit names : List String}

theorem Holds.mem_tokens (h : s.Holds t) (htokens : s.tokens = .ok tokens) :
    (∀ token ∈ tokens, token.symbol.toList ∈ s.keyword.form.words t)
      ∧ ∀ word ∈ s.keyword.form.words t, ∃ token ∈ tokens, token.symbol = String.ofList word := by
  have hsymbols : tokens.map Token.symbol = (s.keyword.form.words t).map String.ofList := by
    have hread := h.symbols_eq
    rw [htokens] at hread
    exact Except.ok.inj hread
  constructor
  . intro token htoken
    have hmem : token.symbol ∈ (s.keyword.form.words t).map String.ofList := by
      rw [← hsymbols]
      exact List.mem_map_of_mem htoken
    obtain ⟨word, hword, hsymbol⟩ := List.mem_map.mp hmem
    rwa [← hsymbol, String.toList_ofList]
  . intro word hword
    have hmem : String.ofList word ∈ tokens.map Token.symbol := by
      rw [hsymbols]
      exact List.mem_map_of_mem hword
    exact List.mem_map.mp hmem

theorem Holds.files (h : s.Holds t) (htokens : s.tokens = .ok tokens)
    (himplicit : ∀ name ∈ implicit, Text.IsPlain name.toList)
    (hwords : ∀ name ∈ names, name ∈ implicit
      ∨ ∃ token ∈ tokens, ¬ token.isSeparator ∧ token.symbol = name)
    (hnames : ∀ token ∈ tokens, ¬ token.isSeparator → token.symbol ∈ names) :
    s.Files t implicit names := by
  obtain ⟨hsymbols, htokens⟩ := h.mem_tokens htokens
  have hmem : ∀ name ∈ names, name ∈ implicit ∨ name.toList ∈ s.keyword.form.words t := by
    intro name hname
    rcases hwords name hname with hname | ⟨token, htoken, _, rfl⟩
    . exact .inl hname
    . exact .inr (hsymbols token htoken)
  refine ⟨h, hmem, ?_, ?_, ?_⟩
  . intro word hword hne
    obtain ⟨token, htoken, hsymbol⟩ := htokens word hword
    rw [← hsymbol]
    apply hnames token htoken
    intro hsep
    rw [Token.isSeparator, hsymbol, beq_iff_eq, show "-" = String.ofList ['-'] from rfl,
      String.ofList_inj] at hsep
    exact hne hsep
  . intro htrees name hname
    cases hmem name hname with
    | inl hname => exact himplicit name hname
    | inr hword =>
      have hall : name.toList ∈ Text.words t.chars := by
        cases hform : s.keyword.form with
        | block =>
          rw [hform] at hword
          exact List.mem_of_mem_drop hword
        | value =>
          rw [hform] at hword
          exact hword
      obtain ⟨before, after, hchars, _⟩ := Text.exists_split_of_mem_words hall
      intro c hc
      apply Forest.isPlain_chars htrees
      rw [hchars]
      exact List.mem_append_right before (List.mem_append_left after hc)
  . intro front u rest hchars hsolid
    rw [hchars]
    exact Text.exists_word_of_part (List.cons_ne_nil _ _) hsolid

end Section

namespace Fragment

/--
Whether a typed list holds the words of the first section of a keyword, or nothing if there is no
such section.
-/
def FilesList (f : Fragment) (k : Keyword) (l : TypedList) : Prop :=
  Section.first f k = .ok none ∧ l = .empty
    ∨ ∃ s t, Section.first f k = .ok (some s) ∧ s.Files t [TypedList.defaultType] l.labels

/--
Whether the parameters of an action are the words of their section in the definition of the action.
-/
def FilesParameters (f : Fragment) (a : Action) : Prop :=
  ∃ offset body s t, offset ∈ f.places .action ∧ f.GroupAt offset body
    ∧ Action.name? body.enclosed = some a.name.toList
    ∧ Section.first ⟨offset, body.enclosed⟩ .parameters = .ok (some s)
    ∧ s.Files t [] (a.parameters.values ++ a.parameters.types)

theorem filesList_of_readD {f : Fragment} {k : Keyword} {l : TypedList}
    (h : Section.readD f k .empty Section.typedList = .ok l) : f.FilesList k l := by
  rcases Section.readD_eq_ok.mp h with ⟨hnone, hl⟩ | ⟨s, hs, hread⟩
  . exact .inl ⟨hnone, hl⟩
  obtain ⟨_, _, t, hholds⟩ := Section.exists_of_first_ok hs
  obtain ⟨tokens, htokens, hl⟩ := Outcome.bind_eq_ok.mp hread
  obtain ⟨hlabels, hnames⟩ := TypedList.mem_labels_of_ofTokens hl
  refine .inr ⟨s, t, hs, hholds.files htokens (by decide) ?_ hnames⟩
  intro name hname
  exact (hlabels name hname).imp_left List.mem_singleton.mpr

theorem filesParameters_of_isReadFrom {f : Fragment} {offset : Nat} {body : Forest} {a : Action}
    (ho : offset ∈ f.places .action) (ht : f.GroupAt offset body)
    (h : a.IsReadFrom ⟨offset, body.enclosed⟩) : f.FilesParameters a := by
  obtain ⟨s, hs, hread⟩ := h.parameters
  obtain ⟨_, _, t, hholds⟩ := Section.exists_of_first_ok hs
  obtain ⟨tokens, htokens, hp⟩ := Outcome.bind_eq_ok.mp hread
  have hmem := Parameters.ofTokens.mem_go hp
  refine ⟨offset, body, s, t, ho, ht, h.name, hs, hholds.files htokens (by simp) ?_ ?_⟩
  . intro name hname
    exact .inr ((hmem name).mp hname)
  . intro token htoken hsep
    exact (hmem token.symbol).mpr ⟨token, htoken, hsep, rfl⟩

end Fragment

/--
The names in the typed lists and parameters of a document are the words of their sections. They have
parentheses only if there are groups in the section.
-/
theorem names_of_read (d : Document) :
    (∀ domain, (Domain.read d).outcome = .ok domain →
      d.fragment.FilesList .types domain.types ∧ d.fragment.FilesList .constants domain.constants
        ∧ ∀ a ∈ domain.actions.values, d.fragment.FilesParameters a)
    ∧ ∀ problem, (Problem.read d).outcome = .ok problem →
      d.fragment.FilesList .objects problem.objects := by
  constructor
  . intro domain h
    have hread := Domain.isReadFrom_of_read h
    refine ⟨Fragment.filesList_of_readD hread.types,
      Fragment.filesList_of_readD hread.constants, ?_⟩
    intro a ha
    obtain ⟨entry, hentry, rfl⟩ := List.mem_map.mp ha
    obtain ⟨_, offset, t, ho, ht, haction⟩ := hread.exists_of_mem_actions hentry
    exact Fragment.filesParameters_of_isReadFrom ho ht haction
  . intro problem h
    exact Fragment.filesList_of_readD (Problem.isReadFrom_of_read h).objects

theorem names_of_read_groups :
    let d := Document.ofString ("(:types a - (t) (either u v)) (:constants (a b)) (:objects c)"
      ++ " (:action m :parameters (?x - (t)) :precondition () :effect ())")
    d.fragment.FilesList .types
        (.grouped ⟨[("(t)", ["a"]), ("object", ["(either", "u", "v)"])], by decide⟩)
      ∧ d.fragment.FilesParameters ⟨"m", ⟨["?x"], ["(t)"]⟩, [], []⟩
      ∧ d.fragment.FilesList .objects (.flat ["c"]) := by
  intro d
  have hdomain : (Domain.read d).outcome = .ok ⟨"unknown_domain", [],
      .grouped ⟨[("(t)", ["a"]), ("object", ["(either", "u", "v)"])], by decide⟩,
      .flat ["(a", "b)"], [], ⟨[("m", ⟨"m", ⟨["?x"], ["(t)"]⟩, [], []⟩)], by decide⟩, .empty⟩ := by
    decide +kernel
  have hproblem : (Problem.read d).outcome
      = .ok ⟨"unknown_problem", "unknown_domain", .flat ["c"], [], []⟩ := by
    decide +kernel
  obtain ⟨htypes, _, hparameters⟩ := (names_of_read d).1 _ hdomain
  exact ⟨htypes, hparameters _ List.mem_cons_self, (names_of_read d).2 _ hproblem⟩

/--
A group with a blank is torn into words, of which one is filed as a type and the others as names.
-/
theorem either_group_torn :
    (Domain.read (Document.ofString "(define (domain d) (:types a - (either t u)))")).outcome
        = .ok ⟨"d", [], .grouped ⟨[("(either", ["a"]), ("object", ["t", "u)"])], by decide⟩,
          .flat [], [], .empty, .empty⟩
      ∧ (Domain.read (Document.ofString ("(define (domain d) (:action m "
        ++ ":parameters (?x - (either ?y)) :precondition () :effect ()))"))).outcome
        = .ok ⟨"d", [], .flat [], .flat [], [],
          ⟨[("m", ⟨"m", ⟨["?x", "?y)"], ["(either"]⟩, [], []⟩)], by decide⟩, .empty⟩
      ∧ (Problem.read (Document.ofString
        "(define (problem p) (:domain d) (:objects a - (either t u)))")).outcome
        = .ok ⟨"p", "d", .grouped ⟨[("(either", ["a"]), ("object", ["t", "u)"])], by decide⟩,
          [], []⟩ := by
  refine ⟨?_, ?_, ?_⟩
  . decide +kernel
  . decide +kernel
  . decide +kernel

end PddlOutline

import PddlOutline.Header
import PddlOutline.Proofs.LetterCase.Text
import PddlOutline.Proofs.Outcome
import PddlOutline.Proofs.Text.Respacing

/-!
This module contains the forms of the headers of domains and problems, and that the names in a
document are those in the first header of the form. A header that is broken off does not hide a
header behind it, and it does not matter for the header of a problem which blanks there are.
-/

namespace PddlOutline
namespace Header

/--
A word in letters of either case.
-/
structure Spelling (word : String) where
  chars : List Char
  sameLetters : Text.sameLetters word.toList chars

/--
Blanks, or nothing.
-/
structure Space where
  chars : List Char
  isBlank : ∀ c ∈ chars, Text.isBlank c

/--
A name and the blanks in front of it.
-/
structure Named where
  gap : List Char
  name : List Char
  isGap : Text.IsGap gap
  ne_nil : name ≠ []
  isName : ∀ c ∈ name, ¬ Text.isBlank c ∧ c ≠ ')'

namespace Named

def chars (n : Named) : List Char :=
  n.gap ++ n.name

end Named

/--
Whether a name does not go on with what follows it.
-/
def EndsName (rest : List Char) : Prop :=
  ∀ c ∈ rest.head?, Text.isBlank c ∨ c = ')'

/--
The header of a domain up to the end of its name.
-/
structure DomainForm where
  tag : Spelling "(domain"
  domain : Named

/--
The header of a problem up to the parenthesis behind the name of its domain.
-/
structure ProblemForm where
  opening : Spelling "(define"
  gap : Space
  tag : Spelling "(problem"
  problem : Named
  between : Space
  link : Spelling "(:domain"
  domain : Named

def DomainForm.chars (form : DomainForm) : List Char :=
  form.tag.chars ++ form.domain.chars

def ProblemForm.chars (form : ProblemForm) : List Char :=
  form.opening.chars ++ (form.gap.chars ++ (form.tag.chars ++ (form.problem.chars
    ++ ')' :: (form.between.chars ++ (form.link.chars ++ (form.domain.chars ++ [')']))))))

def DomainForm.Starts (cs : List Char) : Prop :=
  ∃ form : DomainForm, form.chars <+: cs

def ProblemForm.Starts (cs : List Char) : Prop :=
  ∃ form : ProblemForm, form.chars <+: cs

/-! The parts of a header. -/

section Parts

variable {word : String} {cs rest name : List Char}

theorem isNameChar_iff {c : Char} : isNameChar c ↔ ¬ Text.isBlank c ∧ c ≠ ')' := by
  simp [isNameChar]

theorem Spelling.isSolid (s : Spelling word) (hword : ∀ w ∈ word.toList, ¬ Text.isBlank w) :
    ∀ c ∈ s.chars, ¬ Text.isBlank c := by
  intro c hc
  have hletters : Text.lower word.toList = Text.lower s.chars := beq_iff_eq.mp s.sameLetters
  have hletter : c.toLower ∈ Text.lower word.toList := by
    rw [hletters]
    exact List.mem_map_of_mem hc
  obtain ⟨w, hw, hsame⟩ := List.mem_map.mp hletter
  rw [← Text.isBlank_toLower, ← hsame, Text.isBlank_toLower]
  exact hword w hw

theorem Spelling.ne_nil (s : Spelling word) (hword : word ≠ "") : s.chars ≠ [] := by
  have hlength : word.toList.length = s.chars.length := Text.length_eq_of_sameLetters s.sameLetters
  intro hnil
  rw [hnil, List.length_nil, List.length_eq_zero_iff, String.toList_eq_nil_iff] at hlength
  exact hword hlength

theorem word?_eq_some_iff :
    word? word cs = some rest ↔ ∃ s : Spelling word, cs = s.chars ++ rest := by
  rw [word?, Option.ite_none_right_eq_some, Option.some.injEq, Text.startsWith_iff]
  constructor
  . rintro ⟨⟨tag, behind, rfl, htag⟩, hrest⟩
    have hlength : word.length = tag.length := Text.length_eq_of_sameLetters htag
    rw [hlength, List.drop_left] at hrest
    exact ⟨⟨tag, htag⟩, by rw [hrest]⟩
  . rintro ⟨⟨tag, htag⟩, rfl⟩
    have hlength : word.length = tag.length := Text.length_eq_of_sameLetters htag
    exact ⟨⟨tag, rest, rfl, htag⟩, by rw [hlength, List.drop_left]⟩

theorem word?_of_isBlank (hword : ∀ w ∈ word.toList, ¬ Text.isBlank w) (hne : word ≠ "")
    {c : Char} (hc : Text.isBlank c) : word? word (c :: cs) = none := by
  rw [Option.eq_none_iff_forall_not_mem]
  intro rest hrest
  obtain ⟨s, hs⟩ := word?_eq_some_iff.mp hrest
  obtain ⟨d, tag, htag⟩ := List.exists_cons_of_ne_nil (s.ne_nil hne)
  rw [htag] at hs
  obtain ⟨rfl, _⟩ := List.cons.inj hs
  exact s.isSolid hword c (by rw [htag]; exact List.mem_cons_self) hc

theorem word?_closing_eq_some_iff : word? ")" cs = some rest ↔ cs = ')' :: rest := by
  rw [word?_eq_some_iff]
  constructor
  . rintro ⟨s, rfl⟩
    have hletters : Text.lower [')'] = Text.lower s.chars := beq_iff_eq.mp s.sameLetters
    rw [(Text.lower_eq_singleton_iff (by decide)).mp hletters.symm]
    rfl
  . rintro rfl
    exact ⟨⟨[')'], by decide⟩, rfl⟩

theorem trimStart_eq_iff :
    Text.trimStart cs = rest ↔
      (∃ gap : Space, cs = gap.chars ++ rest) ∧ ∀ c ∈ rest.head?, ¬ Text.isBlank c := by
  constructor
  . intro h
    obtain ⟨hcs, hgap, hrest⟩ := Text.span_iff.mp ⟨rfl, h⟩
    exact ⟨⟨⟨_, hgap⟩, hcs⟩, hrest⟩
  . rintro ⟨⟨gap, hcs⟩, hrest⟩
    exact (Text.span_iff.mpr ⟨hcs, gap.isBlank, hrest⟩).2

theorem word?_trimStart_eq_some_iff (hword : ∀ w ∈ word.toList, ¬ Text.isBlank w)
    (hne : word ≠ "") :
    word? word (Text.trimStart cs) = some rest ↔
      ∃ gap : Space, ∃ s : Spelling word, cs = gap.chars ++ (s.chars ++ rest) := by
  rw [word?_eq_some_iff]
  constructor
  . rintro ⟨s, hs⟩
    obtain ⟨⟨gap, hcs⟩, _⟩ := trimStart_eq_iff.mp hs
    exact ⟨gap, s, hcs⟩
  . rintro ⟨gap, s, hcs⟩
    refine ⟨s, trimStart_eq_iff.mpr ⟨⟨gap, hcs⟩, ?_⟩⟩
    obtain ⟨c, tag, hs⟩ := List.exists_cons_of_ne_nil (s.ne_nil hne)
    rw [hs, List.cons_append, List.head?_cons]
    rintro d ⟨⟩
    exact s.isSolid hword c (by rw [hs]; exact List.mem_cons_self)

theorem blanks?_eq_some_iff :
    blanks? cs = some rest ↔
      (∃ gap, Text.IsGap gap ∧ cs = gap ++ rest) ∧ ∀ c ∈ rest.head?, ¬ Text.isBlank c := by
  cases cs with
  | nil =>
    constructor
    . intro h
      cases h
    . rintro ⟨⟨gap, hgap, hcs⟩, _⟩
      exact absurd (List.append_eq_nil_iff.mp hcs.symm).1 hgap.1
  | cons c cs =>
    rw [blanks?, Option.ite_none_right_eq_some, Option.some.injEq, trimStart_eq_iff]
    constructor
    . rintro ⟨hc, ⟨gap, rfl⟩, hrest⟩
      refine ⟨⟨c :: gap.chars, ⟨List.cons_ne_nil _ _, ?_⟩, rfl⟩, hrest⟩
      exact List.forall_mem_cons.mpr ⟨hc, gap.isBlank⟩
    . rintro ⟨⟨gap, ⟨hne, hgap⟩, hcs⟩, hrest⟩
      obtain ⟨d, gap, rfl⟩ := List.exists_cons_of_ne_nil hne
      obtain ⟨rfl, rfl⟩ := List.cons.inj hcs
      rw [List.forall_mem_cons] at hgap
      exact ⟨hgap.1, ⟨⟨gap, hgap.2⟩, rfl⟩, hrest⟩

theorem name?_eq_some_iff :
    name? cs = some (name, rest) ↔
      cs = name ++ rest ∧ name ≠ [] ∧ (∀ c ∈ name, ¬ Text.isBlank c ∧ c ≠ ')') ∧ EndsName rest := by
  have hname : name? cs = some (name, rest) ↔
      name ≠ [] ∧ cs.takeWhile isNameChar = name ∧ cs.dropWhile isNameChar = rest := by
    rw [name?]
    split
    next hnil => grind
    next hne => grind
  rw [hname, Text.span_iff]
  simp only [isNameChar_iff, EndsName, not_and_or, not_not]
  tauto

theorem exists_blanks?_name?_iff :
    (∃ between, blanks? cs = some between ∧ name? between = some (name, rest)) ↔
      ∃ n : Named, n.name = name ∧ cs = n.chars ++ rest ∧ EndsName rest := by
  constructor
  . rintro ⟨between, hblanks, hname⟩
    obtain ⟨⟨gap, hgap, rfl⟩, _⟩ := blanks?_eq_some_iff.mp hblanks
    obtain ⟨rfl, hne, hchars, hrest⟩ := name?_eq_some_iff.mp hname
    exact ⟨⟨gap, name, hgap, hne, hchars⟩, rfl, by simp [Named.chars], hrest⟩
  . rintro ⟨n, rfl, rfl, hrest⟩
    refine ⟨n.name ++ rest, blanks?_eq_some_iff.mpr ⟨⟨n.gap, n.isGap, ?_⟩, ?_⟩,
      name?_eq_some_iff.mpr ⟨rfl, n.ne_nil, n.isName, hrest⟩⟩
    . rw [Named.chars, List.append_assoc]
    . obtain ⟨c, name, hname⟩ := List.exists_cons_of_ne_nil n.ne_nil
      rw [hname, List.cons_append, List.head?_cons]
      rintro d ⟨⟩
      exact (n.isName c (by rw [hname]; exact List.mem_cons_self)).1

end Parts

/-! What is found at a place of a text. -/

section Place

variable {cs : List Char}

theorem domainAt?_eq_some_iff {domain : List Char} :
    domainAt? cs = some domain ↔
      ∃ form : DomainForm, ∃ rest, form.domain.name = domain ∧ cs = form.chars ++ rest
        ∧ EndsName rest := by
  have hsplit : domainAt? cs = some domain ↔
      ∃ behind, word? "(domain" cs = some behind ∧ ∃ rest, ∃ between,
        blanks? behind = some between ∧ name? between = some (domain, rest) := by
    simp only [domainAt?, Option.bind_eq_bind, Option.bind_eq_some_iff, Prod.exists]
    grind
  simp only [hsplit, word?_eq_some_iff, exists_blanks?_name?_iff]
  constructor
  . rintro ⟨behind, ⟨tag, rfl⟩, rest, n, rfl, rfl, hrest⟩
    exact ⟨⟨tag, n⟩, rest, rfl, by simp [DomainForm.chars], hrest⟩
  . rintro ⟨⟨tag, n⟩, rest, rfl, rfl, hrest⟩
    exact ⟨n.chars ++ rest, ⟨tag, by simp [DomainForm.chars]⟩, rest, n, rfl, rfl, hrest⟩

theorem problemAt?_eq_some_iff {problem domain : List Char} :
    problemAt? cs = some (problem, domain) ↔
      ∃ form : ProblemForm, form.problem.name = problem ∧ form.domain.name = domain
        ∧ form.chars <+: cs := by
  simp only [problemAt?, Option.bind_eq_bind, Option.bind_eq_some_iff, Prod.exists]
  constructor
  . rintro ⟨_, hopening, _, htag, _, hblanks, _, _, hname, _, hclosing, _, hlink, _, hblanks', _, _,
      hname', rest, hclosing', ⟨⟩⟩
    obtain ⟨opening, rfl⟩ := word?_eq_some_iff.mp hopening
    obtain ⟨gap, tag, rfl⟩ := (word?_trimStart_eq_some_iff (by decide) (by decide)).mp htag
    obtain ⟨problem, rfl, rfl, _⟩ := exists_blanks?_name?_iff.mp ⟨_, hblanks, hname⟩
    obtain rfl := word?_closing_eq_some_iff.mp hclosing
    obtain ⟨between, link, rfl⟩ := (word?_trimStart_eq_some_iff (by decide) (by decide)).mp hlink
    obtain ⟨domain, rfl, rfl, _⟩ := exists_blanks?_name?_iff.mp ⟨_, hblanks', hname'⟩
    obtain rfl := word?_closing_eq_some_iff.mp hclosing'
    refine ⟨⟨opening, gap, tag, problem, between, link, domain⟩, rfl, rfl, rest, ?_⟩
    simp [ProblemForm.chars]
  . rintro ⟨⟨opening, gap, tag, problem, between, link, domain⟩, rfl, rfl, rest, rfl⟩
    have hclosing : ∀ rest, EndsName (')' :: rest) := by
      intro rest c hc
      exact .inr (Option.some.inj hc).symm
    obtain ⟨_, hblanks, hname⟩ := exists_blanks?_name?_iff.mpr ⟨problem, rfl, rfl, hclosing _⟩
    obtain ⟨_, hblanks', hname'⟩ := exists_blanks?_name?_iff.mpr ⟨domain, rfl, rfl, hclosing rest⟩
    refine ⟨_, word?_eq_some_iff.mpr ⟨opening, ?_⟩, _,
      (word?_trimStart_eq_some_iff (by decide) (by decide)).mpr ⟨gap, tag, rfl⟩, _, hblanks, _, _,
      hname, _, word?_closing_eq_some_iff.mpr rfl, _,
      (word?_trimStart_eq_some_iff (by decide) (by decide)).mpr ⟨between, link, rfl⟩, _, hblanks',
      _, _, hname', rest, word?_closing_eq_some_iff.mpr rfl, rfl⟩
    simp [ProblemForm.chars]

theorem problemAt?_ne_none_iff : problemAt? cs ≠ none ↔ ProblemForm.Starts cs := by
  rw [Option.ne_none_iff_exists']
  constructor
  . rintro ⟨⟨problem, domain⟩, h⟩
    obtain ⟨form, _, _, hform⟩ := problemAt?_eq_some_iff.mp h
    exact ⟨form, hform⟩
  . rintro ⟨form, hform⟩
    exact ⟨_, problemAt?_eq_some_iff.mpr ⟨form, rfl, rfl, hform⟩⟩

theorem domainAt?_ne_none_iff : domainAt? cs ≠ none ↔ DomainForm.Starts cs := by
  rw [Option.ne_none_iff_exists']
  constructor
  . rintro ⟨domain, h⟩
    obtain ⟨form, rest, _, rfl, _⟩ := domainAt?_eq_some_iff.mp h
    exact ⟨form, List.prefix_append _ _⟩
  . rintro ⟨⟨tag, ⟨gap, name, hgap, hne, hname⟩⟩, rest, rfl⟩
    -- The name may go on behind the form.
    obtain ⟨hrest, hmore, hend⟩ := Text.span_iff.mp ⟨Eq.refl (rest.takeWhile isNameChar), rfl⟩
    have hlonger : ∀ c ∈ name ++ rest.takeWhile isNameChar, ¬ Text.isBlank c ∧ c ≠ ')' := by
      rw [List.forall_mem_append]
      exact ⟨hname, fun c hc => isNameChar_iff.mp (hmore c hc)⟩
    refine ⟨_, domainAt?_eq_some_iff.mpr
      ⟨⟨tag, ⟨gap, _, hgap, List.append_ne_nil_of_left_ne_nil hne _, hlonger⟩⟩,
        rest.dropWhile isNameChar, rfl, ?_, ?_⟩⟩
    . simp [DomainForm.chars, Named.chars]
    . simpa only [isNameChar_iff, EndsName, not_and_or, not_not] using hend

theorem firstMatch_domainAt?_eq_none_iff :
    Text.firstMatch domainAt? cs = none ↔ ∀ form : DomainForm, ¬ form.chars <:+: cs := by
  rw [Text.firstMatch_eq_none_iff]
  constructor
  . intro h form hform
    obtain ⟨behind, hbehind, hsuffix⟩ := List.infix_iff_prefix_suffix.mp hform
    exact domainAt?_ne_none_iff.mpr ⟨form, hbehind⟩ (h behind hsuffix)
  . intro h behind hsuffix
    by_contra hmatch
    obtain ⟨form, hbehind⟩ := domainAt?_ne_none_iff.mp hmatch
    exact h form (List.infix_iff_prefix_suffix.mpr ⟨behind, hbehind, hsuffix⟩)

theorem firstMatch_domainAt?_eq_some_iff {domain : List Char} :
    Text.firstMatch domainAt? cs = some domain ↔
      ∃ form : DomainForm, ∃ rest, form.domain.name = domain ∧ EndsName rest
        ∧ Text.IsFirst DomainForm.Starts cs (form.chars ++ rest) := by
  have hstarts : (domainAt? · ≠ none) = DomainForm.Starts :=
    funext fun _ => propext domainAt?_ne_none_iff
  rw [Text.firstMatch_eq_some_iff, hstarts]
  constructor
  . rintro ⟨_, hdomain, hfirst⟩
    obtain ⟨form, rest, hname, rfl, hrest⟩ := domainAt?_eq_some_iff.mp hdomain
    exact ⟨form, rest, hname, hrest, hfirst⟩
  . rintro ⟨form, rest, hname, hrest, hfirst⟩
    exact ⟨_, domainAt?_eq_some_iff.mpr ⟨form, rest, hname, rfl, hrest⟩, hfirst⟩

end Place

/--
What passes through the parts of a header passes through the header: names become names by `w` if
texts become texts by `v`.
-/
theorem problemAt?_commutes {v w : List Char → List Char}
    (hword : ∀ word ∈ ["(define", "(problem", ")", "(:domain"],
      ∀ cs, word? word (v cs) = (word? word cs).map v)
    (htrim : ∀ cs, Text.trimStart (v cs) = v (Text.trimStart cs))
    (hblanks : ∀ cs, blanks? (v cs) = (blanks? cs).map v)
    (hname : ∀ cs, name? (v cs) = (name? cs).map (Prod.map w v)) (cs : List Char) :
    problemAt? (v cs) = (problemAt? cs).map (Prod.map w w) := by
  unfold problemAt?
  rw [hword _ (by simp)]
  apply Outcome.option_map_bind_eq
  intro cs
  rw [htrim, hword _ (by simp)]
  apply Outcome.option_map_bind_eq
  intro cs
  rw [hblanks]
  apply Outcome.option_map_bind_eq
  intro cs
  rw [hname]
  apply Outcome.option_map_bind_eq
  rintro ⟨problem, cs⟩
  simp only [Prod.map_apply]
  rw [hword _ (by simp)]
  apply Outcome.option_map_bind_eq
  intro cs
  rw [htrim, hword _ (by simp)]
  apply Outcome.option_map_bind_eq
  intro cs
  rw [hblanks]
  apply Outcome.option_map_bind_eq
  intro cs
  rw [hname]
  apply Outcome.option_map_bind_eq
  rintro ⟨domain, cs⟩
  simp only [Prod.map_apply]
  rw [hword _ (by simp)]
  exact Outcome.option_map_bind_eq fun _ => rfl

/-! It makes no difference whether the blanks of a text are collapsed. -/

section Collapse

open Text (collapse isBlank)

variable {word : String}

theorem word?_collapse (hword : ∀ w ∈ word.toList, ¬ isBlank w) (cs : List Char) :
    word? word (collapse isBlank cs) = (word? word cs).map (collapse isBlank) := by
  apply Option.ext
  intro rest
  simp only [Option.map_eq_some_iff, word?_eq_some_iff]
  constructor
  . rintro ⟨s, hs⟩
    obtain ⟨behind, hcs, hrest⟩ := (Text.collapse_eq_append_iff (s.isSolid hword)).mp hs
    exact ⟨behind, ⟨s, hcs⟩, hrest⟩
  . rintro ⟨behind, ⟨s, hcs⟩, hrest⟩
    exact ⟨s, (Text.collapse_eq_append_iff (s.isSolid hword)).mpr ⟨behind, hcs, hrest⟩⟩

theorem trimStart_collapse (cs : List Char) :
    Text.trimStart (collapse isBlank cs) = collapse isBlank (Text.trimStart cs) := by
  induction cs with
  | nil => rfl
  | cons c cs ih =>
    by_cases hc : isBlank c
    . rw [Text.trimStart, Text.trimStart, List.dropWhile_cons_of_pos hc, Text.collapse_blank hc]
      split
      next => exact ih
      next =>
        rw [List.dropWhile_cons_of_pos (by decide)]
        exact ih
    . rw [Text.collapse_solid hc, Text.trimStart, Text.trimStart, List.dropWhile_cons_of_neg hc,
        List.dropWhile_cons_of_neg hc, Text.collapse_solid hc]

theorem blanks?_collapse (cs : List Char) :
    blanks? (collapse isBlank cs) = (blanks? cs).map (collapse isBlank) := by
  cases cs with
  | nil => rfl
  | cons c cs =>
    by_cases hc : isBlank c
    . obtain ⟨rest, hrest⟩ := Text.exists_collapse_blank hc cs
      have htrim := trimStart_collapse (c :: cs)
      rw [hrest, Text.trimStart, Text.trimStart, List.dropWhile_cons_of_pos (by decide),
        List.dropWhile_cons_of_pos hc] at htrim
      rw [hrest, blanks?, blanks?, if_pos (by decide), if_pos hc, Option.map_some]
      exact congrArg some htrim
    . rw [Text.collapse_solid hc, blanks?, blanks?, if_neg hc, if_neg hc, Option.map_none]

theorem name?_collapse (cs : List Char) :
    name? (collapse isBlank cs) = (name? cs).map (Prod.map id (collapse isBlank)) := by
  have hname : (collapse isBlank cs).takeWhile isNameChar = cs.takeWhile isNameChar
      ∧ (collapse isBlank cs).dropWhile isNameChar
        = collapse isBlank (cs.dropWhile isNameChar) := by
    induction cs with
    | nil => exact ⟨rfl, rfl⟩
    | cons c cs ih =>
      by_cases hc : isBlank c
      . obtain ⟨rest, hrest⟩ := Text.exists_collapse_blank hc cs
        have hend : ¬ isNameChar c := by simp [isNameChar, hc]
        rw [List.takeWhile_cons_of_neg hend, List.dropWhile_cons_of_neg hend, hrest]
        exact ⟨List.takeWhile_cons_of_neg (by decide), List.dropWhile_cons_of_neg (by decide)⟩
      . rw [Text.collapse_solid hc]
        by_cases hchar : isNameChar c
        . rw [List.takeWhile_cons_of_pos hchar, List.takeWhile_cons_of_pos hchar, ih.1,
            List.dropWhile_cons_of_pos hchar, List.dropWhile_cons_of_pos hchar, ih.2]
          exact ⟨rfl, rfl⟩
        . rw [List.takeWhile_cons_of_neg hchar, List.takeWhile_cons_of_neg hchar,
            List.dropWhile_cons_of_neg hchar, List.dropWhile_cons_of_neg hchar,
            Text.collapse_solid hc]
          exact ⟨rfl, rfl⟩
  rw [name?, name?, hname.1, hname.2]
  cases cs.takeWhile isNameChar with
  | nil => rfl
  | cons c name => rfl

theorem problemAt?_collapse (cs : List Char) :
    problemAt? (collapse isBlank cs) = problemAt? cs := by
  have hcollapse := problemAt?_commutes (v := collapse isBlank) (w := id)
    (fun word hword => word?_collapse (by revert word; decide)) trimStart_collapse blanks?_collapse
    name?_collapse cs
  rwa [Prod.map_id, Option.map_id, id] at hcollapse

theorem problemNames?_eq_firstMatch (cs : List Char) :
    problemNames? cs = Text.firstMatch problemAt? cs := by
  apply Text.firstMatch_collapse problemAt?_collapse
  intro c cs hc
  rw [problemAt?, word?_of_isBlank (by decide) (by decide) hc]
  rfl

end Collapse

/--
The names in a document are those in the first header of the form, and it does not matter which
blanks there are.
-/
theorem problemNames?_leftmost (cs : List Char) :
    (∀ problem domain, problemNames? cs = some (problem, domain) ↔
      ∃ form : ProblemForm, ∃ rest, form.problem.name = problem ∧ form.domain.name = domain
        ∧ Text.IsFirst ProblemForm.Starts cs (form.chars ++ rest)) ∧
    problemNames? cs = Text.firstMatch problemAt? cs ∧
    ∀ cs', Text.IsRespaced cs cs' → problemNames? cs' = problemNames? cs := by
  refine ⟨?_, problemNames?_eq_firstMatch cs, ?_⟩
  . intro problem domain
    have hstarts : (problemAt? · ≠ none) = ProblemForm.Starts :=
      funext fun _ => propext problemAt?_ne_none_iff
    rw [problemNames?_eq_firstMatch, Text.firstMatch_eq_some_iff, hstarts]
    constructor
    . rintro ⟨behind, hbehind, hfirst⟩
      obtain ⟨form, hproblem, hdomain, rest, rfl⟩ := problemAt?_eq_some_iff.mp hbehind
      exact ⟨form, rest, hproblem, hdomain, hfirst⟩
    . rintro ⟨form, rest, hproblem, hdomain, hfirst⟩
      have hform : form.chars <+: form.chars ++ rest := List.prefix_append _ _
      exact ⟨_, problemAt?_eq_some_iff.mpr ⟨form, hproblem, hdomain, hform⟩, hfirst⟩
  . intro cs' h
    rw [problemNames?, problemNames?, h.collapse_eq]

theorem problemNames?_leftmost_respaced :
    let cs := "(define (problem q".toList ++ (" ".toList ++ "(DEFINE(problem p)(:domain d)".toList)
    let cs' := "(define (problem q".toList ++ ("\n\u2003".toList
      ++ "(DEFINE(problem p)(:domain d)".toList)
    Text.IsRespaced cs cs' ∧ problemNames? cs' = some ("p".toList, "d".toList) := by
  intro cs cs'
  have h : Text.IsRespaced cs cs' := by
    apply Text.IsRespaced.append
    exact .gap (by decide) (by decide) (.refl _)
  refine ⟨h, ((problemNames?_leftmost cs).2.2 cs' h).trans ?_⟩
  decide

/--
The name of a domain is that in the first header of the form on the first line that has one. It
goes on as long as it can.
-/
theorem domainName?_leftmost (cs : List Char) :
    (domainName? cs ≠ none ↔ ∃ line ∈ Text.lines cs, ∃ form : DomainForm, form.chars <:+: line) ∧
    ∀ domain, domainName? cs = some domain ↔
      ∃ before line behind, Text.lines cs = before ++ line :: behind
        ∧ (∀ earlier ∈ before, ∀ form : DomainForm, ¬ form.chars <:+: earlier)
        ∧ ∃ form : DomainForm, ∃ rest, form.domain.name = domain ∧ EndsName rest
          ∧ Text.IsFirst DomainForm.Starts line (form.chars ++ rest) := by
  constructor
  . rw [domainName?, ne_eq, List.findSome?_eq_none_iff]
    simp only [firstMatch_domainAt?_eq_none_iff, not_forall, not_not, exists_prop]
  . intro domain
    rw [domainName?, List.findSome?_eq_some_iff]
    simp only [firstMatch_domainAt?_eq_none_iff, firstMatch_domainAt?_eq_some_iff]
    constructor
    . rintro ⟨before, line, behind, hlines, hline, hbefore⟩
      exact ⟨before, line, behind, hlines, hbefore, hline⟩
    . rintro ⟨before, line, behind, hlines, hbefore, hline⟩
      exact ⟨before, line, behind, hlines, hline, hbefore⟩

example :
    domainName? "(define (domain\nd) (domain )(DOMAIN\r e(f))".toList = some "e(f".toList := by
  decide

end Header
end PddlOutline

import PddlOutline.Proofs.Excerpt
import PddlOutline.Proofs.Passage

/-!
This module contains what a diagnostic shows of a failure to read a document: its title and label
say why, and the rows of the passage that is to blame stand below, with their numbers and with marks
under the passage.
-/

namespace PddlOutline

/--
What is said of a failure: its kind, and the reason for it.
-/
inductive ReadError.Says : ReadError → String → String → Prop
  | missingSection {keyword : Keyword} {span : Option Span} :
    Says (.missingSection keyword span) "missing section"
      ("missing `" ++ keyword.text ++ "` section")
  | unopened {span : Option Span} :
    Says (.malformed .unopened span) "malformed structure"
      "closing parenthesis without a matching opening one"
  | unclosed {span : Option Span} :
    Says (.malformed .unclosed span) "malformed structure" "unclosed parenthesis"
  | missingValue {keyword : Keyword} {span : Option Span} :
    Says (.malformed (.missingValue keyword) span) "malformed structure"
      ("expected a parenthesized expression after `" ++ keyword.text ++ "`")
  | missingActionName {span : Option Span} :
    Says (.malformed .missingActionName span) "malformed structure" "missing action name"
  | missingType {span : Option Span} :
    Says (.malformed .missingType span) "malformed structure" "missing type name after `-`"
  | expectedType {span : Option Span} :
    Says (.malformed .expectedType span) "malformed structure" "expected a type name after `-`"
  | orphanType {span : Option Span} :
    Says (.malformed .orphanType span) "malformed structure"
      "type does not apply to any parameter"

theorem Keyword.isPrintable_text (k : Keyword) : Text.IsPrintable k.text.toList := by
  cases k <;> decide +kernel

namespace ReadError.Says

variable {d : Document} {e : ReadError} {kind reason : String}

theorem exists_of_isLocated (h : e.IsLocated d.fragment) : ∃ kind reason, e.Says kind reason := by
  cases e with
  | missingSection => exact ⟨_, _, .missingSection⟩
  | malformed malformation =>
    cases malformation with
    | unopened => exact ⟨_, _, .unopened⟩
    | unclosed => exact ⟨_, _, .unclosed⟩
    | missingValue => exact ⟨_, _, .missingValue⟩
    | missingActionName => exact ⟨_, _, .missingActionName⟩
    | missingType => exact ⟨_, _, .missingType⟩
    | expectedType => exact ⟨_, _, .expectedType⟩
    | orphanType => exact ⟨_, _, .orphanType⟩
  | outOfRange =>
    obtain ⟨_, _, _, _, hdescribes⟩ := h
    exact hdescribes.elim

theorem message_eq (h : e.Says kind reason) : e.message = reason := by
  cases h <;> rfl

theorem kindTitle_eq (h : e.Says kind reason) :
    Diagnostic.kindTitle e = "Invalid PDDL: " ++ kind := by
  cases h <;> rfl

theorem isPrintable_kind (h : e.Says kind reason) : Text.IsPrintable kind.toList := by
  cases h <;> decide +kernel

theorem isPrintable_reason (h : e.Says kind reason) : Text.IsPrintable reason.toList := by
  have hquoted : ∀ {before behind : String} (k : Keyword), Text.IsPrintable before.toList →
      Text.IsPrintable behind.toList → Text.IsPrintable (before ++ k.text ++ behind).toList := by
    intro before behind k hbefore hbehind
    rw [String.toList_append, String.toList_append]
    exact (hbefore.append k.isPrintable_text).append hbehind
  cases h with
  | missingSection => exact hquoted _ (by decide +kernel) (by decide +kernel)
  | missingValue => exact hquoted _ (by decide +kernel) (by decide +kernel)
  | _ => decide +kernel

theorem reason_ne_empty (h : e.Says kind reason) : reason ≠ "" := by
  have hquoted : ∀ {before : String} (k : Keyword) (behind : String), before ≠ "" →
      before ++ k.text ++ behind ≠ "" := by
    intro before k behind hbefore hempty
    rw [String.append_assoc] at hempty
    exact hbefore (String.append_eq_empty_iff.mp hempty).1
  cases h with
  | missingSection => exact hquoted _ _ (by decide)
  | missingValue => exact hquoted _ _ (by decide)
  | _ => decide

end ReadError.Says

namespace Diagnostic

/--
Whether a text is printed for the title of an error. All lines of a title start in one column, and
the label of its severity stands before the first one.
-/
def Titles (title text : String) : Prop :=
  ∃ shown, Text.Depicts title.toList shown
    ∧ text.toList = shown.flatMap fun c =>
      if c = '\n' then '\n' :: List.replicate "error: ".length ' ' else [c]

/--
A title without lines of its own is printed as it is.
-/
theorem Titles.eq_self {title text : String} (h : Titles title text)
    (hprintable : Text.IsPrintable title.toList) : text = title := by
  obtain ⟨shown, hshown, htext⟩ := h
  obtain rfl := hshown.eq_self fun _ hc => hprintable.showsItself hc
  have hflat : ∀ c ∈ title.toList,
      (if c = '\n' then '\n' :: List.replicate "error: ".length ' ' else [c]) = [c] := by
    rintro c hc
    rw [if_neg]
    rintro rfl
    exact hprintable.not_mem (by decide) hc
  apply String.toList_inj.mp
  rw [htext, List.flatMap_congr hflat, List.flatMap_singleton']

theorem intercalate_append_cons (indent line : List Char) (lines : List (List Char)) :
    List.intercalate ['\n'] ((indent ++ line) :: lines)
      =
    indent ++ List.intercalate ['\n'] (line :: lines) := by
  induction indent with
  | nil => rfl
  | cons c indent ih => rw [List.cons_append, List.intercalate_cons_cons_left, ih, List.cons_append]

theorem intercalate_indented (indent : List Char) {cs first : List Char} {rest : List (List Char)}
    (h : cs.splitOn '\n' = first :: rest) :
    List.intercalate ['\n'] (first :: rest.map (indent ++ ·))
      =
    cs.flatMap fun c => if c = '\n' then '\n' :: indent else [c] := by
  induction cs generalizing first rest with
  | nil =>
    rw [List.splitOn_nil, List.cons.injEq] at h
    obtain ⟨rfl, rfl⟩ := h
    rfl
  | cons c cs ih =>
    obtain ⟨line, lines, hsplit⟩ := List.exists_cons_of_ne_nil (List.splitOn_ne_nil '\n' cs)
    rw [List.splitOn_cons_eq_if_modifyHead, hsplit] at h
    rw [List.flatMap_cons, ← ih hsplit]
    by_cases hc : c = '\n'
    . rw [if_pos (beq_iff_eq.mpr hc), List.cons.injEq] at h
      obtain ⟨rfl, rfl⟩ := h
      rw [if_pos hc, List.map_cons, List.intercalate_cons_cons, intercalate_append_cons]
      rfl
    . rw [if_neg (mt beq_iff_eq.mp hc), List.modifyHead_cons, List.cons.injEq] at h
      obtain ⟨rfl, rfl⟩ := h
      rw [if_neg hc, List.intercalate_cons_cons_left, List.singleton_append]

theorem titleLines_of_isPrintable {d : Diagnostic} (h : Text.IsPrintable d.title.toList) :
    d.titleLines = [d.title] := by
  have hnewline : '\n' ∉ d.title.toList := h.not_mem (by decide)
  rw [titleLines, Text.display_eq_self h, List.splitOn_eq_singleton hnewline]
  simp

end Diagnostic

namespace Passage

open Excerpt

variable {d : Document} (p : Passage d)

/--
The digits of the number of the last row.
-/
def width : Nat :=
  (toString (p.lastRow + 1)).length

/--
The line that says where a passage is, if its document comes from a file. The name of the file may
lose colours.
-/
inductive Locates : List String → Prop
  | nowhere (h : d.source = none) : Locates []
  | inFile {name shown : String} (h : d.source = some name)
    (hname : '\x1b' ∉ name.toList → shown = name) :
    Locates [pad p.width ++ "--> " ++ shown ++ ":" ++ toString (p.firstRow + 1) ++ ":"
      ++ toString (p.before.length + 1)]

/--
Whether the rows of a passage are few and short, with no wide characters.
-/
structure IsDrawable : Prop where
  narrow : ∀ row ∈ p.rows, ∀ c ∈ row, ¬ Text.isWide c
  short : ∀ row ∈ p.rows, row.length ≤ 100
  few : p.rows.length ≤ 7

theorem numberWidth_excerpt (label : String) : (p.excerpt label).numberWidth = p.width := by
  obtain ⟨part, c, hpart, hsolid⟩ := p.exists_eq_concat
  have hc : c ≠ '\n' := by
    rintro rfl
    exact hsolid rfl
  have hlast : Text.lastLine (p.front ++ p.part) ≠ [] := by
    rw [hpart, ← List.append_assoc, Text.lastLine_concat, if_neg hc]
    exact List.concat_ne_nil _ _
  have hstart : (p.excerpt label).stop.isRowStart = false := by
    simp [excerpt, Position.isRowStart, hlast]
  rw [numberWidth, hstart]
  rfl

theorem locates_excerpt (label : String) : p.Locates (p.excerpt label).locationLines := by
  rw [locationLines, p.numberWidth_excerpt]
  cases hsource : (p.excerpt label).source with
  | none => exact .nowhere hsource
  | some name => exact .inFile hsource plain_eq_self

theorem length_number_le {index : Nat} (h : index < p.rows.length + p.firstRow) :
    (toString (index + 1)).length ≤ p.width := by
  have hle : index + 1 ≤ p.lastRow + 1 := by
    have hfirst := p.firstRow_le
    rw [p.length_rows] at h
    omega
  have hwidth : p.lastRow + 1 < 10 ^ p.width :=
    (Nat.length_repr_le_iff Nat.length_repr_pos).mp (Nat.le_refl _)
  exact (Nat.length_repr_le_iff Nat.length_repr_pos).mpr (Nat.lt_of_le_of_lt hle hwidth)

theorem rows_ne_nil : p.rows ≠ [] := by
  have hle := p.firstRow_le
  have hlength := p.length_rows
  exact List.ne_nil_of_length_pos (by omega)

/--
What is drawn of a passage: its rows, and marks with a label behind them. A passage on a single row
has carets under the columns in which it is printed.
-/
structure Draws (text : String) (lines : List String) : Prop where
  rows : ∃ head tail, IsHead p.rows head ∧ IsTail p.rows tail
    ∧ List.Forall₂ (Shows p.width) (kept head tail (p.rows.zipIdx p.firstRow))
      (lines.filter isSource)
  whole : (p.rows.length ≤ 3 ∨ p.rows.length ≤ 7 ∧ ∀ row ∈ p.rows.dropLast, ¬ IsFiller row) →
    List.Forall₂ (Shows p.width) ((p.rows.zipIdx p.firstRow).map some) (lines.filter isSource)
  label : ∃ marks, lines.getLast? = some (marks ++ (" " ++ text)) ∧ ∀ c ∈ marks.toList, IsMark c
  carets : p.firstRow = p.lastRow → ∃ more before part behind,
    p.rows = [p.before ++ (p.part ++ more)]
      ∧ Text.Depicts p.before before ∧ Text.Depicts p.part part ∧ Text.Depicts more behind
      ∧ lines = [pad p.width ++ " |",
          headed (toString (p.firstRow + 1) ++ " |") (before ++ (part ++ behind)),
          pad p.width ++ " | " ++ pad (Text.columns before)
            ++ String.ofList (List.replicate (max 1 (Text.columns part)) '^') ++ (" " ++ text)]

theorem draws_excerpt (h : p.IsDrawable) {label : String} (hne : label ≠ "")
    (hlabel : Text.IsPrintable label.toList) :
    p.Draws label ((p.excerpt label).unnumbered :: (p.excerpt label).bodyLines) := by
  have hwidth := p.numberWidth_excerpt label
  have htext : (p.excerpt label).labelText = " " ++ label :=
    labelText_eq hne (hlabel.not_mem (by decide))
  have hnumbers : ∀ i < (p.excerpt label).rows.length + (p.excerpt label).first.row,
      (toString (i + 1)).length ≤ (p.excerpt label).numberWidth := by
    intro i hi
    rw [hwidth]
    exact p.length_number_le hi
  have hrows := forall₂_source hnumbers p.rows_ne_nil
  rw [hwidth] at hrows
  constructor
  case rows => exact ⟨_, _, isHead_headSize _, isTail_tailSize _, hrows⟩
  case whole =>
    intro hfew
    have hlength := length_le_of_few (isHead_headSize _) (isTail_tailSize _) hfew
    rw [← List.length_zipIdx (i := p.firstRow)] at hlength
    rw [← kept_of_length_le hlength]
    exact hrows
  case label =>
    obtain ⟨marks, hlast, hmarks⟩ := exists_marks (x := p.excerpt label) p.rows_ne_nil
    rw [List.getLast?_cons, hlast, htext]
    exact ⟨marks, rfl, hmarks⟩
  case carets =>
    intro hrow
    obtain ⟨more, hrows⟩ := p.exists_rows_eq hrow
    have hstop : (p.excerpt label).stop.before = (p.excerpt label).first.before ++ p.part :=
      Text.lastLine_append (p.newline_not_mem hrow) p.front
    have hnumber : number p.width (p.excerpt label).first.row = toString (p.firstRow + 1) := by
      rw [width, ← hrow]
      exact number_length p.firstRow
    have hnarrow : ∀ c ∈ (p.excerpt label).first.before ++ p.part, ¬ Text.isWide c := by
      intro c hc
      apply h.narrow (p.before ++ (p.part ++ more)) (by rw [hrows]; exact List.mem_singleton_self _)
      rw [← List.append_assoc]
      exact List.mem_append_left _ hc
    have hlines := unnumbered_bodyLines hnumbers hrows hstop hnarrow
    rw [hwidth, htext, hnumber] at hlines
    exact ⟨more, _, _, _, hrows, Text.depicts_display _, Text.depicts_display _,
      Text.depicts_display _, hlines⟩

end Passage

/--
Whether a text says what kind of failure there is and why, and shows the passage that is to blame.
-/
def ReadError.Explains (e : ReadError) (d : Document) (text : String) : Prop :=
  ∃ (p : Passage d) (kind reason : String) (location lines : List String),
    e.span? = some p.span ∧ e.Says kind reason ∧ p.Locates location
    ∧ (p.IsDrawable → p.Draws reason lines)
    ∧ text = String.intercalate "\n"
      (("Invalid PDDL: " ++ kind ++ ": " ++ reason) :: (location ++ lines))

/--
Whether the quoted part is short does not matter, because the title is replaced.
-/
theorem Diagnostic.ofError_eq {d : Document} {e : ReadError} {span : Span} {kind reason : String}
    (hspan : e.span? = some span) (hsaid : e.Says kind reason) :
    ofError d e
      =
    ⟨.error, "Invalid PDDL: " ++ kind ++ ": " ++ reason, some ⟨d, span, reason⟩⟩ := by
  rw [ofError, hspan, hsaid.message_eq, hsaid.kindTitle_eq]
  rfl

theorem Diagnostic.body_ofError {d : Document} {e : ReadError} (p : Passage d)
    {kind reason : String} (hspan : e.span? = some p.span) (hsaid : e.Says kind reason) :
    (ofError d e).body
      =
    String.intercalate "\n"
      (("Invalid PDDL: " ++ kind ++ ": " ++ reason) :: (p.excerpt reason).lines) := by
  have htitle : Text.IsPrintable ("Invalid PDDL: " ++ kind ++ ": " ++ reason).toList := by
    rw [String.toList_append, String.toList_append, String.toList_append]
    exact .append (.append (.append (by decide) hsaid.isPrintable_kind) (by decide))
      hsaid.isPrintable_reason
  have hlines := titleLines_of_isPrintable
    (d := ⟨.error, _, some ⟨d, p.span, reason⟩⟩) htitle
  rw [ofError_eq hspan hsaid, body, Option.bind_some, Annotation.excerpt?_passage, hlines]
  rfl

theorem ReadError.explains_ofError {d : Document} {e : ReadError} (h : e.IsLocated d.fragment) :
    e.Explains d (Diagnostic.ofError d e).body := by
  obtain ⟨p, hspan⟩ := Passage.exists_of_isLocated h
  obtain ⟨kind, reason, hsaid⟩ := Says.exists_of_isLocated h
  refine ⟨p, kind, reason, (p.excerpt reason).locationLines,
    (p.excerpt reason).unnumbered :: (p.excerpt reason).bodyLines, hspan, hsaid,
    p.locates_excerpt reason, fun hdrawable => ?_, ?_⟩
  . exact p.draws_excerpt hdrawable hsaid.reason_ne_empty hsaid.isPrintable_reason
  . rw [Diagnostic.body_ofError p hspan hsaid, Excerpt.lines]

/--
A diagnostic says what kind of failure there is and why, and it shows the passage that is to blame.
-/
theorem diagnostic_shows_passage (d : Document) (e : ReadError)
    (h : (Domain.read d).outcome = .error e ∨ (Problem.read d).outcome = .error e) :
    ∃ (p : Passage d) (kind reason : String) (location lines : List String),
      e.span? = some p.span ∧ e.Says kind reason
      ∧ Diagnostic.annotation (Diagnostic.ofError d e) = some ⟨d, p.span, reason⟩
      ∧ (Diagnostic.ofError d e).title = "Invalid PDDL: " ++ kind ++ ": " ++ reason
      ∧ (Diagnostic.ofError d e).render = "error: "
        ++ String.intercalate "\n"
          (("Invalid PDDL: " ++ kind ++ ": " ++ reason) :: (location ++ lines))
      ∧ p.Locates location
      ∧ p.rows.length = p.lastRow + 1 - p.firstRow
      ∧ (p.IsDrawable → p.Draws reason lines) := by
  have hlocated : e.IsLocated d.fragment := by
    cases h with
    | inl h => exact Domain.isLocated_of_read_error h
    | inr h => exact Problem.isLocated_of_read_error h
  obtain ⟨p, kind, reason, location, lines, hspan, hsaid, hlocation, hdraws, hbody⟩ :=
    ReadError.explains_ofError hlocated
  refine ⟨p, kind, reason, location, lines, hspan, hsaid, ?label, ?title, ?render, hlocation,
    p.length_rows, hdraws⟩
  case label => rw [Diagnostic.ofError_eq hspan hsaid]
  case title => rw [Diagnostic.ofError_eq hspan hsaid]
  case render =>
    have hseverity : (Diagnostic.ofError d e).severity = .error := by
      rw [Diagnostic.ofError_eq hspan hsaid]
    rw [Diagnostic.render, hbody, hseverity]
    rfl

theorem diagnostic_shows_passage_accented :
    let d := Document.ofFile "d.pddl" "(define\n (:types é car - ))"
    let e := ReadError.malformed .missingType (some ⟨24, 25⟩)
    (Domain.read d).outcome = .error e
      ∧ (Diagnostic.ofError d e).render
        = "error: Invalid PDDL: malformed structure: missing type name after `-`\n"
          ++ " --> d.pddl:2:16\n"
          ++ "  |\n"
          ++ "2 |  (:types é car - ))\n"
          ++ "  |                ^ missing type name after `-`" := by
  intro d e
  have herror : (Domain.read d).outcome = .error e := by
    decide +kernel
  refine ⟨herror, ?_⟩
  obtain ⟨p, kind, reason, location, lines, hspan, hsaid, _, _, hrender, hlocation, _, hdraws⟩ :=
    diagnostic_shows_passage d e (.inl herror)
  have hreason : ReadError.Says (.malformed .missingType (some ⟨24, 25⟩)) kind reason := hsaid
  cases hreason
  let q : Passage d := ⟨"(define\n (:types é car ".toList, ['-'], " ))".toList,
    by decide +kernel, ⟨'-', rfl, by decide⟩, ⟨'-', rfl, by decide⟩⟩
  obtain rfl : p = q := Passage.ext_span ((Option.some.inj hspan).symm.trans (by decide +kernel))
  have hrow : q.rows = [" (:types é car - ))".toList] := by
    decide +kernel
  have hbeforeq : q.before = " (:types é car ".toList := by
    decide +kernel
  have hdrawable : q.IsDrawable := by
    constructor
    . rw [hrow]
      decide +kernel
    . rw [hrow]
      decide +kernel
    . rw [hrow]
      decide +kernel
  obtain ⟨more, before, part, behind, hrows, hbefore, hpart, hbehind, hlines⟩ :=
    (hdraws hdrawable).carets (by decide +kernel)
  rw [hrow, hbeforeq] at hrows
  have hmore : more = " ))".toList := by
    simpa [q] using (List.cons.inj hrows).1.symm
  subst hmore
  obtain rfl := hbefore.eq_self (by rw [hbeforeq]; decide +kernel)
  obtain rfl := hpart.eq_self (by decide +kernel)
  obtain rfl := hbehind.eq_self (by decide +kernel)
  cases hlocation with
  | nowhere h => cases h
  | inFile h hname =>
    cases h
    rw [hrender, hlines, hname (by decide +kernel), hbeforeq]
    decide +kernel

/--
Comments in a passage may be left out, even of one with few rows.
-/
theorem diagnostic_hides_comment :
    let d := Document.ofString "(:action a\n :parameters ()\n // c\n // d\n // e\n)"
    let e := ReadError.missingSection .precondition (some d.fragment.span)
    (Domain.read d).outcome = .error e
      ∧ (Text.lines d.chars).length = 6
      ∧ (∃ row ∈ Text.lines d.chars, ¬ row <:+: (Diagnostic.ofError d e).render.toList)
      ∧ (Diagnostic.ofError d e).render
        = "error: Invalid PDDL: missing section: missing `:precondition` section\n"
          ++ "  |\n"
          ++ "1 | / (:action a\n"
          ++ "2 | |  :parameters ()\n"
          ++ "... |\n"
          ++ "6 | | )\n"
          ++ "  | |_^ missing `:precondition` section" := by
  refine ⟨?_, ?_, ⟨" // c".toList, ?_, ?_⟩, ?_⟩
  . decide +kernel
  . decide +kernel
  . decide +kernel
  . decide +kernel
  . decide +kernel

end PddlOutline

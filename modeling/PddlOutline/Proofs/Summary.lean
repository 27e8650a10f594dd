import PddlOutline.Model.Catalog

/-!
This module contains what the text form of a catalog shows, row by row: for each domain and each of
its problems a block with a heading and the sections below it.
-/

namespace PddlOutline

namespace Parameters

/--
The parameters one by one, first those that have a type.
-/
def spelled (p : Parameters) : List String :=
  List.zipWith (fun value type => value ++ ": " ++ type) p.values p.types
    ++ p.values.drop p.types.length

theorem map_parameterText (values types : List String) :
    (values.mapIdx fun index value => (value, types[index]?)).map toText.parameterText
      =
    spelled ⟨values, types⟩ := by
  induction values generalizing types with
  | nil => simp [spelled]
  | cons value values ih =>
    rw [List.mapIdx_cons, List.map_cons]
    cases types with
    | nil =>
      have hrest := ih []
      simp only [spelled, List.zipWith_nil_right, List.nil_append, List.length_nil, List.drop_zero,
        List.getElem?_nil] at hrest ⊢
      rw [hrest]
      rfl
    | cons type types =>
      have hrest := ih types
      simp only [List.getElem?_cons_succ]
      rw [hrest]
      rfl

theorem toText_eq (p : Parameters) : p.toText = String.intercalate ", " p.spelled :=
  congrArg _ (map_parameterText p.values p.types)

end Parameters

namespace Action

/--
The name of an action with its parameters.
-/
def heading (a : Action) : String :=
  a.name ++ "(" ++ String.intercalate ", " a.parameters.spelled ++ ")"

theorem signature_eq (a : Action) : a.signature = a.heading := by
  rw [signature, a.parameters.toText_eq, heading]

end Action

namespace Summary

/--
The rows below the heading of a section. There is one even if nothing is in the section.
-/
def indented (items : List String) : List String :=
  match items with
  | [] => ["  "]
  | items => items.map ("  " ++ ·)

theorem intercalate_map_append (separator front : String) (item : String) (items : List String) :
    String.intercalate separator ((item :: items).map (front ++ ·))
      =
    front ++ String.intercalate (separator ++ front) (item :: items) := by
  induction items generalizing item with
  | nil => rw [List.map_singleton, String.intercalate_singleton, String.intercalate_singleton]
  | cons next items ih =>
    rw [List.map_cons, String.intercalate_cons_of_ne_nil (by simp), ih,
      String.intercalate_cons_cons]
    simp only [String.append_assoc]

theorem intercalate_indented (items : List String) :
    String.intercalate "\n" (indented items) = "  " ++ String.intercalate "\n  " items := by
  cases items with
  | nil => rfl
  | cons item items => exact intercalate_map_append "\n" "  " item items

theorem indented_ne_nil (items : List String) : indented items ≠ [] := by
  cases items with
  | nil => exact List.cons_ne_nil _ _
  | cons item items => exact List.cons_ne_nil _ _

/--
Blocks are set apart by empty rows.
-/
theorem intercalate_blocks {blocks : List (List String)} (h : ∀ block ∈ blocks, block ≠ []) :
    String.intercalate "\n" (List.intercalate [""] blocks)
      =
    String.intercalate "\n\n" (blocks.map (String.intercalate "\n")) := by
  induction blocks with
  | nil => rfl
  | cons block blocks ih =>
    obtain ⟨hblock, hblocks⟩ := List.forall_mem_cons.mp h
    cases blocks with
    | nil => rw [List.intercalate_singleton, List.map_singleton, String.intercalate_singleton]
    | cons next blocks =>
      have hrest : List.intercalate [""] (next :: blocks) ≠ [] := by
        obtain ⟨row, rows, hnext⟩ :=
          List.exists_cons_of_ne_nil (hblocks next List.mem_cons_self)
        rw [hnext, List.intercalate_cons_cons_left]
        exact List.cons_ne_nil _ _
      have hmap : (next :: blocks).map (String.intercalate "\n") ≠ [] := List.cons_ne_nil _ _
      have htwice : ∀ s t : String, s ++ "\n" ++ ("\n" ++ t) = s ++ "\n\n" ++ t := by
        intro s t
        have hbreak : s ++ "\n" ++ "\n" = s ++ "\n\n" := String.append_assoc
        rw [← String.append_assoc, hbreak]
      calc String.intercalate "\n" (List.intercalate [""] (block :: next :: blocks))
        _ = String.intercalate "\n" block ++ "\n"
            ++ String.intercalate "\n" ("" :: List.intercalate [""] (next :: blocks)) := by
          rw [List.intercalate_cons_cons, List.append_assoc, List.singleton_append,
            String.intercalate_append_of_ne_nil hblock (List.cons_ne_nil _ _)]
        _ = String.intercalate "\n" block ++ "\n\n"
            ++ String.intercalate "\n\n" ((next :: blocks).map (String.intercalate "\n")) := by
          rw [String.intercalate_cons_of_ne_nil hrest, ih hblocks, String.empty_append, htwice]
        _ = String.intercalate "\n\n" ((block :: next :: blocks).map (String.intercalate "\n")) :=
          (String.intercalate_cons_of_ne_nil hmap).symm

/--
The rows of a section, from its title and what is in it.
-/
def sectionRows (part : String × List String) : List String :=
  ("# " ++ part.1 ++ " ") :: indented part.2

def sectionText (part : String × List String) : String :=
  "\n# " ++ part.1 ++ " \n  " ++ String.intercalate "\n  " part.2

/--
A heading and the sections below it.
-/
def block (heading : String) (parts : List (String × List String)) : List String :=
  heading :: parts.flatMap sectionRows

theorem intercalate_sectionRows (part : String × List String) :
    "\n" ++ String.intercalate "\n" (sectionRows part) = sectionText part := by
  have hbreak : "\n" ++ "# " = "\n# " := rfl
  have hindent : " " ++ ("\n" ++ "  ") = " \n  " := rfl
  rw [sectionRows, String.intercalate_cons_of_ne_nil (indented_ne_nil part.2),
    intercalate_indented, sectionText, ← hbreak, ← hindent]
  simp only [String.append_assoc]

theorem intercalate_append_sections {front : List String} (hfront : front ≠ [])
    (parts : List (String × List String)) :
    String.intercalate "\n" (front ++ parts.flatMap sectionRows)
      =
    String.intercalate "\n" front ++ String.join (parts.map sectionText) := by
  induction parts generalizing front with
  | nil => simp
  | cons part parts ih =>
    have hrows : sectionRows part ≠ [] := List.cons_ne_nil _ _
    rw [List.flatMap_cons, ← List.append_assoc, ih (List.append_ne_nil_of_left_ne_nil hfront _),
      String.intercalate_append_of_ne_nil hfront hrows, List.map_cons, String.join_cons,
      ← intercalate_sectionRows]
    simp only [String.append_assoc]

theorem intercalate_block (heading : String) (parts : List (String × List String)) :
    String.intercalate "\n" (block heading parts)
      =
    heading ++ String.join (parts.map sectionText) := by
  have h := intercalate_append_sections (List.cons_ne_nil heading []) parts
  rwa [String.intercalate_singleton] at h

end Summary

open Summary

def Domain.rows (d : Domain) : List String :=
  block ("# Domain : " ++ d.name)
    [("Requirements", [String.intercalate " " d.requirements]), ("Types", [d.types.toText]),
      ("Constants", [d.constants.toText]), ("Predicates", d.predicates),
      ("Actions", d.actions.values.map Action.heading)]

def Problem.rows (p : Problem) : List String :=
  block ("# Problem : " ++ p.name ++ " (domain: " ++ p.domainLink ++ ")")
    [("Objects", [p.objects.toText]), ("Initial State", p.init), ("Goal", p.goal)]

/--
The blocks of all domains, each with those of its problems behind it, and an empty row between any
two of them.
-/
def Catalog.rows (c : Catalog) : List String :=
  List.intercalate [""] (c.domains.values.flatMap fun d =>
    d.rows :: d.problems.values.map Problem.rows)

theorem Domain.toText_eq (d : Domain) : d.toText = String.intercalate "\n" d.rows := by
  have hactions : d.actions.values.map Action.signature = d.actions.values.map Action.heading :=
    List.map_congr_left fun a _ => a.signature_eq
  have htitles : "\n# " ++ "Requirements" ++ " \n  " = "\n# Requirements \n  "
      ∧ "\n# " ++ "Types" ++ " \n  " = "\n# Types \n  "
      ∧ "\n# " ++ "Constants" ++ " \n  " = "\n# Constants \n  "
      ∧ "\n# " ++ "Predicates" ++ " \n  " = "\n# Predicates \n  "
      ∧ "\n# " ++ "Actions" ++ " \n  " = "\n# Actions \n  " :=
    ⟨rfl, rfl, rfl, rfl, rfl⟩
  obtain ⟨hrequirements, htypes, hconstants, hpredicates, hactions'⟩ := htitles
  rw [rows, intercalate_block]
  unfold toText
  simp only [List.map_cons, List.map_nil, String.join_cons, String.join_nil, sectionText, hactions,
    hrequirements, htypes, hconstants, hpredicates, hactions', String.intercalate_singleton,
    String.append_empty]
  simp only [String.append_assoc]

theorem Problem.toText_eq (p : Problem) : p.toText = String.intercalate "\n" p.rows := by
  have htitles : "\n# " ++ "Objects" ++ " \n  " = "\n# Objects \n  "
      ∧ "\n# " ++ "Initial State" ++ " \n  " = "\n# Initial State \n  "
      ∧ "\n# " ++ "Goal" ++ " \n  " = "\n# Goal \n  " :=
    ⟨rfl, rfl, rfl⟩
  obtain ⟨hobjects, hinit, hgoal⟩ := htitles
  rw [rows, intercalate_block]
  unfold toText
  simp only [List.map_cons, List.map_nil, String.join_cons, String.join_nil, sectionText, hobjects,
    hinit, hgoal, String.intercalate_singleton, String.append_empty]
  simp only [String.append_assoc]

/--
The text form of a catalog consists of its rows.
-/
theorem Catalog.toText_eq (c : Catalog) : c.toText = String.intercalate "\n" c.rows := by
  have hblocks : ∀ block ∈ c.domains.values.flatMap fun d =>
      d.rows :: d.problems.values.map Problem.rows, block ≠ [] := by
    simp only [List.mem_flatMap, List.mem_cons, List.mem_map]
    rintro block ⟨d, _, rfl | ⟨p, _, rfl⟩⟩
    . exact List.cons_ne_nil _ _
    . exact List.cons_ne_nil _ _
  have htexts : ∀ d : Domain, d.toText :: d.problems.values.map Problem.toText
      = (d.rows :: d.problems.values.map Problem.rows).map (String.intercalate "\n") := by
    intro d
    rw [List.map_cons, ← d.toText_eq, List.map_map]
    exact congrArg _ (List.map_congr_left fun p _ => p.toText_eq)
  rw [rows, intercalate_blocks hblocks, toText, List.map_flatMap]
  simp only [htexts]

end PddlOutline

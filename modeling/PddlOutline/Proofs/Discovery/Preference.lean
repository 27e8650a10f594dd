import PddlOutline.Proofs.Discovery.Conventions
import PddlOutline.Proofs.Files
import PddlOutline.Proofs.Text.Quoted

/-!
This module contains which of the existing candidates is the domain that is found: one with the best
name, and of those with this name the one in the best directory. Nothing is found only if there is
no candidate.
-/

namespace PddlOutline
namespace Discovery

variable {t : FileTree} {problem path : Path} {name : List Char}

/--
The directories that are looked into, and their ranks.
-/
inductive Surrounds (problem : Path) : Nat → Path → Prop
  | own {own : Path} (hown : problem.parent? = some own) : Surrounds problem 0 own
  | above {own above : Path} (hown : problem.parent? = some own)
    (habove : own.parent? = some above) :
    Surrounds problem 1 above
  | domains {own above : Path} (hown : problem.parent? = some own)
    (habove : own.parent? = some above) :
    Surrounds problem 2 (above.join (Path.ofString "domains"))

/--
Whether there is a file or directory at the path of a candidate, whose name has the rank `i` and
whose directory has the rank `j`.
-/
def Offers (t : FileTree) (problem : Path) (name : List Char) (i j : Nat) (path : Path) : Prop :=
  ∃ candidate directory, Suggests name i candidate ∧ Surrounds problem j directory
    ∧ path = directory.join (Path.ofString (String.ofList candidate)) ∧ t.reaches path

/--
Whether a message lists names, each of them quoted.
-/
def Lists (names : List (List Char)) (message : String) : Prop :=
  ∃ shown, List.Forall₂ Text.Quotes names shown
    ∧ message =
      "Could not find a domain file in the same or parent directory as the problem file. Candidates: "
        ++ String.ofList ('[' :: List.intercalate [',', ' '] shown ++ [']'])

/-! The directories that are looked into. -/

section Directories

variable {own above : Path}

theorem directories_of_none (hown : problem.parent? = none) : directories problem = [] := by
  rw [directories, hown]

theorem directories_of_own (hown : problem.parent? = some own) (habove : own.parent? = none) :
    directories problem = [own] := by
  simp only [directories, hown, habove]

theorem directories_of_above (hown : problem.parent? = some own)
    (habove : own.parent? = some above) :
    directories problem = [own, above, above.join (Path.ofString "domains")] := by
  simp only [directories, hown, habove]
  rfl

theorem getElem?_directories {j : Nat} {directory : Path} :
    (directories problem)[j]? = some directory ↔ Surrounds problem j directory := by
  constructor
  . intro h
    cases hown : problem.parent? with
    | none =>
      rw [directories_of_none hown] at h
      cases h
    | some own =>
      cases habove : own.parent? with
      | none =>
        rw [directories_of_own hown habove] at h
        match j with
        | 0 => exact Option.some.inj h ▸ .own hown
        | j + 1 => cases h
      | some above =>
        rw [directories_of_above hown habove] at h
        match j with
        | 0 => exact Option.some.inj h ▸ .own hown
        | 1 => exact Option.some.inj h ▸ .above hown habove
        | 2 => exact Option.some.inj h ▸ .domains hown habove
        | j + 3 => cases h
  . intro h
    cases h with
    | own hown =>
      cases habove : directory.parent? with
      | none => rw [directories_of_own hown habove, List.getElem?_cons_zero]
      | some above => rw [directories_of_above hown habove, List.getElem?_cons_zero]
    | above hown habove =>
      rw [directories_of_above hown habove]
      rfl
    | domains hown habove =>
      rw [directories_of_above hown habove]
      rfl

end Directories

/-! The first candidate that exists. -/

theorem Offers.unique {i j : Nat} {path' : Path} (h : Offers t problem name i j path)
    (h' : Offers t problem name i j path') : path = path' := by
  obtain ⟨candidate, directory, hname, hdirectory, rfl, _⟩ := h
  obtain ⟨candidate', directory', hname', hdirectory', rfl, _⟩ := h'
  rw [← isListed_suggestions, IsListed] at hname hname'
  rw [← getElem?_directories] at hdirectory hdirectory'
  rw [hname, Option.some.injEq, Option.some.injEq] at hname'
  rw [hdirectory, Option.some.injEq] at hdirectory'
  rw [hname', hdirectory']

theorem find?_candidates_eq_none_iff :
    (candidates problem (domainNames name)).find? t.reaches = none ↔
      ∀ i j path, ¬ Offers t problem name i j path := by
  rw [List.find?_eq_none]
  constructor
  . rintro h i j path ⟨candidate, directory, hname, hdirectory, rfl, hreach⟩
    refine h _ ?_ hreach
    have hcandidate := (isRanking_domainNames name).mem_iff candidate |>.mpr ⟨i, hname⟩
    have hmem := List.mem_of_getElem? (getElem?_directories.mpr hdirectory)
    exact List.mem_flatMap.mpr ⟨candidate, hcandidate, List.mem_map.mpr ⟨directory, hmem, rfl⟩⟩
  . intro h path hpath hreach
    obtain ⟨candidate, hcandidate, hpath⟩ := List.mem_flatMap.mp hpath
    obtain ⟨directory, hdirectory, rfl⟩ := List.mem_map.mp hpath
    obtain ⟨i, hname⟩ := (isRanking_domainNames name).mem_iff candidate |>.mp hcandidate
    obtain ⟨j, hj⟩ := List.mem_iff_getElem?.mp hdirectory
    exact h i j _ ⟨candidate, directory, hname, getElem?_directories.mp hj, rfl, hreach⟩

/--
What stands before a directory in the list of directories has a better rank.
-/
theorem le_of_surrounds {before behind : List Path} {own directory : Path} {j : Nat}
    (hlist : directories problem = before ++ own :: behind) (hbefore : directory ∉ before)
    (h : Surrounds problem j directory) : before.length ≤ j := by
  by_contra hlt
  rw [Nat.not_le] at hlt
  rw [← getElem?_directories, hlist, List.getElem?_append_left hlt] at h
  exact hbefore (List.mem_of_getElem? h)

theorem exists_offers_of_find?
    (h : (candidates problem (domainNames name)).find? t.reaches = some path) :
    ∃ i j, Offers t problem name i j path ∧
      ∀ i' j' path', Offers t problem name i' j' path' → i < i' ∨ i = i' ∧ j ≤ j' := by
  have hranking := isRanking_domainNames name
  rw [candidates, List.find?_flatMap, List.findSome?_eq_some_iff] at h
  obtain ⟨better, candidate, worse, hnames, hhere, hbetter⟩ := h
  rw [List.find?_map, Option.map_eq_some_iff] at hhere
  obtain ⟨directory, hfind, rfl⟩ := hhere
  rw [List.find?_eq_some_iff_append] at hfind
  obtain ⟨hreach, nearer, farther, hdirectories, hnearer⟩ := hfind
  have hdirectory : Surrounds problem nearer.length directory := by
    rw [← getElem?_directories, hdirectories]
    simp
  obtain ⟨i, hi, hleast⟩ := hranking.exists_least (hnames ▸ List.mem_append_cons_self)
  refine ⟨i, nearer.length, ⟨candidate, directory, hi, hdirectory, rfl, hreach⟩, ?_⟩
  rintro i' j' _ ⟨candidate', directory', hi', hdirectory', rfl, hreach'⟩
  have hmem : candidate' ∈ better ++ candidate :: worse := by
    rw [← hnames]
    exact (hranking.mem_iff candidate').mpr ⟨i', hi'⟩
  have hsorted := hranking.sorted
  rw [hnames, List.pairwise_append, List.pairwise_cons] at hsorted
  rw [List.mem_append, List.mem_cons] at hmem
  rcases hmem with hmem | rfl | hmem
  . -- With a better name, nothing was found in any directory.
    have hnone := hbetter candidate' hmem
    rw [List.find?_eq_none] at hnone
    have hmem' := List.mem_of_getElem? (getElem?_directories.mpr hdirectory')
    exact absurd hreach' (hnone _ (List.mem_map.mpr ⟨directory', hmem', rfl⟩))
  . have hj : nearer.length ≤ j' := by
      apply le_of_surrounds hdirectories ?_ hdirectory'
      intro hmem
      simpa [hreach'] using hnearer directory' hmem
    have hle := hleast i' hi'
    omega
  . obtain ⟨k, hk, hlater⟩ := hsorted.2.1.1 candidate' hmem
    have hle := hleast k hk
    have hlt := hlater i' hi'
    omega

theorem find?_candidates_eq_some_iff :
    (candidates problem (domainNames name)).find? t.reaches = some path ↔
      ∃ i j, Offers t problem name i j path ∧
        ∀ i' j' path', Offers t problem name i' j' path' → i < i' ∨ i = i' ∧ j ≤ j' := by
  constructor
  . exact exists_offers_of_find?
  . rintro ⟨i, j, hoffers, hbest⟩
    cases hfind : (candidates problem (domainNames name)).find? t.reaches with
    | none => exact absurd hoffers (find?_candidates_eq_none_iff.mp hfind i j path)
    | some path' =>
      obtain ⟨i', j', hoffers', hbest'⟩ := exists_offers_of_find? hfind
      have hle := hbest i' j' path' hoffers'
      have hge := hbest' i j path hoffers
      obtain rfl : i = i' := by omega
      obtain rfl : j = j' := by omega
      rw [hoffers.unique hoffers']

/-! Discovery. -/

theorem namesFor_of_fileName? {name : String} (h : problem.fileName? = some (Path.encode name)) :
    namesFor problem = .ok (domainNames name.toList) := by
  simp only [namesFor, h, Path.decode?_encode]

theorem run_find {names : List (List Char)} (h : namesFor problem = .ok names) :
    (find t.access problem).run =
      ((candidates problem names).find? t.reaches).elim (.error (.notFound names)) .ok := by
  have hfound : t.access.firstReached? (candidates problem names)
      = pure ((candidates problem names).find? t.reaches) :=
    t.run_firstReached? _
  simp only [find, h, hfound, pure_bind]
  cases (candidates problem names).find? t.reaches with
  | none => rfl
  | some path => rfl

theorem find_eq_ok_iff {names : List (List Char)} (h : namesFor problem = .ok names) :
    (find t.access problem).run = .ok path ↔
      (candidates problem names).find? t.reaches = some path := by
  rw [run_find h]
  cases (candidates problem names).find? t.reaches with
  | none => simp
  | some path => simp

theorem find_eq_error_iff {names : List (List Char)} (h : namesFor problem = .ok names)
    {e : SearchError} :
    (find t.access problem).run = .error e ↔
      e = .notFound names ∧ (candidates problem names).find? t.reaches = none := by
  rw [run_find h]
  cases (candidates problem names).find? t.reaches with
  | none => simp [eq_comm]
  | some path => simp

theorem lists_message (names : List (List Char)) :
    Lists names (SearchError.notFound names).message := by
  refine ⟨names.map Text.quote, ?_, rfl⟩
  rw [List.forall₂_map_right_iff, List.forall₂_same]
  exact fun name _ => Text.quotes_quote name

/--
The domain that is found is the best of the candidates that exist, where a better name counts more
than a better directory. If there is none, the error lists the candidates.
-/
theorem find_prefers (t : FileTree) {problem : Path} {name : String}
    (h : problem.fileName? = some (Path.encode name)) :
    ∃ names, IsRanking (Suggests name.toList) names ∧
      (∀ path, (find t.access problem).run = .ok path ↔
        ∃ i j, Offers t problem name.toList i j path ∧
          ∀ i' j' path', Offers t problem name.toList i' j' path' → i < i' ∨ i = i' ∧ j ≤ j') ∧
      ((∃ path, (find t.access problem).run = .ok path) ↔
        ∃ i j path, Offers t problem name.toList i j path) ∧
      (∀ e, (find t.access problem).run = .error e ↔
        e = .notFound names ∧ ∀ i j path, ¬ Offers t problem name.toList i j path) ∧
      ∀ e, (find t.access problem).run = .error e → Lists names e.message := by
  have hnames := namesFor_of_fileName? h
  refine ⟨domainNames name.toList, isRanking_domainNames name.toList, ?_, ?_, ?_, ?_⟩
  . intro path
    rw [find_eq_ok_iff hnames, find?_candidates_eq_some_iff]
  . simp only [find_eq_ok_iff hnames, ← Option.ne_none_iff_exists', ne_eq,
      find?_candidates_eq_none_iff, not_forall, not_not]
  . intro e
    rw [find_eq_error_iff hnames, find?_candidates_eq_none_iff]
  . intro e he
    obtain ⟨rfl, _⟩ := (find_eq_error_iff hnames).mp he
    exact lists_message _

theorem find_prefers_farther :
    let near := (FileTree.empty []).addFile (Path.ofString "a/p-domain.pddl") []
    let t := near.addFile (Path.ofString "domains/domain.pddl") []
    let problem := Path.ofString "a/p.pddl"
    problem.fileName? = some (Path.encode "p.pddl")
      ∧ (∃ i j, Offers t problem "p.pddl".toList i j (Path.ofString "domains/domain.pddl") ∧
        ∀ i' j' path', Offers t problem "p.pddl".toList i' j' path' → i < i' ∨ i = i' ∧ j ≤ j')
      ∧ ∃ e, (find (FileTree.empty []).access problem).run = .error e
        ∧ (∀ i j path, ¬ Offers (FileTree.empty []) problem "p.pddl".toList i j path)
        ∧ e.message =
          "Could not find a domain file in the same or parent directory as the problem file. "
            ++ "Candidates: [\"domain.pddl\", \"p-domain.pddl\", \"domain-p.pddl\"]" := by
  intro near t problem
  have h : problem.fileName? = some (Path.encode "p.pddl") := by
    decide +kernel
  have hfound : (find t.access problem).run = .ok (Path.ofString "domains/domain.pddl") := by
    decide +kernel
  have hmissing : (find (FileTree.empty []).access problem).run
      = .error (.notFound (domainNames "p.pddl".toList)) := by
    decide +kernel
  obtain ⟨_, _, hok, _⟩ := find_prefers t h
  obtain ⟨_, _, _, _, herror, _⟩ := find_prefers (FileTree.empty []) h
  exact ⟨h, (hok _).mp hfound, _, hmissing, ((herror _).mp hmissing).2, by decide +kernel⟩

end Discovery
end PddlOutline

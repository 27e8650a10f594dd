import PddlOutline.Proofs.Discovery.Preference
import PddlOutline.Proofs.PathSteps

/-!
This module contains what the spelling of the path of a problem means for the search for its domain.
The directories are found without a look at the files, so that the path has to name the directory of
the problem. Otherwise what is taken for the directory above it is none, or another directory.
-/

namespace PddlOutline
namespace Discovery

open PddlOutline.Path

variable {t : FileTree} {p q directory directory' : Path} {l l' : Location} {b n : List UInt8}
  {names detour : List (List UInt8)}

/--
Whether what is looked up in a directory is looked up at a location.
-/
def LooksIn (t : FileTree) (directory : Path) (l : Location) : Prop :=
  ∀ q : Path, ¬ q.IsAbsolute → q.bytes ≠ [] →
    t.locate (directory.join q) = FileTree.locate { t with current := l } q

/--
Whether the directories that are searched for the domain of a problem are at the locations `ls`.
-/
def Searches (t : FileTree) (problem : Path) (ls : List Location) : Prop :=
  List.Forall₂ (LooksIn t) (directories problem) ls

/--
Whether two directories offer the same, if anything.
-/
def LookAlike (t : FileTree) (directory directory' : Path) : Prop :=
  ∀ q : Path, ¬ q.IsAbsolute → q.bytes ≠ [] →
    t.locate (directory.join q) = t.locate (directory'.join q)

/--
A directory that can be entered from the current one and left again.
-/
structure IsDetour (t : FileTree) (x : Path) (b : List UInt8) : Prop where
  relative : ¬ x.IsAbsolute
  locate : t.locate x = .ok (t.current ++ [b])
  node : t.node? (t.current ++ [b]) = some .directory

/--
The path `p` with a dot or a detour in front of it.
-/
inductive Respells (t : FileTree) (p : Path) : Path → Prop
  | dot : Respells t p ((ofString ".").join p)
  | detour {x : Path} {b : List UInt8} (h : IsDetour t x b) :
    Respells t p ((x.join (ofString "..")).join p)

/-! Locations of directories. -/

section Looks

theorem looksIn_of_walk (hdirectory : ¬ directory.IsAbsolute)
    (h : t.walk t.current directory.steps = .ok l) : LooksIn t directory l := by
  intro q hq hne
  rw [FileTree.locate_join hdirectory hq hne, FileTree.walk_append_of_eq_ok h,
    FileTree.locate_of_not_isAbsolute hq hne]
  exact (FileTree.walk_with_current t _ _ _).symm

theorem looksIn_domains (hdirectory : ¬ directory.IsAbsolute)
    (h : t.walk t.current directory.steps = .ok l) (hl : t.node? l = some .directory) :
    LooksIn t (directory.join (ofString "domains")) (l ++ [encode "domains"]) := by
  have hrelative : ¬ (ofString "domains").IsAbsolute := by
    decide
  have hsteps : (ofString "domains").steps = [encode "domains"] := by
    decide
  intro q hq hne
  rw [FileTree.locate_join (not_isAbsolute_join hdirectory hrelative) hq hne, steps_join hrelative,
    hsteps, List.append_assoc, FileTree.walk_append_of_eq_ok h, List.singleton_append,
    FileTree.walk_cons_of_child (by decide) (by decide) hl (List.splitOn_ne_nil slash q.bytes),
    FileTree.locate_of_not_isAbsolute hq hne]
  exact (FileTree.walk_with_current t _ _ _).symm

theorem lookAlike_of_steps (hdirectory : ¬ directory.IsAbsolute)
    (hdirectory' : ¬ directory'.IsAbsolute) (hsteps : directory'.steps = detour ++ directory.steps)
    (hdetour : t.walk t.current detour = .ok t.current) : LookAlike t directory directory' := by
  intro q hq hne
  rw [FileTree.locate_join hdirectory hq hne, FileTree.locate_join hdirectory' hq hne, hsteps,
    List.append_assoc, FileTree.walk_append_of_eq_ok hdetour]

end Looks

/-! Directories of paths with a directory part. -/

section Steps

theorem directories_of_steps (h : p.steps = names ++ [b] ++ [n]) (hp : ¬ p.IsAbsolute) :
    ∃ own above, directories p = [own, above, above.join (ofString "domains")]
      ∧ own.steps = names ++ [b] ∧ above.steps = names
      ∧ ¬ own.IsAbsolute ∧ ¬ above.IsAbsolute := by
  obtain ⟨own, hown, hsteps, hrelative, -⟩ := exists_parent h
  obtain ⟨above, habove, hsteps', hrelative', -⟩ := exists_parent hsteps
  exact ⟨own, above, directories_of_above hown habove, hsteps, hsteps', hrelative hp,
    hrelative' (hrelative hp)⟩

theorem exists_walk_of_locate (h : p.steps = names ++ [b]) (hp : ¬ p.IsAbsolute)
    (hl : t.locate p = .ok l) :
    ∃ l', t.walk t.current names = .ok l' ∧ t.walk l' [b] = .ok l
      ∧ ((∃ b, p.fileName? = some b ∧ l = l' ++ [b])
        ∨ (p.fileName? = none ∧ l = l'.dropLast)) := by
  have hwalk := FileTree.walk_steps_of_locate hp hl
  rw [h, FileTree.walk_append, Outcome.bind_eq_ok] at hwalk
  obtain ⟨l', hwalk, hb⟩ := hwalk
  refine ⟨l', hwalk, hb, ?_⟩
  have hidle : ¬ isIdle b := not_isIdle_of_mem_steps (p := p) (by simp [h])
  rcases FileTree.cases_of_walk_singleton hidle hb with ⟨hup, hl'⟩ | ⟨hup, hl'⟩
  . exact .inr ⟨fileName?_eq_none_of_isUp h hup, hl'⟩
  . exact .inl ⟨b, fileName?_eq_some_iff.mpr ⟨names, h, hup⟩, hl'⟩

theorem searches_of_steps (h : p.steps = names ++ [b] ++ [n]) (hp : ¬ p.IsAbsolute)
    (hwalk : t.walk t.current names = .ok l') (hb : t.walk l' [b] = .ok l) :
    Searches t p [l, l', l' ++ [encode "domains"]] := by
  obtain ⟨own, above, hdirectories, hown, habove, hrelative, hrelative'⟩ :=
    directories_of_steps h hp
  rw [Searches, hdirectories]
  refine .cons ?_ (.cons ?_ (.cons ?_ .nil))
  . apply looksIn_of_walk hrelative
    rw [hown, FileTree.walk_append_of_eq_ok hwalk, hb]
  . apply looksIn_of_walk hrelative'
    rw [habove, hwalk]
  . apply looksIn_domains hrelative' _ (FileTree.node?_of_walk_cons hb)
    rw [habove, hwalk]

end Steps

/-! Directories of paths that are a name, or a dot and a name. -/

section Single

theorem parent?_of_single (h : p.steps = [n]) : p.parent? = some ⟨p.lead⟩ := by
  obtain ⟨own, hown, -, -, hbytes⟩ := exists_parent (h.trans (List.nil_append [n]).symm)
  rw [hown, ← hbytes rfl]

theorem searches_of_lead_eq_nil (h : p.steps = [n]) (hlead : p.lead = []) :
    Searches t p [t.current] := by
  have hown := parent?_of_single h
  rw [hlead] at hown
  rw [Searches, directories_of_own hown (by decide)]
  exact .cons (looksIn_of_walk (by decide) rfl) .nil

theorem searches_of_lead_eq_dot (h : p.steps = [n]) (hlead : p.lead = [dot])
    (hcurrent : t.node? t.current = some .directory) :
    Searches t p [t.current, t.current, t.current ++ [encode "domains"]] := by
  have hown := parent?_of_single h
  rw [hlead] at hown
  have habove : parent? ⟨[dot]⟩ = some ⟨[]⟩ := by
    decide
  rw [Searches, directories_of_above hown habove]
  refine .cons ?_ (.cons ?_ (.cons ?_ .nil))
  . exact looksIn_of_walk (by decide) rfl
  . exact looksIn_of_walk (by decide) rfl
  . exact looksIn_domains (by decide) rfl hcurrent

end Single

/-! Other spellings. -/

section Respelling

theorem lead_dot_join (hp : ¬ p.IsAbsolute) : ((ofString ".").join p).lead = [dot] := by
  have hhead : ¬ p.bytes.head? = some slash := hp
  have hdot : ofString "." = ⟨[dot]⟩ := by
    decide
  rw [hdot, join, if_neg hhead, if_neg (by decide)]
  rfl

theorem IsDetour.walk_back {x : Path} (h : IsDetour t x b) :
    t.walk (t.current ++ [b]) [[dot, dot]] = .ok t.current := by
  rw [FileTree.walk_cons_of_isUp (by decide) h.node, List.dropLast_concat]
  rfl

theorem IsDetour.walk {x : Path} (h : IsDetour t x b) :
    t.walk t.current (x.steps ++ [[dot, dot]]) = .ok t.current := by
  rw [FileTree.walk_append_of_eq_ok (FileTree.walk_steps_of_locate h.relative h.locate),
    h.walk_back]

theorem steps_detour_join (x : Path) (hp : ¬ p.IsAbsolute) :
    ((x.join (ofString "..")).join p).steps = x.steps ++ [[dot, dot]] ++ p.steps := by
  rw [steps_join hp, steps_join (by decide)]
  rfl

theorem Respells.not_isAbsolute (h : Respells t p q) (hp : ¬ p.IsAbsolute) : ¬ q.IsAbsolute := by
  cases h with
  | dot => exact not_isAbsolute_join (by decide) hp
  | detour h => exact not_isAbsolute_join (not_isAbsolute_join h.relative (by decide)) hp

theorem Respells.exists_detour (h : Respells t p q) (hp : ¬ p.IsAbsolute) :
    ∃ detour, q.steps = detour ++ p.steps ∧ t.walk t.current detour = .ok t.current := by
  cases h with
  | dot =>
    refine ⟨[], ?_, rfl⟩
    rw [steps_join hp]
    rfl
  | detour h => exact ⟨_, steps_detour_join _ hp, h.walk⟩

theorem Respells.fileName?_eq (h : Respells t p q) (hp : ¬ p.IsAbsolute)
    (hname : p.fileName? = some n) : q.fileName? = some n := by
  obtain ⟨detour, hdetour, -⟩ := h.exists_detour hp
  obtain ⟨front, hsteps, hup⟩ := fileName?_eq_some_iff.mp hname
  refine fileName?_eq_some_iff.mpr ⟨detour ++ front, ?_, hup⟩
  rw [hdetour, hsteps, List.append_assoc]

theorem Respells.exists_steps (h : Respells t p q) (hp : ¬ p.IsAbsolute)
    (hsteps : p.steps = names ++ [b] ++ [n]) :
    ∃ detour, q.steps = detour ++ names ++ [b] ++ [n]
      ∧ t.walk t.current detour = .ok t.current := by
  obtain ⟨detour, hdetour, hwalk⟩ := h.exists_detour hp
  refine ⟨detour, ?_, hwalk⟩
  rw [hdetour, hsteps]
  simp only [List.append_assoc]

theorem Respells.directories_alike (h : Respells t p q) (hp : ¬ p.IsAbsolute)
    (hsteps : p.steps = names ++ [b] ++ [n]) :
    List.Forall₂ (LookAlike t) (directories p) (directories q) := by
  obtain ⟨detour, hsteps', hwalk⟩ := h.exists_steps hp hsteps
  obtain ⟨own, above, hp', hown, habove, hown', habove'⟩ := directories_of_steps hsteps hp
  obtain ⟨own₁, above₁, hq', hown₁, habove₁, hown₁', habove₁'⟩ :=
    directories_of_steps hsteps' (h.not_isAbsolute hp)
  have hdomains : ¬ (ofString "domains").IsAbsolute := by
    decide
  rw [hp', hq']
  refine .cons ?_ (.cons ?_ (.cons ?_ .nil))
  . apply lookAlike_of_steps hown' hown₁' _ hwalk
    rw [hown₁, hown, List.append_assoc]
  . apply lookAlike_of_steps habove' habove₁' _ hwalk
    rw [habove₁, habove]
  . apply lookAlike_of_steps (not_isAbsolute_join habove' hdomains)
      (not_isAbsolute_join habove₁' hdomains) _ hwalk
    rw [steps_join hdomains, steps_join hdomains, habove₁, habove, List.append_assoc]

theorem Respells.searches (h : Respells t p q) (hp : ¬ p.IsAbsolute)
    (hsteps : p.steps = names ++ [b] ++ [n]) (hwalk : t.walk t.current names = .ok l')
    (hb : t.walk l' [b] = .ok l) : Searches t q [l, l', l' ++ [encode "domains"]] := by
  obtain ⟨detour, hsteps', hreturn⟩ := h.exists_steps hp hsteps
  apply searches_of_steps hsteps' (h.not_isAbsolute hp) _ hb
  rw [FileTree.walk_append_of_eq_ok hreturn, hwalk]

end Respelling

/-! Candidates. -/

section Candidates

theorem IsStem.exists_cons {name stem ending : List Char} (h : IsStem stem)
    (hname : name = stem ++ ending) (ending' : List Char) :
    ∃ c rest, stem ++ ending' = c :: rest ∧ (c = 'd' ∨ ∃ rest', name = c :: rest') := by
  obtain ⟨c, rest, rfl⟩ := List.exists_cons_of_ne_nil h.1
  exact ⟨c, rest ++ ending', rfl, .inr ⟨rest ++ ending, hname⟩⟩

/--
Candidates begin with a letter of their own, or as the name of the problem.
-/
theorem exists_cons_of_suggests {name candidate : List Char} {k : Nat}
    (h : Suggests name k candidate) :
    ∃ c rest, candidate = c :: rest ∧ (c = 'd' ∨ ∃ rest', name = c :: rest') := by
  cases h with
  | plain => exact ⟨'d', _, rfl, .inl rfl⟩
  | series h _ _ hname => exact h.exists_cons hname _
  | problem h hname => exact h.exists_cons hname _
  | after h hname => exact h.exists_cons hname _
  | before => exact ⟨'d', _, rfl, .inl rfl⟩
  | numbered => exact ⟨'d', _, rfl, .inl rfl⟩

theorem encode_ofList_ne_nil {cs : List Char} (h : cs ≠ []) : encode (String.ofList cs) ≠ [] := by
  intro hnil
  have hempty : encode "" = [] := by
    decide
  have hdecode : decode? (encode (String.ofList cs)) = decode? (encode "") := by
    rw [hnil, hempty]
  rw [decode?_encode, decode?_encode, Option.some.injEq] at hdecode
  exact h (String.ofList_eq_empty_iff.mp hdecode)

theorem isAbsolute_cons (c : Char) (rest : List Char) :
    (ofString (String.ofList (c :: rest))).IsAbsolute
      ↔ (ofString (String.ofList [c])).IsAbsolute := by
  have hc : encode (String.ofList [c]) ≠ [] := encode_ofList_ne_nil (List.cons_ne_nil c [])
  rw [← List.singleton_append, String.ofList_append, IsAbsolute, ofString, encode_append,
    List.head?_append_of_ne_nil _ hc]
  rfl

theorem not_isAbsolute_of_suggests {name candidate : List Char} {k : Nat}
    (h : Suggests name k candidate) (hname : ¬ (ofString (String.ofList name)).IsAbsolute) :
    ¬ (ofString (String.ofList candidate)).IsAbsolute := by
  obtain ⟨c, rest, rfl, rfl | ⟨rest', rfl⟩⟩ := exists_cons_of_suggests h
  . rw [isAbsolute_cons]
    decide
  . rw [isAbsolute_cons] at hname ⊢
    exact hname

theorem candidates_alike {names : List (List Char)}
    (h : List.Forall₂ (LookAlike t) (directories p) (directories q))
    (hnames : ∀ name ∈ names, ¬ (ofString (String.ofList name)).IsAbsolute ∧ name ≠ []) :
    List.Forall₂ (fun a b => t.locate a = t.locate b) (candidates p names)
      (candidates q names) := by
  induction names with
  | nil => exact .nil
  | cons name names ih =>
    rw [List.forall_mem_cons] at hnames
    refine List.rel_append ?_ (ih hnames.2)
    rw [List.forall₂_map_left_iff, List.forall₂_map_right_iff]
    exact h.imp fun _ _ halike => halike _ hnames.1.1 (encode_ofList_ne_nil hnames.1.2)

theorem find?_agree {ps qs : List Path} (e : SearchError)
    (h : List.Forall₂ (fun a b => t.locate a = t.locate b) ps qs) :
    Outcome.Agree (fun a b => t.locate a = t.locate b)
      ((ps.find? t.reaches).elim (.error e) .ok) ((qs.find? t.reaches).elim (.error e) .ok) := by
  induction h with
  | nil => exact rfl
  | @cons a b ps qs hab _ ih =>
    have hreaches : t.reaches a = t.reaches b := by
      rw [FileTree.reaches, FileTree.reaches, hab]
    rw [List.find?_cons, List.find?_cons, hreaches]
    cases t.reaches b with
    | true => exact hab
    | false => exact ih

theorem not_isAbsolute_of_fileName? (h : p.fileName? = some n) : ¬ IsAbsolute ⟨n⟩ := by
  obtain ⟨front, hsteps, -⟩ := fileName?_eq_some_iff.mp h
  intro habsolute
  have hslash : slash ∉ n := slash_not_mem_of_mem_steps (p := p) (by simp [hsteps])
  exact hslash (List.mem_of_head? habsolute)

theorem find_agree {name : String} (hp : p.fileName? = some (encode name))
    (hq : q.fileName? = some (encode name))
    (h : List.Forall₂ (LookAlike t) (directories p) (directories q)) :
    Outcome.Agree (fun a b => t.locate a = t.locate b) (find t.access p).run
      (find t.access q).run := by
  rw [run_find (namesFor_of_fileName? hp), run_find (namesFor_of_fileName? hq)]
  apply find?_agree
  apply candidates_alike h
  intro candidate hcandidate
  obtain ⟨k, hk⟩ := (isRanking_domainNames name.toList).mem_iff candidate |>.mp hcandidate
  constructor
  . apply not_isAbsolute_of_suggests hk
    rw [String.ofList_toList]
    exact not_isAbsolute_of_fileName? hp
  . obtain ⟨c, rest, rfl, -⟩ := exists_cons_of_suggests hk
    exact List.cons_ne_nil c rest

end Candidates

/--
The spelling makes no difference to a path that names the directory of the problem. The search goes
through this directory, the one above it and `domains` in the latter, unless the name ends with `..`
and what is taken to be above it is below it. For a path that is only a file name, the search does
not leave the current directory, and a dot or a detour that is put before the name is taken to be in
a directory above it, which is the current one or the one that the detour goes through.
-/
theorem find_respelled (t : FileTree) {p : Path} {name : String}
    (hname : p.fileName? = some (encode name)) (hp : ¬ p.IsAbsolute) :
    ∃ own, p.parent? = some own ∧
      (own.steps ≠ [] →
        (∀ q, Respells t p q →
          Outcome.Agree (fun a b => t.locate a = t.locate b) (find t.access p).run
            (find t.access q).run) ∧
        ∀ l, t.locate own = .ok l → ∃ l',
          ((∃ b, own.fileName? = some b ∧ l = l' ++ [b])
            ∨ (own.fileName? = none ∧ l = l'.dropLast)) ∧
          Searches t p [l, l', l' ++ [encode "domains"]] ∧
          ∀ q, Respells t p q → Searches t q [l, l', l' ++ [encode "domains"]]) ∧
      (own.steps = [] → t.node? t.current = some .directory →
        (p.lead = [] → Searches t p [t.current]) ∧
        (p.lead = [dot] →
          Searches t p [t.current, t.current, t.current ++ [encode "domains"]]) ∧
        Searches t ((ofString ".").join p)
          [t.current, t.current, t.current ++ [encode "domains"]] ∧
        ∀ x b, IsDetour t x b →
          Searches t ((x.join (ofString "..")).join p)
            [t.current, t.current ++ [b], t.current ++ [b] ++ [encode "domains"]]) := by
  obtain ⟨front, hsteps, hn⟩ := fileName?_eq_some_iff.mp hname
  obtain ⟨own, hown, hfront, hrelative, -⟩ := exists_parent hsteps
  refine ⟨own, hown, ?_, ?_⟩
  . intro hne
    rw [hfront] at hne
    obtain ⟨names, b, rfl⟩ := (List.eq_nil_or_concat' front).resolve_left hne
    constructor
    . intro q hq
      exact find_agree hname (hq.fileName?_eq hp hname) (hq.directories_alike hp hsteps)
    . intro l hl
      obtain ⟨l', hwalk, hb, hl'⟩ := exists_walk_of_locate hfront (hrelative hp) hl
      refine ⟨l', hl', searches_of_steps hsteps hp hwalk hb, ?_⟩
      exact fun q hq => hq.searches hp hsteps hwalk hb
  . intro hnone hcurrent
    rw [hfront] at hnone
    subst hnone
    refine ⟨?_, ?_, ?_, ?_⟩
    . exact searches_of_lead_eq_nil hsteps
    . exact fun hlead => searches_of_lead_eq_dot hsteps hlead hcurrent
    . refine searches_of_lead_eq_dot (n := encode name) ?_ (lead_dot_join hp) hcurrent
      rw [steps_join hp, hsteps]
      rfl
    . intro x b hx
      have hdetour : Respells t p ((x.join (ofString "..")).join p) := .detour hx
      have hsteps' : ((x.join (ofString "..")).join p).steps
          = x.steps ++ [[dot, dot]] ++ [encode name] := by
        rw [steps_detour_join x hp, hsteps]
        rfl
      exact searches_of_steps hsteps' (hdetour.not_isAbsolute hp)
        (FileTree.walk_steps_of_locate hx.relative hx.locate) hx.walk_back

/--
A path with the name of a directory and one without, each with a detour.
-/
theorem find_respelled_detour :
    let alone := (FileTree.empty [encode "r"]).addFile (ofString "a/domain.pddl") []
    let t := alone.addFile (ofString "domains/domain.pddl") []
    (find t.access (ofString "a/p.pddl")).run = .ok (ofString "a/domain.pddl")
      ∧ Outcome.Agree (fun a b => t.locate a = t.locate b)
        (find t.access (ofString "a/p.pddl")).run (find t.access (ofString "a/../a/p.pddl")).run
      ∧ Searches t (ofString "./a/p.pddl")
        [[encode "r", encode "a"], [encode "r"], [encode "r", encode "domains"]]
      ∧ Searches t (ofString "a/../p.pddl")
        [[encode "r"], [encode "r", encode "a"], [encode "r", encode "a", encode "domains"]] := by
  intro alone t
  have hdetour : IsDetour t (ofString "a") (encode "a") :=
    ⟨by decide, by decide +kernel, by decide +kernel⟩
  have hfound : (find t.access (ofString "a/p.pddl")).run = .ok (ofString "a/domain.pddl") := by
    decide +kernel
  have hlocate : t.locate (ofString "a") = .ok [encode "r", encode "a"] := by
    decide +kernel
  have hcurrent : t.current = [encode "r"] := by
    decide +kernel
  have hnode : t.node? t.current = some .directory := by
    decide +kernel
  -- Nothing else is needed of the tree.
  clear_value t
  have hname : (ofString "a/p.pddl").fileName? = some (encode "p.pddl") := by
    decide
  have hname' : (ofString "p.pddl").fileName? = some (encode "p.pddl") := by
    decide
  obtain ⟨own, hown, hnamed, -⟩ := find_respelled t hname (by decide)
  obtain ⟨own', hown', -, hbare⟩ := find_respelled t hname' (by decide)
  obtain rfl : ofString "a" = own := Option.some.inj (.trans (by decide) hown)
  obtain rfl : ofString "" = own' := Option.some.inj (.trans (by decide) hown')
  obtain ⟨hagree, hsearches⟩ := hnamed (by decide)
  obtain ⟨l', hl', -, hall⟩ := hsearches _ hlocate
  obtain ⟨-, -, -, hthrough⟩ := hbare (by decide) hnode
  rw [hcurrent] at hthrough
  refine ⟨hfound, hagree _ (.detour hdetour), ?_, hthrough _ _ hdetour⟩
  rcases hl' with ⟨b, -, hb⟩ | ⟨hnone, -⟩
  . have hb' : [encode "r"] ++ [encode "a"] = l' ++ [b] := hb
    obtain ⟨rfl, -⟩ := List.append_inj' hb' rfl
    exact hall _ .dot
  . exact absurd hnone (by decide)

/--
Three spellings of one path. For the first nothing is found, and for each of the others a domain in
a directory below that of the problem.
-/
theorem find_differs_by_spelling :
    let alone := (FileTree.empty [encode "r"]).addFile (ofString "a/domain.pddl") []
    let t := alone.addFile (ofString "domains/domain.pddl") []
    (find t.access (ofString "p.pddl")).run
        = .error (.notFound (["domain.pddl", "p-domain.pddl", "domain-p.pddl"].map (·.toList)))
      ∧ (find t.access (ofString "./p.pddl")).run = .ok (ofString "domains/domain.pddl")
      ∧ (find t.access (ofString "a/../p.pddl")).run = .ok (ofString "a/domain.pddl") := by
  decide +kernel

end Discovery
end PddlOutline

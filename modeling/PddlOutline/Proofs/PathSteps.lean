import Mathlib.Data.List.DropRight
import PddlOutline.Proofs.Files

/-!
This module contains the steps of a path, which are its segments without those that stay where they
are. The parent of a path has the same steps but for the last, and the steps of joined paths follow
each other, however the paths are spelled. A tree of files knows no more of a path than its steps.
-/

namespace PddlOutline

namespace Path

variable {p q : Path} {s b : List UInt8} {names segments : List (List UInt8)}

def solid (segments : List (List UInt8)) : List (List UInt8) :=
  segments.filter (!isIdle ·)

def steps (p : Path) : List (List UInt8) :=
  solid (p.bytes.splitOn slash)

@[simp]
theorem solid_nil : solid [] = [] := rfl

@[simp]
theorem solid_append (as bs : List (List UInt8)) : solid (as ++ bs) = solid as ++ solid bs :=
  List.filter_append _ _

theorem solid_cons_of_isIdle (h : isIdle s) (segments : List (List UInt8)) :
    solid (s :: segments) = solid segments :=
  List.filter_cons_of_neg (by simpa using h)

theorem solid_cons_of_not_isIdle (h : ¬ isIdle s) (segments : List (List UInt8)) :
    solid (s :: segments) = s :: solid segments :=
  List.filter_cons_of_pos (by simpa using h)

theorem not_isIdle_of_mem_steps (h : s ∈ p.steps) : ¬ isIdle s := by
  simpa using (List.mem_filter.mp h).2

@[simp]
theorem steps_nil : steps ⟨[]⟩ = [] := by
  decide

theorem steps_append_slash (as bs : List UInt8) :
    steps ⟨as ++ slash :: bs⟩ = steps ⟨as⟩ ++ steps ⟨bs⟩ := by
  rw [steps, List.splitOn_append_cons_self, solid_append]
  rfl

/-! Segments have no slashes. -/

theorem slash_not_mem_of_mem_splitOn {bytes : List UInt8} (h : s ∈ bytes.splitOn slash) :
    slash ∉ s := by
  induction bytes generalizing s with
  | nil =>
    rw [List.splitOn_nil, List.mem_singleton] at h
    rw [h]
    exact List.not_mem_nil
  | cons c bytes ih =>
    rw [List.splitOn_cons_eq_if_modifyHead] at h
    split at h
    next =>
      rcases List.mem_cons.mp h with rfl | h
      . exact List.not_mem_nil
      . exact ih h
    next hc =>
      obtain ⟨first, rest, hsplit⟩ := List.exists_cons_of_ne_nil (List.splitOn_ne_nil slash bytes)
      rw [hsplit, List.modifyHead_cons, List.mem_cons] at h
      rw [hsplit] at ih
      rcases h with rfl | h
      . rw [List.mem_cons, not_or]
        refine ⟨?_, ih List.mem_cons_self⟩
        rintro rfl
        exact hc (beq_self_eq_true _)
      . exact ih (List.mem_cons_of_mem _ h)

theorem slash_not_mem_of_mem_steps (h : s ∈ p.steps) : slash ∉ s :=
  slash_not_mem_of_mem_splitOn (List.mem_of_mem_filter h)

theorem steps_intercalate (h : ∀ s ∈ segments, slash ∉ s) :
    steps ⟨[slash].intercalate segments⟩ = solid segments := by
  by_cases hne : segments = []
  . rw [hne]
    exact steps_nil
  . rw [steps, List.splitOn_intercalate slash h hne]

/-! What a path begins with. -/

theorem lead_cases (p : Path) :
    p.lead = [slash] ∨ (p.lead = [dot] ∧ p.segments.head? = some []) ∨ p.lead = [] := by
  cases hbytes : p.bytes with
  | nil =>
    refine .inr (.inr ?_)
    rw [lead, hbytes]
  | cons c rest =>
    by_cases hslash : c = slash
    . refine .inl ?_
      simp only [lead, hbytes, if_pos hslash]
    . by_cases hdot : c = dot ∧ (rest = [] ∨ rest.head? = some slash)
      . have hlead : p.lead = [dot] := by
          simp only [lead, hbytes, if_neg hslash, if_pos hdot]
        refine .inr (.inl ⟨hlead, ?_⟩)
        rw [segments, hbytes, hlead]
        rcases hdot.2 with rfl | hhead
        . rfl
        . obtain ⟨rest', rfl⟩ := List.head?_eq_some_iff.mp hhead
          show ((slash :: rest').splitOn slash).head? = some []
          rw [List.splitOn_cons_eq_if_modifyHead, if_pos (beq_self_eq_true _), List.head?_cons]
      . refine .inr (.inr ?_)
        simp only [lead, hbytes, if_neg hslash, if_neg hdot]

theorem lead_isPrefix (p : Path) : p.lead <+: p.bytes := by
  cases hbytes : p.bytes with
  | nil =>
    have hlead : p.lead = [] := by
      rw [lead, hbytes]
    exact hlead.symm ▸ List.nil_prefix
  | cons c rest =>
    simp only [lead, hbytes]
    split
    next hslash => exact hslash ▸ ⟨rest, rfl⟩
    next =>
      split
      next hdot => exact hdot.1 ▸ ⟨rest, rfl⟩
      next => exact List.nil_prefix

theorem ofSegments_segments (p : Path) : ofSegments p.lead p.segments = p := by
  rw [ofSegments, segments, List.intercalate_splitOn, List.prefix_iff_eq_append.mp p.lead_isPrefix]

/--
What the first segments of a path leave of it.
-/
theorem steps_ofSegments (h : names <+: p.segments) :
    (ofSegments p.lead names).steps = solid names := by
  have hslash : ∀ s ∈ names, slash ∉ s := fun s hs =>
    slash_not_mem_of_mem_splitOn (h.subset hs)
  have hnames : steps ⟨[slash].intercalate names⟩ = solid names := steps_intercalate hslash
  rcases p.lead_cases with hlead | ⟨hlead, hhead⟩ | hlead
  . rw [hlead, ofSegments, ← hnames]
    exact steps_append_slash [] _
  . -- Behind the dot is a slash, before which the first segment is empty.
    rw [hlead, ofSegments]
    obtain ⟨rest, hrest⟩ := h
    match names with
    | [] => decide
    | [s] =>
      rw [← hrest] at hhead
      obtain rfl : s = [] := Option.some.inj hhead
      decide
    | s :: s' :: names =>
      rw [← hrest] at hhead
      obtain rfl : s = [] := Option.some.inj hhead
      rw [← hnames, List.intercalate_cons_cons]
      exact (steps_append_slash [dot] _).trans (steps_append_slash [] _).symm
  . rw [hlead, ofSegments, List.nil_append, hnames]

theorem steps_eq (p : Path) : p.steps = solid p.segments := by
  rw [← steps_ofSegments (List.prefix_refl p.segments), ofSegments_segments]

theorem intercalate_isPrefix (h : names <+: segments) :
    [slash].intercalate names <+: [slash].intercalate segments := by
  induction names generalizing segments with
  | nil => exact List.nil_prefix
  | cons s names ih =>
    obtain ⟨rest, rfl⟩ := h
    cases names with
    | nil =>
      cases rest with
      | nil => exact List.prefix_refl _
      | cons s' rest =>
        rw [List.intercalate_singleton, List.cons_append, List.nil_append,
          List.intercalate_cons_cons, List.append_assoc]
        exact List.prefix_append _ _
    | cons s' names =>
      rw [List.cons_append, List.cons_append, List.intercalate_cons_cons,
        List.intercalate_cons_cons, List.append_assoc, List.append_assoc,
        List.prefix_append_right_inj, List.prefix_append_right_inj]
      exact ih (List.prefix_append (s' :: names) rest)

theorem IsAbsolute.of_isPrefix (h : q.IsAbsolute) (hq : q.bytes <+: p.bytes) :
    p.IsAbsolute := by
  obtain ⟨rest, hrest⟩ := List.head?_eq_some_iff.mp h
  obtain ⟨rest', hp⟩ := hq
  rw [IsAbsolute, ← hp, hrest]
  rfl

theorem not_isAbsolute_ofSegments (hp : ¬ p.IsAbsolute) (h : names <+: p.segments) :
    ¬ (ofSegments p.lead names).IsAbsolute := by
  intro habsolute
  refine hp (habsolute.of_isPrefix ?_)
  conv_rhs => rw [← p.ofSegments_segments]
  exact (List.prefix_append_right_inj _).mpr (intercalate_isPrefix h)

/-! The last step of a path. -/

theorem trimEnd_isPrefix (segments : List (List UInt8)) : trimEnd segments <+: segments :=
  List.rdropWhile_prefix isIdle segments

theorem trimEnd_cases (segments : List (List UInt8)) :
    (trimEnd segments = [] ∧ solid segments = []) ∨
      ∃ front s, trimEnd segments = front ++ [s] ∧ ¬ isIdle s
        ∧ solid segments = solid front ++ [s] := by
  induction segments using List.reverseRecOn with
  | nil => exact .inl ⟨rfl, rfl⟩
  | append_singleton front s ih =>
    by_cases hs : isIdle s
    . have htrim : trimEnd (front ++ [s]) = trimEnd front := List.rdropWhile_concat_pos _ _ _ hs
      rw [htrim, solid_append, solid_cons_of_isIdle hs, solid_nil, List.append_nil]
      exact ih
    . refine .inr ⟨front, s, List.rdropWhile_concat_neg _ _ _ hs, hs, ?_⟩
      rw [solid_append, solid_cons_of_not_isIdle hs, solid_nil]

theorem solid_trimEnd (segments : List (List UInt8)) :
    solid (trimEnd segments) = solid segments := by
  rcases trimEnd_cases segments with ⟨htrim, hsolid⟩ | ⟨front, s, htrim, hs, hsolid⟩
  . rw [htrim, hsolid, solid_nil]
  . rw [htrim, hsolid, solid_append, solid_cons_of_not_isIdle hs, solid_nil]

theorem fileName?_eq_some_iff :
    p.fileName? = some s ↔ ∃ front, p.steps = front ++ [s] ∧ ¬ isUp s := by
  rw [steps_eq, fileName?]
  rcases trimEnd_cases p.segments with ⟨htrim, hsolid⟩ | ⟨front, s', htrim, _, hsolid⟩
  . rw [htrim, hsolid]
    simp
  . rw [htrim, hsolid, List.getLast?_concat]
    show (if isUp s' then none else some s') = some s ↔ _
    constructor
    . intro h
      by_cases hup : isUp s'
      . rw [if_pos hup] at h
        cases h
      . rw [if_neg hup] at h
        cases h
        exact ⟨solid front, rfl, hup⟩
    . rintro ⟨front', heq, hup⟩
      obtain ⟨-, hs⟩ := List.append_inj' heq rfl
      cases hs
      exact if_neg hup

theorem fileName?_eq_none_of_isUp (h : p.steps = names ++ [b]) (hb : isUp b) :
    p.fileName? = none := by
  by_contra hne
  obtain ⟨s, hs⟩ := Option.ne_none_iff_exists'.mp hne
  obtain ⟨front, hsteps, hup⟩ := fileName?_eq_some_iff.mp hs
  obtain ⟨-, heq⟩ := List.append_inj' (h.symm.trans hsteps) rfl
  cases heq
  exact hup hb

/--
A path with a last step has a parent. What is left of a path without others is what it begins with.
-/
theorem exists_parent (h : p.steps = names ++ [b]) :
    ∃ above, p.parent? = some above ∧ above.steps = names
      ∧ (¬ p.IsAbsolute → ¬ above.IsAbsolute) ∧ (names = [] → above.bytes = p.lead) := by
  rw [steps_eq] at h
  rcases trimEnd_cases p.segments with ⟨_, hsolid⟩ | ⟨front, s, htrim, _, hsolid⟩
  . rw [hsolid] at h
    simp at h
  . obtain ⟨rfl, -⟩ := List.append_inj' (hsolid.symm.trans h) rfl
    have hfront : trimEnd front <+: p.segments := by
      refine (trimEnd_isPrefix front).trans ?_
      refine .trans ?_ (trimEnd_isPrefix p.segments)
      rw [htrim]
      exact List.prefix_append _ _
    refine ⟨ofSegments p.lead (trimEnd front), ?_, ?_, ?_, ?_⟩
    . have hcons : front ++ [s] ≠ [] := List.concat_ne_nil s front
      rw [parent?, htrim]
      split
      next h => exact absurd h hcons
      next s' rest h => rw [← h, List.dropLast_concat]
    . rw [steps_ofSegments hfront, solid_trimEnd]
    . exact fun hp => not_isAbsolute_ofSegments hp hfront
    . intro hnone
      rcases trimEnd_cases front with ⟨htrim', _⟩ | ⟨_, _, _, _, hsolid'⟩
      . rw [htrim']
        exact List.append_nil _
      . simp [hnone] at hsolid'

/-! Joined paths. -/

theorem splitOn_join (hq : ¬ q.IsAbsolute) :
    ∃ names, (p.join q).bytes.splitOn slash = names ++ q.bytes.splitOn slash
      ∧ solid names = p.steps := by
  have hhead : ¬ q.bytes.head? = some slash := hq
  rw [join, if_neg hhead]
  split
  next h =>
    rcases h with hnone | hlast
    . refine ⟨[], ?_, ?_⟩
      . rw [hnone]
        rfl
      . rw [steps, hnone]
        rfl
    . obtain ⟨front, hfront⟩ := List.getLast?_eq_some_iff.mp hlast
      refine ⟨front.splitOn slash, ?_, ?_⟩
      . rw [hfront, List.append_assoc, List.singleton_append, List.splitOn_append_cons_self]
      . rw [steps, hfront, List.splitOn_append_cons_self]
        simp [solid, isIdle]
  next =>
    refine ⟨p.bytes.splitOn slash, ?_, rfl⟩
    rw [List.splitOn_append_cons_self]

theorem steps_join (hq : ¬ q.IsAbsolute) : (p.join q).steps = p.steps ++ q.steps := by
  obtain ⟨names, hsplit, hnames⟩ := p.splitOn_join hq
  rw [steps, hsplit, solid_append, hnames]
  rfl

theorem not_isAbsolute_join (hp : ¬ p.IsAbsolute) (hq : ¬ q.IsAbsolute) :
    ¬ (p.join q).IsAbsolute := by
  have hhead : ¬ q.bytes.head? = some slash := hq
  cases hbytes : p.bytes with
  | nil =>
    rw [join, if_neg hhead, if_pos (.inl hbytes), hbytes]
    exact hq
  | cons c rest =>
    rw [IsAbsolute, hbytes] at hp
    rw [join, if_neg hhead, hbytes]
    split
    next => exact hp
    next => exact hp

theorem join_bytes_ne_nil (hne : q.bytes ≠ []) : (p.join q).bytes ≠ [] := by
  unfold join
  split
  next => exact hne
  next =>
    split
    next => exact List.append_ne_nil_of_right_ne_nil _ hne
    next => exact List.append_ne_nil_of_right_ne_nil _ (List.cons_ne_nil _ _)

end Path

namespace FileTree

open PddlOutline.Path

variable {t : FileTree} {l l' : Location} {name : List UInt8} {names behind : List (List UInt8)}
  {p q : Path}

/-! Walks that go on. -/

theorem walk_append (t : FileTree) (l : Location) (names behind : List (List UInt8)) :
    t.walk l (names ++ behind) = t.walk l names >>= (t.walk · behind) := by
  induction names generalizing l with
  | nil => rfl
  | cons name names ih =>
    rw [List.cons_append, walk, walk]
    cases t.node? l with
    | none => rfl
    | some node =>
      cases node with
      | file content => rfl
      | directory =>
        simp only
        split
        next => exact ih l
        next =>
          split
          next => exact ih l.dropLast
          next =>
            split
            next => exact ih (l ++ [name])
            next => rfl

theorem walk_cons (t : FileTree) (l : Location) (name : List UInt8) (names : List (List UInt8)) :
    t.walk l (name :: names) = t.walk l [name] >>= (t.walk · names) :=
  t.walk_append l [name] names

theorem walk_append_of_eq_ok (h : t.walk l names = .ok l') (behind : List (List UInt8)) :
    t.walk l (names ++ behind) = t.walk l' behind := by
  rw [walk_append, h]
  rfl

theorem node?_of_walk_cons (h : t.walk l (name :: names) = .ok l') :
    t.node? l = some .directory := by
  rw [walk] at h
  split at h
  next => cases h
  next => cases h
  next hnode => exact hnode

theorem walk_cons_of_isIdle (hname : isIdle name) (hl : t.node? l = some .directory)
    (names : List (List UInt8)) : t.walk l (name :: names) = t.walk l names := by
  simp only [walk, hl, if_pos hname]

theorem walk_cons_of_isUp (hname : isUp name) (hl : t.node? l = some .directory)
    (names : List (List UInt8)) : t.walk l (name :: names) = t.walk l.dropLast names := by
  obtain rfl : name = [dot, dot] := by simpa [isUp] using hname
  simp only [walk, hl]
  rfl

/--
What does not exist is found out with the next step, if not with the step to it.
-/
theorem walk_cons_of_child (hidle : ¬ isIdle name) (hup : ¬ isUp name)
    (hl : t.node? l = some .directory) (hne : names ≠ []) :
    t.walk l (name :: names) = t.walk (l ++ [name]) names := by
  simp only [walk, hl, if_neg hidle, if_neg hup]
  cases hnode : t.node? (l ++ [name]) with
  | none =>
    obtain ⟨name', names', rfl⟩ := List.exists_cons_of_ne_nil hne
    rw [walk, hnode]
    rfl
  | some node => rfl

theorem cases_of_walk_singleton (hidle : ¬ isIdle name) (h : t.walk l [name] = .ok l') :
    (isUp name ∧ l' = l.dropLast) ∨ (¬ isUp name ∧ l' = l ++ [name]) := by
  have hl := node?_of_walk_cons h
  by_cases hup : isUp name
  . rw [walk_cons_of_isUp hup hl, walk, Except.ok.injEq] at h
    exact .inl ⟨hup, h.symm⟩
  . simp only [walk, hl, if_neg hidle, if_neg hup] at h
    split at h
    next => exact .inr ⟨hup, (Except.ok.inj h).symm⟩
    next => cases h

/-! Segments that stay where they are make no difference, unless a walk ends with them. -/

theorem walk_cons_isIdle_append (hname : isIdle name) (hne : behind ≠ []) :
    t.walk l (name :: behind) = t.walk l behind := by
  obtain ⟨name', behind, rfl⟩ := List.exists_cons_of_ne_nil hne
  cases hl : t.node? l with
  | none => simp only [walk, hl]
  | some node =>
    cases node with
    | file content => simp only [walk, hl]
    | directory => exact walk_cons_of_isIdle hname hl _

theorem walk_solid_append (hne : behind ≠ []) (l : Location) (names : List (List UInt8)) :
    t.walk l (solid names ++ behind) = t.walk l (names ++ behind) := by
  induction names generalizing l with
  | nil => rfl
  | cons name names ih =>
    by_cases hname : isIdle name
    . rw [solid_cons_of_isIdle hname, ih, List.cons_append,
        walk_cons_isIdle_append hname (List.append_ne_nil_of_right_ne_nil names hne)]
    . rw [solid_cons_of_not_isIdle hname, List.cons_append, List.cons_append,
        walk_cons t l name (solid names ++ behind), walk_cons t l name (names ++ behind)]
      simp only [ih]

theorem walk_solid_of_eq_ok (h : t.walk l names = .ok l') :
    t.walk l (solid names) = .ok l' := by
  induction names generalizing l with
  | nil => exact h
  | cons name names ih =>
    by_cases hname : isIdle name
    . rw [walk_cons_of_isIdle hname (node?_of_walk_cons h)] at h
      rw [solid_cons_of_isIdle hname, ih h]
    . rw [walk_cons, Outcome.bind_eq_ok] at h
      obtain ⟨l₁, hstep, hrest⟩ := h
      rw [solid_cons_of_not_isIdle hname, walk_cons, hstep]
      exact ih hrest

/-! Where relative paths lead. -/

theorem walk_with_current (t : FileTree) (l₀ l : Location) (names : List (List UInt8)) :
    walk { t with current := l₀ } l names = t.walk l names := by
  induction names generalizing l with
  | nil => rfl
  | cons name names ih =>
    rw [walk, walk]
    simp only [ih]
    rfl

theorem locate_of_not_isAbsolute (hp : ¬ p.IsAbsolute) (hne : p.bytes ≠ []) :
    t.locate p = t.walk t.current (p.bytes.splitOn slash) := by
  have hhead : ¬ p.bytes.head? = some slash := hp
  rw [locate, if_neg hne, if_neg hhead]

theorem walk_steps_of_locate (hp : ¬ p.IsAbsolute) (h : t.locate p = .ok l) :
    t.walk t.current p.steps = .ok l := by
  have hne : p.bytes ≠ [] := by
    intro hnone
    rw [locate, if_pos hnone] at h
    cases h
  rw [locate_of_not_isAbsolute hp hne] at h
  exact walk_solid_of_eq_ok h

theorem locate_join (hp : ¬ p.IsAbsolute) (hq : ¬ q.IsAbsolute) (hne : q.bytes ≠ []) :
    t.locate (p.join q) = t.walk t.current (p.steps ++ q.bytes.splitOn slash) := by
  obtain ⟨names, hsplit, hnames⟩ := p.splitOn_join hq
  rw [locate_of_not_isAbsolute (not_isAbsolute_join hp hq) (join_bytes_ne_nil hne), hsplit,
    ← hnames, walk_solid_append (List.splitOn_ne_nil slash q.bytes)]

end FileTree
end PddlOutline

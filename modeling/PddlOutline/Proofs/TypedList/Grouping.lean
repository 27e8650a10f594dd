import PddlOutline.Proofs.NameMap
import PddlOutline.Proofs.TypedList.Splitting

/-!
This module contains how the groups of a typed list are sorted into their types. No name is lost or
made up, the types are in the order in which they came first, and so are the names of each type.
-/

namespace PddlOutline

namespace Token

/--
The tokens that are no separator and stand behind none.
-/
def nameTokens (ts : List Token) : List Token :=
  go false ts
where
  go (behind : Bool) (ts : List Token) : List Token :=
    ((ts.zip (behind :: ts.map isSeparator)).filter fun (t, behind) =>
      !t.isSeparator && !behind).map Prod.fst

variable {t : Token}

theorem nameTokens.go_separator (ht : t.isSeparator) (behind : Bool) (ts : List Token) :
    go behind (t :: ts) = go true ts := by
  simp [go, ht]

theorem nameTokens.go_type (ht : ¬ t.isSeparator) (ts : List Token) :
    go true (t :: ts) = go false ts := by
  simp [go, ht]

theorem nameTokens.go_name (ht : ¬ t.isSeparator) (ts : List Token) :
    go false (t :: ts) = t :: go false ts := by
  simp [go, ht]

end Token

namespace TypedGroup

/--
The type under which the names of a group are filed.
-/
def typeName (g : TypedGroup) : String :=
  (g.type.map Token.symbol).getD TypedList.defaultType

/--
The names of all groups of a type.
-/
def bucket (groups : List TypedGroup) (type : String) : List String :=
  (groups.filter (·.typeName = type)).flatMap fun g => g.names.map Token.symbol

variable {ts : List Token} {groups : List TypedGroup} {g : TypedGroup} {type : String}

theorem bucket_append_singleton (groups : List TypedGroup) (g : TypedGroup) (type : String) :
    bucket (groups ++ [g]) type
      =
    bucket groups type ++ if g.typeName = type then g.names.map Token.symbol else [] := by
  rw [bucket, List.filter_append, List.flatMap_append, List.filter_singleton]
  by_cases htype : g.typeName = type
  . simp [bucket, htype]
  . simp [bucket, htype]

theorem bucket_eq_nil (h : type ∉ groups.map typeName) : bucket groups type = [] := by
  rw [bucket, List.filter_eq_nil_iff.mpr, List.flatMap_nil]
  intro g hg htype
  exact h (List.mem_map.mpr ⟨g, hg, of_decide_eq_true htype⟩)

theorem flatMap_names_of_ofTokens (h : ofTokens ts = .ok groups) :
    groups.flatMap names = Token.nameTokens ts := by
  rw [Token.nameTokens]
  fun_induction ofTokens ts generalizing groups with
  | case1 =>
    cases h
    rfl
  | case2 => cases h
  | case3 => cases h
  | case4 s hs type ts htype ih =>
    obtain ⟨groups, hgroups, rfl⟩ := Outcome.map_eq_ok.mp h
    rw [Token.nameTokens.go_separator hs, Token.nameTokens.go_type htype, ← ih hgroups]
    rfl
  | case5 t ts ht ih =>
    obtain ⟨groups, hgroups, rfl⟩ := Outcome.map_eq_ok.mp h
    rw [flatMap_consName (fun _ _ => rfl) rfl, Token.nameTokens.go_name ht, ih hgroups]

theorem length_of_ofTokens (h : ofTokens ts = .ok groups) :
    (groups.flatMap names).length + 2 * ts.countP Token.isSeparator = ts.length := by
  fun_induction ofTokens ts generalizing groups with
  | case1 =>
    cases h
    rfl
  | case2 => cases h
  | case3 => cases h
  | case4 s hs type ts htype ih =>
    obtain ⟨groups, hgroups, rfl⟩ := Outcome.map_eq_ok.mp h
    have := ih hgroups
    rw [List.countP_cons_of_pos hs, List.countP_cons_of_neg htype, List.flatMap_cons,
      List.nil_append, List.length_cons, List.length_cons]
    omega
  | case5 t ts ht ih =>
    obtain ⟨groups, hgroups, rfl⟩ := Outcome.map_eq_ok.mp h
    have := ih hgroups
    rw [List.countP_cons_of_neg ht, flatMap_consName (fun _ _ => rfl) rfl, List.length_cons,
      List.length_cons]
    omega

/--
A list without separators is one group.
-/
theorem exists_of_forall_not_isSeparator (h : ∀ t ∈ ts, ¬ t.isSeparator) :
    ∃ groups, ofTokens ts = .ok groups ∧ groups.flatMap names = ts := by
  cases ts with
  | nil => exact ⟨[], rfl, rfl⟩
  | cons t ts => exact ⟨_, ofTokens_untyped h (List.cons_ne_nil t ts), by simp⟩

end TypedGroup

namespace TypedList

variable {ts : List Token} {groups : List TypedGroup} {l : TypedList}

theorem foldl_addGroup_eq_collect (groups : List TypedGroup) :
    groups.foldl addGroup .empty
      =
    NameMap.collect TypedGroup.typeName
      (fun g names => names.getD [] ++ g.names.map Token.symbol) groups := rfl

theorem get?_foldl_addGroup (groups : List TypedGroup) (type : String) :
    (groups.foldl addGroup .empty).get? type
      =
    if type ∈ groups.map TypedGroup.typeName then
      some (TypedGroup.bucket groups type)
    else
      none := by
  induction groups using List.reverseRecOn generalizing type with
  | nil => rfl
  | append_singleton groups g ih =>
    have hfound : ((groups.foldl addGroup .empty).get? type).getD []
        = TypedGroup.bucket groups type := by
      rw [ih]
      split
      . rfl
      next htype => exact (TypedGroup.bucket_eq_nil htype).symm
    rw [foldl_addGroup_eq_collect] at hfound ih
    rw [foldl_addGroup_eq_collect, NameMap.collect_append_singleton, NameMap.get?_alter,
      TypedGroup.bucket_append_singleton, List.map_append]
    by_cases htype : type = g.typeName
    . subst htype
      rw [hfound]
      simp
    . simp [htype, Ne.symm htype, ih]

theorem entries_foldl_addGroup (groups : List TypedGroup) :
    (groups.foldl addGroup .empty).entries
      =
    (groups.map TypedGroup.typeName).eraseDups.map
      fun type => (type, TypedGroup.bucket groups type) := by
  rw [NameMap.entries_eq _ [], foldl_addGroup_eq_collect, NameMap.keys_collect,
    ← foldl_addGroup_eq_collect]
  apply List.map_congr_left
  intro type htype
  rw [get?_foldl_addGroup, if_pos (List.mem_eraseDups.mp htype)]
  rfl

theorem ofTokens_eq_error_iff {e : ReadError} :
    ofTokens ts = .error e ↔ TypedGroup.ofTokens ts = .error e := by
  rw [ofTokens]
  split
  . exact Outcome.map_eq_error
  next hsep =>
    have hnone : ∀ t ∈ ts, ¬ t.isSeparator := by simpa using hsep
    obtain ⟨groups, hgroups, _⟩ := TypedGroup.exists_of_forall_not_isSeparator hnone
    simp [hgroups]

/--
What is made of the groups of a list, with or without types.
-/
theorem exists_of_ofTokens (h : ofTokens ts = .ok l) :
    ∃ groups, TypedGroup.ofTokens ts = .ok groups
      ∧ l.names.Perm ((groups.flatMap TypedGroup.names).map Token.symbol) := by
  rw [ofTokens] at h
  split at h
  . obtain ⟨groups, hgroups, rfl⟩ := Outcome.map_eq_ok.mp h
    exact ⟨groups, hgroups, names_foldl_addGroup_perm groups .empty⟩
  next hsep =>
    cases h
    have hnone : ∀ t ∈ ts, ¬ t.isSeparator := by simpa using hsep
    obtain ⟨groups, hgroups, hnames⟩ := TypedGroup.exists_of_forall_not_isSeparator hnone
    exact ⟨groups, hgroups, by rw [hnames]; rfl⟩

end TypedList

/--
A typed list is refused as its groups are. Without a `-` it is kept as it is, and else its names are
filed under their types, an absent type and `object` being the same.
-/
theorem typed_list_grouped (ts : List Token) :
    (∀ e, TypedList.ofTokens ts = .error e ↔ TypedGroup.ofTokens ts = .error e)
    ∧ ∀ l, TypedList.ofTokens ts = .ok l →
      ((∀ t ∈ ts, ¬ t.isSeparator) → l = .flat (ts.map Token.symbol))
      ∧ ((∃ t ∈ ts, t.isSeparator) →
        ∃ groups types, TypedGroup.ofTokens ts = .ok groups ∧ l = .grouped types
          ∧ types.entries = (groups.map TypedGroup.typeName).eraseDups.map
            (fun type => (type, TypedGroup.bucket groups type))
          ∧ ∀ type, l.ofType? type = if type ∈ groups.map TypedGroup.typeName then
            some (TypedGroup.bucket groups type) else none)
      ∧ l.size + 2 * ts.countP Token.isSeparator = ts.length
      ∧ l.names.Perm ((Token.nameTokens ts).map Token.symbol) := by
  refine ⟨fun e => TypedList.ofTokens_eq_error_iff, ?_⟩
  intro l h
  obtain ⟨groups, hgroups, hnames⟩ := TypedList.exists_of_ofTokens h
  refine ⟨?_, ?_, ?_, ?_⟩
  . intro hnone
    rw [TypedList.ofTokens, if_neg (by simpa using hnone), Except.ok.injEq] at h
    exact h.symm
  . intro hsome
    rw [TypedList.ofTokens, if_pos (by simpa using hsome), hgroups] at h
    cases h
    exact ⟨groups, _, hgroups, rfl, TypedList.entries_foldl_addGroup groups,
      TypedList.get?_foldl_addGroup groups⟩
  . rw [TypedList.size, hnames.length_eq, List.length_map]
    exact TypedGroup.length_of_ofTokens hgroups
  . rwa [TypedGroup.flatMap_names_of_ofTokens hgroups] at hnames

/--
A type that comes again, and names that are objects by a type or for want of one.
-/
theorem typed_list_grouped_objects :
    let tokens := ["a", "-", "t", "b", "-", "object", "c", "-", "t", "d"].map Token.ofString
    let l : TypedList := .grouped ⟨[("t", ["a", "c"]), ("object", ["b", "d"])], by decide⟩
    let flat := ["a", "b"].map Token.ofString
    TypedList.ofTokens tokens = .ok l
      ∧ (∃ groups types, TypedGroup.ofTokens tokens = .ok groups ∧ l = .grouped types
        ∧ types.entries = (groups.map TypedGroup.typeName).eraseDups.map
          fun type => (type, TypedGroup.bucket groups type))
      ∧ l.size + 2 * 3 = 10
      ∧ l.names.Perm ["a", "b", "c", "d"]
      ∧ TypedList.ofTokens flat = .ok (.flat ["a", "b"])
      ∧ TypedList.flat ["a", "b"] = .flat (flat.map Token.symbol) := by
  intro tokens l flat
  have hok : TypedList.ofTokens tokens = .ok l := by
    decide +kernel
  have hflat : TypedList.ofTokens flat = .ok (.flat ["a", "b"]) := by
    decide +kernel
  obtain ⟨_, hgrouped, hsize, hnames⟩ := (typed_list_grouped tokens).2 l hok
  obtain ⟨groups, types, hgroups, hl, hentries, _⟩ := hgrouped ⟨.ofString "-", by decide⟩
  have hkept := ((typed_list_grouped flat).2 _ hflat).1 (by decide)
  exact ⟨hok, ⟨groups, types, hgroups, hl, hentries⟩, hsize, hnames, hflat, hkept⟩

end PddlOutline

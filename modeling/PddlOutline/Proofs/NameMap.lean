import Mathlib.Data.List.Induction
import PddlOutline.NameMap

/-!
This module contains maps that are made of a list, every member of which is filed under its name.
The names are in the order in which they came first. What is found under a name is made of all
members of this name, or is the last of them.
-/

namespace PddlOutline
namespace NameMap

variable {α β : Type} (name : α → String) (f : α → Option β → β)

/--
Members of the same name are put together by `f`.
-/
def collect (as : List α) : NameMap β :=
  as.foldl (fun m a => m.alter (name a) (f a)) .empty

theorem collect_append_singleton (as : List α) (a : α) :
    collect name f (as ++ [a]) = (collect name f as).alter (name a) (f a) := by
  rw [collect, List.foldl_append]
  rfl

theorem keys_collect (as : List α) : (collect name f as).keys = (as.map name).eraseDups := by
  induction as using List.reverseRecOn with
  | nil => rfl
  | append_singleton as a ih =>
    rw [collect_append_singleton, keys_alter, ih, List.map_append, List.eraseDups_append]
    simp only [List.mem_eraseDups, List.map_cons, List.map_nil]
    generalize as.map name = names
    by_cases hname : name a ∈ names
    . rw [if_pos hname, List.removeAll, List.filter_cons_of_neg (by simpa using hname)]
      simp
    . rw [if_neg hname, List.removeAll, List.filter_cons_of_pos (by simpa using hname)]
      rfl

theorem entries_eq (m : NameMap α) (a : α) :
    m.entries = m.keys.map fun key => (key, (m.get? key).getD a) := by
  obtain ⟨entries, hnodup⟩ := m
  show entries = (entries.map Prod.fst).map fun key => (key, (entries.lookup key).getD a)
  induction entries with
  | nil => rfl
  | cons entry entries ih =>
    rw [List.map_cons, List.nodup_cons] at hnodup
    rw [List.map_cons, List.map_cons, List.lookup_cons_self, Option.getD_some]
    conv_lhs => rw [ih hnodup.2]
    congr 1
    apply List.map_congr_left
    intro key hkey
    have hne : (key == entry.1) = false := by
      rw [beq_eq_false_iff_ne]
      rintro rfl
      exact hnodup.1 hkey
    rw [List.lookup_cons, hne]

def ofList (as : List α) : NameMap α :=
  as.foldl (fun m a => m.insert (name a) a) .empty

theorem ofList_append_singleton (as : List α) (a : α) :
    ofList name (as ++ [a]) = (ofList name as).insert (name a) a := by
  rw [ofList, List.foldl_append]
  rfl

theorem keys_ofList (as : List α) : (ofList name as).keys = (as.map name).eraseDups :=
  keys_collect name (fun a _ => a) as

theorem get?_ofList (as : List α) (key : String) :
    (ofList name as).get? key = as.reverse.find? (name · = key) := by
  induction as using List.reverseRecOn with
  | nil => rfl
  | append_singleton as a ih =>
    rw [ofList_append_singleton, get?_insert, List.reverse_append, ih, List.reverse_singleton,
      List.singleton_append, List.find?_cons]
    by_cases hname : key = name a
    . simp [hname]
    . simp [hname, Ne.symm hname]

theorem mem_alterEntries {key : String} {f : Option α → α} {entries : List (String × α)}
    {entry : String × α} (h : entry ∈ alterEntries key f entries) :
    (entry.1 = key ∧ ∃ a, entry.2 = f a) ∨ entry ∈ entries := by
  induction entries with
  | nil =>
    rw [alterEntries, List.mem_singleton] at h
    exact .inl ⟨congrArg Prod.fst h, none, congrArg Prod.snd h⟩
  | cons other entries ih =>
    rw [alterEntries] at h
    split at h
    next hkey =>
      cases List.mem_cons.mp h with
      | inl h => exact .inl ⟨(congrArg Prod.fst h).trans hkey, some _, congrArg Prod.snd h⟩
      | inr h => exact .inr (List.mem_cons_of_mem other h)
    next =>
      cases List.mem_cons.mp h with
      | inl h => exact .inr (List.mem_cons.mpr (.inl h))
      | inr h => exact (ih h).imp_right (List.mem_cons_of_mem other)

variable {name} in
theorem mem_entries_ofList {as : List α} {entry : String × α}
    (h : entry ∈ (ofList name as).entries) : entry.1 = name entry.2 ∧ entry.2 ∈ as := by
  induction as using List.reverseRecOn with
  | nil => cases h
  | append_singleton as a ih =>
    rw [ofList_append_singleton] at h
    rcases mem_alterEntries h with ⟨hkey, _, ha⟩ | h
    . exact ⟨by rw [hkey, ha], by simp [ha]⟩
    . exact ⟨(ih h).1, List.mem_append_left [a] (ih h).2⟩

theorem alterEntries_of_not_mem {key : String} {entries : List (String × α)}
    (h : key ∉ entries.map Prod.fst) (f : Option α → α) :
    alterEntries key f entries = entries ++ [(key, f none)] := by
  induction entries with
  | nil => rfl
  | cons entry entries ih =>
    rw [List.map_cons, List.mem_cons, not_or] at h
    rw [alterEntries, if_neg (Ne.symm h.1), ih h.2, List.cons_append]

variable {name f} in
theorem entries_collect_of_nodup {as : List α} (h : (as.map name).Nodup) :
    (collect name f as).entries = as.map fun a => (name a, f a none) := by
  induction as using List.reverseRecOn with
  | nil => rfl
  | append_singleton as a ih =>
    rw [List.map_append, List.map_singleton, List.nodup_append] at h
    have hnew : name a ∉ (collect name f as).entries.map Prod.fst := by
      rw [ih h.1, List.map_map]
      intro hmem
      exact h.2.2 (name a) hmem (name a) (List.mem_singleton_self _) rfl
    rw [collect_append_singleton, entries_alter, alterEntries_of_not_mem hnew, ih h.1,
      List.map_append]
    rfl

variable {name} in
theorem entries_ofList_of_nodup {as : List α} (h : (as.map name).Nodup) :
    (ofList name as).entries = as.map fun a => (name a, a) :=
  entries_collect_of_nodup (f := fun a _ => a) h

end NameMap
end PddlOutline

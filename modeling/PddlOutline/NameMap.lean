/-!
This module contains maps from names that remember the order in which their names came first. A
name that is written again keeps its place and gets the new value.
-/

namespace PddlOutline

namespace NameMap

variable {α : Type}

/--
Write `f none` after all entries if `key` is new, else replace its value `a` by `f (some a)`.
-/
def alterEntries (key : String) (f : Option α → α) : List (String × α) → List (String × α)
  | [] => [(key, f none)]
  | (k, a) :: entries =>
    if k = key then (k, f (some a)) :: entries else (k, a) :: alterEntries key f entries

theorem keys_alterEntries (key : String) (f : Option α → α) (entries : List (String × α)) :
    (alterEntries key f entries).map Prod.fst =
      if key ∈ entries.map Prod.fst then
        entries.map Prod.fst
      else
        entries.map Prod.fst ++ [key] := by
  induction entries with
  | nil => simp [alterEntries]
  | cons entry entries ih =>
    simp only [alterEntries]
    split <;> grind

end NameMap

structure NameMap (α : Type) where
  entries : List (String × α)
  nodup_keys : (entries.map Prod.fst).Nodup
deriving Repr, DecidableEq

namespace NameMap

variable {α : Type}

theorem ext {m n : NameMap α} (h : m.entries = n.entries) : m = n := by
  cases m
  cases n
  simpa using h

def empty : NameMap α :=
  ⟨[], by simp⟩

def keys (m : NameMap α) : List String :=
  m.entries.map Prod.fst

def values (m : NameMap α) : List α :=
  m.entries.map Prod.snd

def size (m : NameMap α) : Nat :=
  m.entries.length

def isEmpty (m : NameMap α) : Bool :=
  m.entries.isEmpty

def get? (m : NameMap α) (key : String) : Option α :=
  m.entries.lookup key

def alter (m : NameMap α) (key : String) (f : Option α → α) : NameMap α :=
  ⟨alterEntries key f m.entries, by
    have := m.nodup_keys
    rw [keys_alterEntries]
    split
    . assumption
    . grind⟩

def insert (m : NameMap α) (key : String) (a : α) : NameMap α :=
  m.alter key fun _ => a

@[simp]
theorem entries_empty : (empty : NameMap α).entries = [] := rfl

theorem entries_alter (m : NameMap α) (key : String) (f : Option α → α) :
    (m.alter key f).entries = alterEntries key f m.entries := rfl

theorem get?_alter (m : NameMap α) (key : String) (f : Option α → α) (k : String) :
    (m.alter key f).get? k = if k = key then some (f (m.get? key)) else m.get? k := by
  simp only [get?, entries_alter]
  induction m.entries with
  | nil => grind [alterEntries]
  | cons entry entries ih => grind [alterEntries]

theorem get?_insert (m : NameMap α) (key : String) (a : α) (k : String) :
    (m.insert key a).get? k = if k = key then some a else m.get? k := by
  simp [insert, get?_alter]

theorem keys_alter (m : NameMap α) (key : String) (f : Option α → α) :
    (m.alter key f).keys = if key ∈ m.keys then m.keys else m.keys ++ [key] :=
  keys_alterEntries key f m.entries

end NameMap
end PddlOutline

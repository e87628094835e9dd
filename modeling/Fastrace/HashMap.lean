import Mathlib.Data.List.AList

/-!
# Hash maps with an arbitrary iteration order

A hash map is a finite partial map whose iterator visits the keys in an order nobody may rely on.  `HashMap K V`
holds the entries (Mathlib's `AList`, so no key occurs twice) and `IterOrder K` is one order an iterator may take:
it visits every key once.  `get?` after each operation is stated for all keys at once (`get?_insert`, `get?_remove`,
`getD_entryPush`), which is the only way the maps are used later.
-/

/-- A hash map: no key has two entries. -/
def HashMap (K V : Type) : Type := AList fun _ : K => V

/-- An order in which an iterator may visit the keys of a map. -/
structure IterOrder (K : Type) where
  visit : List K → List K
  perm : ∀ ks, (visit ks).Perm ks

/-- The iterator that visits the keys as they are stored. -/
def IterOrder.stored {K : Type} : IterOrder K := ⟨id, fun _ => List.Perm.refl _⟩

namespace HashMap

variable {K V : Type}

def empty : HashMap K V := (∅ : AList fun _ : K => V)

def keys (m : HashMap K V) : List K := AList.keys m

def isEmpty (m : HashMap K V) : Bool := m.keys.isEmpty

theorem keys_nodup (m : HashMap K V) : m.keys.Nodup := AList.keys_nodup m

variable [DecidableEq K]

def get? (m : HashMap K V) (k : K) : Option V := AList.lookup k m

def insert (m : HashMap K V) (k : K) (v : V) : HashMap K V := AList.insert k v m

def remove (m : HashMap K V) (k : K) : HashMap K V := AList.erase k m

/-- `entry(k).or_default().push(v)` on a map of vectors. -/
def entryPush {T : Type} (m : HashMap K (List T)) (k : K) (v : T) : HashMap K (List T) :=
  m.insert k ((m.get? k).getD [] ++ [v])

@[simp] theorem get?_empty (k : K) : (empty : HashMap K V).get? k = none := rfl

theorem get?_insert (m : HashMap K V) (k k' : K) (v : V) :
    (m.insert k v).get? k' = if k' = k then some v else m.get? k' := by
  unfold get? insert
  split
  · rename_i h; subst h; exact AList.lookup_insert m
  · rename_i h; exact AList.lookup_insert_ne h

theorem get?_remove (m : HashMap K V) (k k' : K) :
    (m.remove k).get? k' = if k' = k then none else m.get? k' := by
  unfold get? remove
  split
  · rename_i h; subst h; exact AList.lookup_erase _ _
  · rename_i h; exact AList.lookup_erase_ne h

theorem remove_of_get?_eq_none {m : HashMap K V} {k : K} (h : m.get? k = none) : m.remove k = m := by
  apply AList.ext
  apply List.kerase_of_notMem_keys
  show ¬k ∈ (show AList fun _ : K => V from m)
  rw [← AList.lookup_isSome]
  unfold get? at h
  simp [h]

theorem mem_keys {m : HashMap K V} {k : K} : k ∈ m.keys ↔ (m.get? k).isSome = true :=
  AList.lookup_isSome.symm

theorem get?_of_isEmpty {m : HashMap K V} (h : m.isEmpty = true) (k : K) : m.get? k = none := by
  have hk : k ∉ m.keys := by
    rw [List.isEmpty_iff.1 h]; exact List.not_mem_nil
  rw [mem_keys] at hk
  simpa using hk

theorem keys_eq_nil {m : HashMap K V} (h : ∀ k, m.get? k = none) : m.keys = [] := by
  rw [List.eq_nil_iff_forall_not_mem]
  intro k hk
  rw [mem_keys, h k] at hk
  cases hk

theorem getD_entryPush {T : Type} (m : HashMap K (List T)) (k k' : K) (v : T) :
    ((m.entryPush k v).get? k').getD [] = (m.get? k').getD [] ++ (if k = k' then [v] else []) := by
  unfold entryPush
  rw [get?_insert]
  by_cases h : k' = k
  · subst h; simp
  · simp [h, Ne.symm h]

end HashMap

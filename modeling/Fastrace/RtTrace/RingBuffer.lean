import Mathlib.Data.List.DropRight

/-!
# The ring buffer (`rt-trace/src/utils/ring_buffer.rs`)

A full ring buffer overwrites its oldest item, the one at `head`.  Read from `head` on, it holds the items in the
order in which they came (`items`): a push adds one at the end and takes the overwritten one off the front
(`pushOverwrite_items`), so the last `capacity` items are left (`items_pushOverwrite`).
-/

namespace RtTrace

/-- A ring buffer; the indices that `push_overwrite` and `drain` use are in bounds because of `head_lt` and
`head_eq`. -/
structure RingBuffer (α : Type) where
  inner : List α
  capacity : Nat
  head : Nat
  capacity_pos : 0 < capacity
  length_le : inner.length ≤ capacity
  head_lt : head < capacity
  head_eq : inner.length < capacity → head = 0

namespace RingBuffer

variable {α : Type}

/-- `new` asserts that the capacity is greater than zero. -/
def new (capacity : Nat) (h : 0 < capacity) : RingBuffer α where
  inner := []
  capacity := capacity
  head := 0
  capacity_pos := h
  length_le := Nat.zero_le _
  head_lt := h
  head_eq _ := rfl

def pushOverwrite (b : RingBuffer α) (item : α) : RingBuffer α :=
  if h : b.inner.length < b.capacity then
    { b with
      inner := b.inner ++ [item]
      length_le := by rw [List.length_append, List.length_singleton]; exact h
      head_eq := fun _ => b.head_eq h }
  else
    { b with
      inner := b.inner.set b.head item
      head := (b.head + 1) % b.capacity
      length_le := by rw [List.length_set]; exact b.length_le
      head_lt := Nat.mod_lt _ b.capacity_pos
      head_eq := fun hlt => absurd (by rwa [List.length_set] at hlt) h }

def drain (b : RingBuffer α) : List α × RingBuffer α :=
  (if b.head < b.inner.length then b.inner.drop b.head ++ (b.inner.take b.head).take b.head else [],
    { b with
      inner := if b.head < b.inner.length then (b.inner.take b.head).drop b.head else b.inner
      head := 0
      length_le := by
        split
        · simp
        · exact b.length_le
      head_lt := b.capacity_pos
      head_eq := fun _ => rfl })

/-- The items, the oldest first. -/
def items (b : RingBuffer α) : List α := b.inner.drop b.head ++ b.inner.take b.head

/-- The item that the next push overwrites. -/
def overwritten (b : RingBuffer α) : Option α :=
  if b.inner.length < b.capacity then none else b.inner[b.head]?

@[simp] theorem items_new (capacity : Nat) (h : 0 < capacity) : (new capacity h : RingBuffer α).items = [] := rfl

@[simp] theorem capacity_pushOverwrite (b : RingBuffer α) (item : α) :
    (b.pushOverwrite item).capacity = b.capacity := by
  unfold pushOverwrite
  split <;> rfl

@[simp] theorem capacity_drain (b : RingBuffer α) : b.drain.2.capacity = b.capacity := rfl

theorem items_length (b : RingBuffer α) : b.items.length = b.inner.length := by
  rw [items, List.length_append, List.length_drop, List.length_take]
  omega

theorem items_length_le (b : RingBuffer α) : b.items.length ≤ b.capacity := by
  rw [items_length]
  exact b.length_le

/-- The head is the index of an item unless the buffer is empty. -/
private theorem head_lt_length (b : RingBuffer α) (h : b.inner ≠ []) : b.head < b.inner.length := by
  by_cases hfull : b.inner.length < b.capacity
  · rw [b.head_eq hfull]
    exact List.length_pos_of_ne_nil h
  · have hlt := b.head_lt
    omega

theorem drain_fst (b : RingBuffer α) : b.drain.1 = b.items := by
  unfold drain items
  simp only [List.take_take, min_self]
  split
  · rfl
  · rename_i hlt
    have hnil : b.inner = [] := by
      by_contra h
      exact hlt (b.head_lt_length h)
    simp [hnil]

@[simp] theorem items_drain (b : RingBuffer α) : b.drain.2.items = [] := by
  have hinner : b.drain.2.inner = [] := by
    unfold drain
    simp only
    split
    · exact List.drop_eq_nil_of_le (List.length_take_le ..)
    · rename_i hlt
      by_contra h
      exact hlt (b.head_lt_length h)
  simp [items, hinner]

/-- The overwritten item is the oldest one; the new one comes last. -/
theorem pushOverwrite_items (b : RingBuffer α) (item : α) :
    b.overwritten.toList ++ (b.pushOverwrite item).items = b.items ++ [item] := by
  unfold overwritten pushOverwrite
  by_cases hfull : b.inner.length < b.capacity
  · simp [hfull, items, b.head_eq hfull]
  · have hlen : b.inner.length = b.capacity := Nat.le_antisymm b.length_le (Nat.le_of_not_lt hfull)
    have hlt : b.head < b.inner.length := hlen ▸ b.head_lt
    have hset : b.inner.set b.head item = b.inner.take b.head ++ item :: b.inner.drop (b.head + 1) :=
      List.set_eq_take_append_cons_drop.trans (if_pos hlt)
    have hdrop : b.inner.drop b.head = b.inner[b.head] :: b.inner.drop (b.head + 1) := List.drop_eq_getElem_cons hlt
    have htake : (b.inner.take b.head).length = b.head := List.length_take_of_le hlt.le
    simp only [hfull, ↓reduceIte, ↓reduceDIte, items, List.getElem?_eq_getElem hlt, Option.toList_some, hset, hdrop]
    by_cases hwrap : b.head + 1 < b.capacity
    · have hrest : (b.inner.take b.head ++ item :: b.inner.drop (b.head + 1)).drop (b.head + 1) =
          b.inner.drop (b.head + 1) := by
        rw [List.drop_append, htake, List.drop_eq_nil_of_le (by omega), Nat.add_sub_cancel_left]
        rfl
      have hfront : (b.inner.take b.head ++ item :: b.inner.drop (b.head + 1)).take (b.head + 1) =
          b.inner.take b.head ++ [item] := by
        rw [List.take_append, htake, List.take_of_length_le (by omega), Nat.add_sub_cancel_left]
        rfl
      rw [Nat.mod_eq_of_lt hwrap, hrest, hfront, List.append_assoc]
      rfl
    · have hlast : b.head + 1 = b.capacity := by
        have := b.head_lt
        omega
      rw [hlast, Nat.mod_self, ← hlen, List.drop_length]
      simp

theorem overwritten_of_lt (b : RingBuffer α) (h : b.items.length < b.capacity) : b.overwritten = none := by
  rw [items_length] at h
  exact if_pos h

theorem overwritten_of_full (b : RingBuffer α) (h : b.items.length = b.capacity) :
    (b.overwritten).toList.length = 1 := by
  rw [items_length] at h
  have hlt : b.head < b.inner.length := h ▸ b.head_lt
  simp [overwritten, h, List.getElem?_eq_getElem hlt]

/-- Among the items and the new one the last `capacity` are left. -/
theorem items_pushOverwrite (b : RingBuffer α) (item : α) :
    (b.pushOverwrite item).items = (b.items ++ [item]).rtake b.capacity := by
  have hitems := b.pushOverwrite_items item
  have hlen := congrArg List.length hitems
  rw [← hitems, List.rtake, List.length_append]
  rw [List.length_append, List.length_append, List.length_singleton] at hlen
  rcases Nat.lt_or_ge b.items.length b.capacity with hlt | hge
  · rw [b.overwritten_of_lt hlt] at hlen ⊢
    simp only [Option.toList_none, List.length_nil, List.nil_append] at hlen ⊢
    rw [show 0 + (b.pushOverwrite item).items.length - b.capacity = 0 by omega, List.drop_zero]
  · have hfull : b.items.length = b.capacity := Nat.le_antisymm b.items_length_le hge
    have hone := b.overwritten_of_full hfull
    rw [show b.overwritten.toList.length + (b.pushOverwrite item).items.length - b.capacity =
      b.overwritten.toList.length by omega, List.drop_left]

end RingBuffer

end RtTrace

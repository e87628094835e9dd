import Fastrace.Steps
import Fastrace.RtTrace.RingBuffer

/-!
# The ring buffer in any run

`RingBuffer` carries the facts that keep its indices in bounds.  `RawRingBuffer` is the vector and the two numbers
alone, and what the code does with them panics as it does there: an index or a range out of bounds, an overflow, a
division by zero.  None of this happens, since on a `RingBuffer` both do the same (`pushOverwrite_raw`, `drain_raw`).
So each drain returns the last items pushed since the drain before it, `capacity` at most (`drain_recent`).
-/

namespace RtTrace

/-! ### What panics -/

section Panics

variable {α : Type}

/-- `v[i] = item`. -/
def assignAt (v : List α) (i : Nat) (item : α) : Option (List α) :=
  if i < v.length then some (v.set i item) else none

/-- `Vec::drain(start..stop)`: the items removed, and those that are left. -/
def drainRange (v : List α) (start stop : Nat) : Option (List α × List α) :=
  if start ≤ stop ∧ stop ≤ v.length then some ((v.take stop).drop start, v.take start ++ v.drop stop) else none

/-- `a + b` of `usize`. -/
def usizeAdd (a b : Nat) : Option Nat := if a + b < UInt64.size then some (a + b) else none

/-- `a % b` of `usize`. -/
def usizeRem (a b : Nat) : Option Nat := if b = 0 then none else some (a % b)

end Panics

/-! ### The buffer -/

structure RawRingBuffer (α : Type) where
  inner : List α
  capacity : Nat
  head : Nat
deriving DecidableEq, Repr

namespace RawRingBuffer

variable {α : Type}

def new (capacity : Nat) : Option (RawRingBuffer α) := if 0 < capacity then some ⟨[], capacity, 0⟩ else none

def pushOverwrite (b : RawRingBuffer α) (item : α) : Option (RawRingBuffer α) :=
  if b.inner.length < b.capacity then some { b with inner := b.inner ++ [item] }
  else do
    let inner ← assignAt b.inner b.head item
    let next ← usizeAdd b.head 1
    let head ← usizeRem next b.capacity
    return { b with inner := inner, head := head }

def drain (b : RawRingBuffer α) : Option (List α × RawRingBuffer α) :=
  let len := b.inner.length
  if b.head < len then do
    let (fromHead, inner) ← drainRange b.inner b.head len
    let (toHead, inner) ← drainRange inner 0 b.head
    return (fromHead ++ toHead, { b with inner := inner, head := 0 })
  else some ([], { b with head := 0 })

end RawRingBuffer

/-! ### Where the indices are in bounds -/

namespace RingBuffer

variable {α : Type}

def raw (b : RingBuffer α) : RawRingBuffer α := ⟨b.inner, b.capacity, b.head⟩

private theorem new_raw (capacity : Nat) (h : 0 < capacity) :
    RawRingBuffer.new capacity = some (new capacity h : RingBuffer α).raw :=
  if_pos h

theorem pushOverwrite_raw (b : RingBuffer α) (hsize : b.capacity < UInt64.size) (item : α) :
    b.raw.pushOverwrite item = some (b.pushOverwrite item).raw := by
  unfold RawRingBuffer.pushOverwrite pushOverwrite
  by_cases hfull : b.inner.length < b.capacity
  · simp [raw, hfull]
  · have hindex : b.head < b.inner.length := by
      have hlt := b.head_lt
      omega
    have hadd : b.head + 1 < UInt64.size := by
      have hlt := b.head_lt
      omega
    have hcapacity : b.capacity ≠ 0 := b.capacity_pos.ne'
    simp [raw, hfull, assignAt, usizeAdd, usizeRem, hindex, hadd, hcapacity]

/-- The second range is what the first has left. -/
theorem drain_raw (b : RingBuffer α) : b.raw.drain = some (b.drain.1, b.drain.2.raw) := by
  unfold RawRingBuffer.drain drain
  by_cases hhead : b.head < b.inner.length
  · have hfirst : drainRange b.inner b.head b.inner.length = some (b.inner.drop b.head, b.inner.take b.head) := by
      simp [drainRange, hhead.le]
    have hsecond : drainRange (b.inner.take b.head) 0 b.head =
        some ((b.inner.take b.head).take b.head, (b.inner.take b.head).drop b.head) := by
      simp [drainRange, hhead.le]
    simp only [raw, hhead, ↓reduceIte, hfirst, Option.bind_eq_bind, Option.bind_some, hsecond]
    rfl
  · simp [raw, hhead]

end RingBuffer

/-! ### Runs -/

inductive RingOp (α : Type) where
  | pushOverwrite (item : α)
  | drain
deriving DecidableEq, Repr

section Run

variable {α : Type}

def RawRingBuffer.step (b : RawRingBuffer α) : RingOp α → Option (RawRingBuffer α)
  | .pushOverwrite item => b.pushOverwrite item
  | .drain => b.drain.map Prod.snd

/-- What has been pushed, given what has been pushed before the operation, since the last drain. -/
def RingOp.since (pushed : List α) : RingOp α → List α
  | .pushOverwrite item => pushed ++ [item]
  | .drain => []

/-- The items pushed since the last drain, or since the buffer was made. -/
def sinceDrain (ops : List (RingOp α)) : List α := ops.foldl RingOp.since []

private theorem sinceDrain_snoc (ops : List (RingOp α)) (op : RingOp α) :
    sinceDrain (ops ++ [op]) = op.since (sinceDrain ops) :=
  List.foldl_concat ..

/-- What comes before the last `n` items is forgotten. -/
private theorem rtake_snoc (l : List α) (n : Nat) (x : α) : (l.rtake n ++ [x]).rtake n = (l ++ [x]).rtake n := by
  have hdrop : (l ++ [x]).drop (l.length - n) = l.drop (l.length - n) ++ [x] :=
    List.drop_append_of_le_length (Nat.sub_le ..)
  rw [List.rtake, List.rtake, List.rtake, ← hdrop, List.drop_drop, List.length_drop, List.length_append]
  congr 1
  rw [List.length_singleton]
  omega

/-- No operation panics, and the buffer holds the last items pushed since the last drain. -/
private theorem run_raw {capacity : Nat} (hpos : 0 < capacity) (hsize : capacity < UInt64.size)
    (ops : List (RingOp α)) :
    ∃ b : RingBuffer α, Steps.run RawRingBuffer.step (RingBuffer.new capacity hpos).raw ops = some b.raw ∧
      b.capacity = capacity ∧ b.items = (sinceDrain ops).rtake capacity := by
  induction ops using List.reverseRecOn with
  | nil => exact ⟨RingBuffer.new capacity hpos, rfl, rfl, (List.rtake_nil ..).symm⟩
  | append_singleton ops op ih =>
    obtain ⟨b, hrun, rfl, hitems⟩ := ih
    rw [sinceDrain_snoc]
    cases op with
    | pushOverwrite item =>
      refine ⟨b.pushOverwrite item, Steps.run_step hrun (b.pushOverwrite_raw hsize item), ?_, ?_⟩
      · rw [RingBuffer.capacity_pushOverwrite]
      · rw [b.items_pushOverwrite, hitems, rtake_snoc]
        rfl
    | drain =>
      have hstep : b.raw.step .drain = some b.drain.2.raw := by rw [RawRingBuffer.step, b.drain_raw]; rfl
      exact ⟨b.drain.2, Steps.run_step hrun hstep, rfl, b.items_drain.trans (List.rtake_nil ..).symm⟩

/-- After any operations a drain returns the last `min k capacity` of the `k` items pushed since the drain before, in
the order of the pushes, and leaves the buffer empty. -/
theorem drain_recent {capacity : Nat} (hpos : 0 < capacity) (hsize : capacity < UInt64.size)
    (ops : List (RingOp α)) :
    ∃ new b b', RawRingBuffer.new capacity = some new ∧ Steps.run RawRingBuffer.step new ops = some b ∧
      b.drain = some ((sinceDrain ops).rtake (min (sinceDrain ops).length capacity), b') ∧ b'.inner = [] := by
  obtain ⟨b, hrun, rfl, hitems⟩ := run_raw hpos hsize ops
  refine ⟨_, b.raw, b.drain.2.raw, RingBuffer.new_raw _ hpos, hrun, ?_, ?_⟩
  · rw [b.drain_raw, b.drain_fst, hitems, List.rtake, List.rtake]
    congr 3
    omega
  · rw [← List.length_eq_zero_iff]
    exact b.drain.2.items_length.symm.trans (congrArg List.length b.items_drain)

end Run

/-- Each time the items that do not fit are overwritten. -/
theorem drain_recent_twice : ∃ new b b', RawRingBuffer.new 3 = some new ∧
    Steps.run RawRingBuffer.step new [.pushOverwrite 1, .pushOverwrite 2, .pushOverwrite 3, .pushOverwrite 4, .drain,
      .pushOverwrite 5, .pushOverwrite 6, .pushOverwrite 7, .pushOverwrite 8] = some b ∧
    b.drain = some ([6, 7, 8], b') ∧ b'.inner = [] :=
  drain_recent (by decide) (by decide) _

end RtTrace

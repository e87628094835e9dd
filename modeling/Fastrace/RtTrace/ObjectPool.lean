import Mathlib.Logic.Function.Basic
import Mathlib.Data.List.Basic

/-!
# The object pool (`rt-trace/src/utils/object_pool.rs`)

Objects that are dropped go back to the pool.  A thread takes them out through its puller, which fetches a batch from
the end of the pool, made up with fresh objects, and hands them out last one first.  `reset` is the identity in the
only pool of the crate, so an object comes back as it was dropped.
-/

namespace RtTrace

structure Pool (T α : Type) where
  objects : List α
  /-- The buffers of the pullers. -/
  buffer : T → List α

namespace Pool

variable {T α : Type}

def empty : Pool T α := ⟨[], fun _ => []⟩

def recycle (pool : Pool T α) (obj : α) : Pool T α := { pool with objects := pool.objects ++ [obj] }

variable [DecidableEq T] (init : α) (bufferSize : Nat)

def batchPull (pool : Pool T α) (t : T) : Pool T α :=
  let len := pool.objects.length
  let buffer := pool.buffer t ++ pool.objects.drop (len - bufferSize)
  { objects := pool.objects.take (len - bufferSize)
    buffer := Function.update pool.buffer t
      (buffer.take bufferSize ++ List.replicate (bufferSize - buffer.length) init) }

/-- Takes an object through the puller of the thread; after a batch the buffer is not empty. -/
def pull (pool : Pool T α) (t : T) : α × Pool T α :=
  let filled := if (pool.buffer t).isEmpty then pool.batchPull init bufferSize t else pool
  ((filled.buffer t).getLastD init,
    { filled with buffer := Function.update filled.buffer t (filled.buffer t).dropLast })

/-- The puller of a thread that exits drops what it holds. -/
def dropPuller (pool : Pool T α) (t : T) : Pool T α := { pool with buffer := Function.update pool.buffer t [] }

/-- All objects in the pool and in the pullers have the property. -/
structure All (P : α → Prop) (pool : Pool T α) : Prop where
  objects : ∀ obj ∈ pool.objects, P obj
  buffer : ∀ t, ∀ obj ∈ pool.buffer t, P obj

variable {init bufferSize} {P : α → Prop} {pool : Pool T α}

omit [DecidableEq T] in
theorem All.empty : All P (Pool.empty : Pool T α) :=
  ⟨fun obj h => (by cases h), fun t obj h => (by cases h)⟩

omit [DecidableEq T] in
theorem All.recycle (h : All P pool) {obj : α} (hobj : P obj) : All P (pool.recycle obj) := by
  refine ⟨fun obj' hobj' => ?_, h.buffer⟩
  rcases List.mem_append.1 hobj' with hobj' | hobj'
  · exact h.objects obj' hobj'
  · exact List.mem_singleton.1 hobj' ▸ hobj

private theorem all_setBuffer (h : All P pool) {t : T} {buffer : List α} (hbuffer : ∀ obj ∈ buffer, P obj)
    {objects : List α} (hobjects : ∀ obj ∈ objects, P obj) :
    All P ⟨objects, Function.update pool.buffer t buffer⟩ := by
  refine ⟨hobjects, fun u obj hobj => ?_⟩
  change obj ∈ Function.update pool.buffer t buffer u at hobj
  by_cases hu : u = t
  · subst hu
    rw [Function.update_self] at hobj
    exact hbuffer obj hobj
  · rw [Function.update_of_ne hu] at hobj
    exact h.buffer u obj hobj

theorem All.dropPuller (h : All P pool) (t : T) : All P (pool.dropPuller t) :=
  all_setBuffer h (fun obj hobj => by cases hobj) h.objects

private theorem All.batchPull (h : All P pool) (hinit : P init) (t : T) :
    All P (pool.batchPull init bufferSize t) := by
  refine all_setBuffer h (fun obj hobj => ?_) fun obj hobj => h.objects obj (List.mem_of_mem_take hobj)
  rcases List.mem_append.1 hobj with hobj | hobj
  · rcases List.mem_append.1 (List.mem_of_mem_take hobj) with hobj | hobj
    · exact h.buffer t obj hobj
    · exact h.objects obj (List.mem_of_mem_drop hobj)
  · exact List.eq_of_mem_replicate hobj ▸ hinit

/-- A pulled object has what all pooled and all fresh ones have. -/
theorem All.pull (h : All P pool) (hinit : P init) (t : T) :
    P (pool.pull init bufferSize t).1 ∧ All P (pool.pull init bufferSize t).2 := by
  have hfilled : ∀ filled : Pool T α, All P filled → P ((filled.buffer t).getLastD init) ∧
      All P { filled with buffer := Function.update filled.buffer t (filled.buffer t).dropLast } := by
    intro filled hall
    refine ⟨?_, all_setBuffer hall (fun obj hobj => hall.buffer t obj (List.dropLast_subset _ hobj)) hall.objects⟩
    rcases List.mem_cons.1 (List.getLastD_mem_cons (l := filled.buffer t) (a := init)) with heq | hmem
    · rw [heq]
      exact hinit
    · exact hall.buffer t _ hmem
  unfold Pool.pull
  simp only
  split
  · exact hfilled _ (h.batchPull hinit t)
  · exact hfilled _ h

end Pool

end RtTrace

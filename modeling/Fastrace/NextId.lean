import Fastrace.Program
import Mathlib.Algebra.GroupWithZero.Nat
import Mathlib.Data.List.Nodup

/-!
# The ids of spans (`SpanId::next_id` in `collector/id.rs`)

A thread draws its ids from a random prefix and a counter of 32 bits that wraps.  The prefix is the high half of the id
and the counter the low half (`toNat_next`), so ids with different prefixes are different, and so are as many ids of a
thread as the counter has values.  The id is zero when both halves are, which the code does not exclude: with the
prefix `0` the counter comes to `0` when it wraps (`distinctIds_iff`).  Otherwise the ids that all threads draw are as
`FreshIds` asks (`freshIds_of_draws`).
-/

namespace Fastrace

/-! ### The generator -/

/-- The thread local `LOCAL_ID_GENERATOR`. -/
structure IdGenerator where
  idPrefix : BitVec 32
  suffix : BitVec 32
deriving DecidableEq, Repr

namespace IdGenerator

def next (g : IdGenerator) : SpanId × IdGenerator :=
  let suffix := g.suffix + 1
  (⟨g.idPrefix.setWidth 64 <<< 32 ||| suffix.setWidth 64⟩, { g with suffix := suffix })

end IdGenerator

/-- The generator is `none` when the thread local is destroyed; then the id is what `rand::random()` returns. -/
def SpanId.nextId (random : SpanId) : Option IdGenerator → SpanId × Option IdGenerator
  | some g => (g.next.1, some g.next.2)
  | none => (random, none)

/-- The results of consecutive calls on a thread; what `rand::random()` would return in each call is given. -/
def SpanId.nextIds : Option IdGenerator → List SpanId → List SpanId
  | _, [] => []
  | g, random :: rest => (SpanId.nextId random g).1 :: SpanId.nextIds (SpanId.nextId random g).2 rest

namespace IdGenerator

variable (g : IdGenerator)

/-- The value of the suffix in the `i`-th of the next ids. -/
def suffixAt (i : Nat) : Nat := (g.suffix.toNat + i + 1) % 2 ^ 32

/-- The prefix is the high half and the suffix the low half. -/
theorem toNat_next : g.next.1.val.toNat = g.idPrefix.toNat * 2 ^ 32 + g.suffixAt 0 := by
  have hbound := g.idPrefix.isLt
  have hsuffix := (g.suffix + 1).isLt
  have hhigh : (g.idPrefix.setWidth 64 <<< 32).toNat = g.idPrefix.toNat <<< 32 := by
    rw [BitVec.toNat_shiftLeft, BitVec.toNat_setWidth_of_le (by decide)]
    refine Nat.mod_eq_of_lt ?_
    rw [Nat.shiftLeft_eq]
    omega
  have hlow : ((g.suffix + 1).setWidth 64).toNat = g.suffixAt 0 := by
    rw [BitVec.toNat_setWidth_of_le (by decide), BitVec.toNat_add]
    rfl
  rw [← BitVec.toNat_setWidth_of_le (show 32 ≤ 64 by decide), hlow] at hsuffix
  change (g.idPrefix.setWidth 64 <<< 32 ||| (g.suffix + 1).setWidth 64).toNat = _
  rw [BitVec.toNat_or, hhigh, hlow, ← Nat.shiftLeft_add_eq_or_of_lt hsuffix, Nat.shiftLeft_eq]

/-- The counter goes on where it has been. -/
private theorem suffixAt_next (i : Nat) : g.next.2.suffixAt i = g.suffixAt (i + 1) := by
  change ((g.suffix + 1).toNat + i + 1) % 2 ^ 32 = _
  rw [BitVec.toNat_add]
  change ((g.suffix.toNat + 1) % 2 ^ 32 + i + 1) % 2 ^ 32 = _
  unfold suffixAt
  omega

/-- The value of the `i`-th of the next ids. -/
def idAt (i : Nat) : Nat := g.idPrefix.toNat * 2 ^ 32 + g.suffixAt i

private theorem suffixAt_lt (i : Nat) : g.suffixAt i < 2 ^ 32 := Nat.mod_lt _ (by decide)

private theorem suffixAt_inj {i j : Nat} (hi : i < 2 ^ 32) (hj : j < 2 ^ 32) (h : g.suffixAt i = g.suffixAt j) :
    i = j := by
  unfold suffixAt at h
  omega

/-- The counter comes to zero when it wraps. -/
private theorem exists_suffixAt_eq_zero_iff (n : Nat) : (∃ i < n, g.suffixAt i = 0) ↔ 2 ^ 32 ≤ g.suffix.toNat + n := by
  have hlt := g.suffix.isLt
  unfold suffixAt
  constructor
  · rintro ⟨i, hi, hzero⟩
    omega
  · intro hwraps
    exact ⟨2 ^ 32 - 1 - g.suffix.toNat, by omega, by omega⟩

private theorem idAt_next (i : Nat) : g.next.2.idAt i = g.idAt (i + 1) :=
  congrArg (g.idPrefix.toNat * 2 ^ 32 + ·) (g.suffixAt_next i)

private theorem idAt_eq_zero_iff (i : Nat) : g.idAt i = 0 ↔ g.idPrefix = 0 ∧ g.suffixAt i = 0 := by
  have hiff : g.idPrefix = 0 ↔ g.idPrefix.toNat = 0 := (BitVec.toNat_inj (y := 0)).symm
  rw [hiff]
  unfold idAt
  omega

private theorem idAt_div (i : Nat) : g.idAt i / 2 ^ 32 = g.idPrefix.toNat := by
  have hlt := g.suffixAt_lt i
  unfold idAt
  omega

private theorem nextIds_eq (randoms : List SpanId) :
    (SpanId.nextIds (some g) randoms).map (fun id => id.val.toNat) = (List.range randoms.length).map g.idAt := by
  induction randoms generalizing g with
  | nil => rfl
  | cons random rest ih =>
    have hshift : g.next.2.idAt = g.idAt ∘ Nat.succ := funext g.idAt_next
    rw [List.length_cons, List.range_succ_eq_map, List.map_cons, List.map_map, ← hshift, ← ih]
    exact congrArg (· :: _) g.toNat_next

variable {g}

private theorem mem_nextIds {randoms : List SpanId} {id : SpanId} :
    id ∈ SpanId.nextIds (some g) randoms ↔ ∃ i < randoms.length, g.idAt i = id.val.toNat := by
  have hinj : Function.Injective fun id : SpanId => id.val.toNat := by
    rintro ⟨x⟩ ⟨y⟩ h
    exact congrArg SpanId.mk (BitVec.eq_of_toNat_eq h)
  rw [← List.mem_map_of_injective hinj, nextIds_eq, List.mem_map]
  simp only [List.mem_range]

end IdGenerator

/-! ### Distinct ids -/

/-- The next ids of the generator are distinct, none is an id of a generator with another prefix, and none is zero. -/
structure DistinctIds (g : IdGenerator) (randoms : List SpanId) : Prop where
  nodup : (SpanId.nextIds (some g) randoms).Nodup
  apart : ∀ (g' : IdGenerator) (randoms' : List SpanId), g'.idPrefix ≠ g.idPrefix →
    List.Disjoint (SpanId.nextIds (some g) randoms) (SpanId.nextIds (some g') randoms')
  nonzero : default ∉ SpanId.nextIds (some g) randoms

section Distinct

variable {g g' : IdGenerator} {randoms randoms' : List SpanId}

/-- As long as the counter has not come around, no id comes twice. -/
private theorem nodup_nextIds (h : randoms.length ≤ 2 ^ 32) : (SpanId.nextIds (some g) randoms).Nodup := by
  refine List.Nodup.of_map (fun id => id.val.toNat) ?_
  rw [g.nextIds_eq]
  refine List.Nodup.map_on ?_ List.nodup_range
  intro i hi j hj hij
  rw [List.mem_range] at hi hj
  exact g.suffixAt_inj (by omega) (by omega) (Nat.add_left_cancel hij)

private theorem disjoint_nextIds (h : g'.idPrefix ≠ g.idPrefix) :
    List.Disjoint (SpanId.nextIds (some g) randoms) (SpanId.nextIds (some g') randoms') := by
  intro id hmem hmem'
  obtain ⟨i, -, hi⟩ := IdGenerator.mem_nextIds.1 hmem
  obtain ⟨j, -, hj⟩ := IdGenerator.mem_nextIds.1 hmem'
  apply h
  rw [← BitVec.toNat_inj, ← g'.idAt_div j, ← g.idAt_div i, hi, hj]

private theorem default_mem_nextIds_iff :
    default ∈ SpanId.nextIds (some g) randoms ↔ g.idPrefix = 0 ∧ 2 ^ 32 ≤ g.suffix.toNat + randoms.length := by
  have hzero : (default : SpanId).val.toNat = 0 := rfl
  rw [IdGenerator.mem_nextIds, hzero, ← g.exists_suffixAt_eq_zero_iff]
  simp only [IdGenerator.idAt_eq_zero_iff]
  constructor
  · rintro ⟨i, hi, hhigh, hlow⟩
    exact ⟨hhigh, i, hi, hlow⟩
  · rintro ⟨hhigh, i, hi, hlow⟩
    exact ⟨i, hi, hhigh, hlow⟩

/-- At most `2 ^ 32` ids are as `next_id` promises, unless the prefix is zero and the counter wraps. -/
theorem distinctIds_iff (h : randoms.length ≤ 2 ^ 32) :
    DistinctIds g randoms ↔ g.idPrefix ≠ 0 ∨ g.suffix.toNat + randoms.length < 2 ^ 32 := by
  have hnonzero : default ∉ SpanId.nextIds (some g) randoms ↔
      g.idPrefix ≠ 0 ∨ g.suffix.toNat + randoms.length < 2 ^ 32 := by
    rw [default_mem_nextIds_iff, not_and_or, Nat.not_le]
  rw [← hnonzero]
  constructor
  · exact DistinctIds.nonzero
  · exact fun hdefault => ⟨nodup_nextIds h, fun _ _ hne => disjoint_nextIds hne, hdefault⟩

/-- The counter wraps. -/
theorem distinctIds_wrap : DistinctIds ⟨1, 0xfffffffe⟩ [⟨1⟩, ⟨2⟩, ⟨3⟩] :=
  (distinctIds_iff (by decide)).2 (by decide)

end Distinct

/-- The id of a span after `2 ^ 32 - 1` others is `SpanId::default()`. -/
theorem zero_id : SpanId.nextId ⟨1⟩ (some ⟨0, 0xffffffff⟩) = (default, some ⟨0, 0⟩) ∧
    ¬DistinctIds ⟨0, 0xffffffff⟩ [⟨1⟩] :=
  ⟨by decide, fun h => h.nonzero (by decide)⟩

/-! ### The ids of all threads -/

section Threads

variable {T : Type} [DecidableEq T]

/-- The ids that the threads draw, in the order of their calls. -/
def draws (g : T → IdGenerator) : List T → List SpanId
  | [] => []
  | t :: ts => (g t).next.1 :: draws (Function.update g t (g t).next.2) ts

/-- The threads have their own prefixes, and none draws so many ids that they repeat or come to zero. -/
structure WithinBounds (g : T → IdGenerator) (ts : List T) : Prop where
  prefixes : ∀ t u, t ≠ u → (g t).idPrefix ≠ (g u).idPrefix
  count_le : ∀ t, ts.count t ≤ 2 ^ 32
  nonzero : ∀ t, (g t).idPrefix ≠ 0 ∨ (g t).suffix.toNat + ts.count t < 2 ^ 32

variable {g : T → IdGenerator} {ts : List T}

/-- An id is the next one of some thread after those that the thread has drawn before. -/
private theorem exists_of_mem_draws {id : SpanId} (h : id ∈ draws g ts) :
    ∃ t, ∃ i < ts.count t, (g t).idAt i = id.val.toNat := by
  induction ts generalizing g with
  | nil => cases h
  | cons t ts ih =>
    rcases List.mem_cons.1 h with rfl | hrest
    · refine ⟨t, 0, ?_, (g t).toNat_next.symm⟩
      rw [List.count_cons_self]
      exact Nat.succ_pos _
    · obtain ⟨u, i, hi, hid⟩ := ih hrest
      by_cases hu : u = t
      · subst hu
        rw [Function.update_self, IdGenerator.idAt_next] at hid
        refine ⟨u, i + 1, ?_, hid⟩
        rw [List.count_cons_self]
        exact Nat.succ_lt_succ hi
      · rw [Function.update_of_ne hu] at hid
        refine ⟨u, i, ?_, hid⟩
        rw [List.count_cons_of_ne (Ne.symm hu)]
        exact hi

private theorem nodup_draws (hprefixes : ∀ t u, t ≠ u → (g t).idPrefix ≠ (g u).idPrefix)
    (hcount : ∀ t, ts.count t ≤ 2 ^ 32) : (draws g ts).Nodup := by
  induction ts generalizing g with
  | nil => exact List.nodup_nil
  | cons t ts ih =>
    have hsame : ∀ u, (Function.update g t (g t).next.2 u).idPrefix = (g u).idPrefix := by
      intro u
      by_cases hu : u = t
      · subst hu
        rw [Function.update_self]
        rfl
      · rw [Function.update_of_ne hu]
    have hrest : (draws (Function.update g t (g t).next.2) ts).Nodup := by
      refine ih ?_ fun u => Nat.le_trans (List.count_le_count_cons ..) (hcount u)
      intro u v huv
      rw [hsame, hsame]
      exact hprefixes u v huv
    refine List.nodup_cons.2 ⟨fun hmem => ?_, hrest⟩
    obtain ⟨u, i, hi, hid⟩ := exists_of_mem_draws hmem
    rw [(g t).toNat_next] at hid
    change _ = (g t).idAt 0 at hid
    by_cases hu : u = t
    · subst hu
      have hle := hcount u
      rw [List.count_cons_self] at hle
      rw [Function.update_self, IdGenerator.idAt_next] at hid
      have hzero := (g u).suffixAt_inj (by omega) (by decide) (Nat.add_left_cancel hid)
      omega
    · apply hprefixes u t hu
      rw [← BitVec.toNat_inj, ← (g t).idAt_div 0, ← hid, IdGenerator.idAt_div, hsame]

private theorem default_not_mem_draws
    (hnonzero : ∀ t, (g t).idPrefix ≠ 0 ∨ (g t).suffix.toNat + ts.count t < 2 ^ 32) : default ∉ draws g ts := by
  intro hmem
  obtain ⟨t, i, hi, hid⟩ := exists_of_mem_draws hmem
  obtain ⟨hhigh, hlow⟩ := ((g t).idAt_eq_zero_iff i).1 hid
  have hwraps := ((g t).exists_suffixAt_eq_zero_iff _).1 ⟨i, hi, hlow⟩
  have hbound := (hnonzero t).resolve_left (not_not_intro hhigh)
  omega

/-- The threads of the calls that take an id. -/
def callers (as : List (T × Op)) : List T := as.filterMap fun a => a.2.id?.map fun _ => a.1

/-- When each call that takes an id draws it from the generator of its thread, the ids are as programs need them. -/
theorem freshIds_of_draws {as : List (T × Op)} (hids : drawnIds as = draws g (callers as))
    (h : WithinBounds g (callers as)) : FreshIds as where
  nodup := hids ▸ nodup_draws h.prefixes h.count_le
  nonzero := hids ▸ default_not_mem_draws h.nonzero

end Threads

end Fastrace

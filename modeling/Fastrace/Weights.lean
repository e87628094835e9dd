import Fastrace.Batches
import Fastrace.Delivery
import Mathlib.Algebra.GroupWithZero.Nat
import Mathlib.Algebra.Order.BigOperators.Group.Finset
import Mathlib.Data.List.Basic

/-!
# A pass over all items against a pass over each alone

The collector of a trace post-processes its items in one pass, in which the first record of an id takes all that
waits for it; stale items are post-processed one by one, each with its own attachments only.  The records are the same
where every span finds its attachments in its own item (`mountAll_eq_stale`).

For the converse the records are weighed.  The weight of a record is the number of its properties and events, so of
one span the pass over all items reports at least as much as the passes over each (`stale_weight_le`); and when both
report the same weight, it loads at most as many records as they do (`loaded_le_stale`).
-/

namespace Fastrace

/-! ### Mounting the same -/

/-- Mounting one or the other makes no difference. -/
def SameMount (l l' : List DanglingItem) : Prop :=
  l.flatMap DanglingItem.props = l'.flatMap DanglingItem.props ∧
    l.flatMap DanglingItem.events = l'.flatMap DanglingItem.events

private theorem SameMount.mount_eq {l l' : List DanglingItem} (h : SameMount l l') (r : SpanRecord) :
    r.mount l = r.mount l' := by
  rw [Fastrace.mount_eq, Fastrace.mount_eq, h.1, h.2]

private theorem mountAll_congr {d d' : Waiting} {rs : List SpanRecord}
    (h : ∀ r ∈ rs, SameMount (d r.spanId) (d' r.spanId)) :
    mountAll d rs = mountAll d' rs := by
  induction rs generalizing d d' with
  | nil => rfl
  | cons r rs ih =>
    rw [List.forall_mem_cons] at h
    rw [mountAll, mountAll, h.1.mount_eq]
    congr 1
    apply ih
    intro r' hr'
    by_cases hx : r'.spanId = r.spanId
    · rw [hx, Function.update_self, Function.update_self]
      exact ⟨rfl, rfl⟩
    · rw [Function.update_of_ne hx, Function.update_of_ne hx]
      exact h.2 r' hr'

/-- What the records of `ids` leave to later ones. -/
def Waiting.without (d : Waiting) (ids : List SpanId) : Waiting := fun x => if x ∈ ids then [] else d x

private theorem without_nil (d : Waiting) : d.without [] = d := by
  funext x
  simp [Waiting.without]

private theorem mountAll_append (d : Waiting) (rs rs' : List SpanRecord) :
    mountAll d (rs ++ rs') = mountAll d rs ++ mountAll (d.without (rs.map SpanRecord.spanId)) rs' := by
  induction rs generalizing d with
  | nil => exact congrArg (fun d => mountAll d rs') (without_nil d).symm
  | cons r rs ih =>
    rw [List.cons_append, mountAll, mountAll, ih, List.cons_append]
    congr 3
    funext x
    simp only [Waiting.without, List.map_cons, List.mem_cons]
    by_cases hx : x = r.spanId <;> by_cases hmem : x ∈ rs.map SpanRecord.spanId <;> simp [hx, hmem]

private theorem recordsOf_single (anchor : Anchor) (i : Item) :
    recordsOf (fun _ => []) [(anchor, i)] = mountAll (keyed (i.attachments anchor)) (i.heads anchor) := by
  have hgathered : gathered (fun _ => []) [(anchor, i)] = keyed (i.attachments anchor) := by
    funext x
    simp [gathered, attachments]
  simp [recordsOf, hgathered, heads]

theorem item_heads_spanId (anchor : Anchor) (i : Item) : (i.heads anchor).map SpanRecord.spanId = i.spanIds := by
  simp [Item.heads, Item.spanIds, Item.record, Function.comp_def]

/-- In a pass over all items the first item that brings a span gets what waits for it.  That is what the item has for
the span itself, and a later item with the same span has nothing for it. -/
theorem mountAll_eq_stale {d : Waiting} {anchor : Anchor} {items : List Item}
    (h : ∀ (pre : List Item) (i : Item) (post : List Item), items = pre ++ i :: post → ∀ x ∈ i.spanIds,
      SameMount (d.without (pre.flatMap Item.spanIds) x) (keyed (i.attachments anchor) x)) :
    mountAll d (heads (timed anchor items)) = staleRecords anchor items := by
  induction items generalizing d with
  | nil => rfl
  | cons i items ih =>
    have hcons : heads (timed anchor (i :: items)) = i.heads anchor ++ heads (timed anchor items) := rfl
    have hstale : staleRecords anchor (i :: items) =
        recordsOf (fun _ => []) [(anchor, i)] ++ staleRecords anchor items := rfl
    rw [hcons, hstale, mountAll_append, recordsOf_single]
    congr 1
    · apply mountAll_congr
      intro r hr
      have hfirst := h [] i items rfl r.spanId (by
        rw [← item_heads_spanId anchor]
        exact List.mem_map_of_mem hr)
      simpa [Waiting.without] using hfirst
    · apply ih
      intro pre i' post hsplit x hx
      have hlater := h (i :: pre) i' post (by rw [hsplit, List.cons_append]) x hx
      rw [item_heads_spanId]
      have hwithout : (d.without i.spanIds).without (pre.flatMap Item.spanIds) x =
          d.without ((i :: pre).flatMap Item.spanIds) x := by
        simp only [Waiting.without, List.flatMap_cons, List.mem_append]
        by_cases h₁ : x ∈ i.spanIds <;> by_cases h₂ : x ∈ pre.flatMap Item.spanIds <;> simp [h₁, h₂]
      rw [hwithout]
      exact hlater

/-! ### Weights -/

/-- What attachments add to the size of a record together. -/
def weight (l : List DanglingItem) : Nat := (l.map DanglingItem.size).sum

private theorem weight_append (l l' : List DanglingItem) : weight (l ++ l') = weight l + weight l' := by
  simp [weight]

private theorem weight_flatMap {α : Type} (l : List α) (f : α → List DanglingItem) :
    weight (l.flatMap f) = (l.map fun a => weight (f a)).sum := by
  induction l with
  | nil => rfl
  | cons a l ih => rw [List.flatMap_cons, weight_append, ih, List.map_cons, List.sum_cons]

theorem weight_flatMap_eq_zero {α : Type} {l : List α} {f : α → List DanglingItem} (h : ∀ a ∈ l, weight (f a) = 0) :
    weight (l.flatMap f) = 0 := by
  rw [weight_flatMap, List.sum_eq_zero_iff, List.forall_mem_map]
  exact h

private theorem visible_iff_size_pos (a : DanglingItem) : a.Visible ↔ 0 < a.size := by
  unfold DanglingItem.Visible DanglingItem.size
  rw [← List.length_pos_iff, ← List.length_pos_iff]
  omega

theorem weight_eq_zero_iff {l : List DanglingItem} : weight l = 0 ↔ ∀ a ∈ l, ¬a.Visible := by
  simp [weight, List.sum_eq_zero_iff, visible_iff_size_pos]

private theorem mount_size (r : SpanRecord) (l : List DanglingItem) : (r.mount l).size = r.size + weight l := by
  have hlength : weight l = (l.flatMap DanglingItem.props).length + (l.flatMap DanglingItem.events).length := by
    induction l with
    | nil => rfl
    | cons a l ih =>
      simp only [weight, List.map_cons, List.sum_cons, List.flatMap_cons, List.length_append] at ih ⊢
      rw [ih, DanglingItem.size]
      omega
  rw [mount_eq, hlength]
  simp only [SpanRecord.size, List.length_append]
  omega

theorem sameMount_nil_iff {l : List DanglingItem} : SameMount [] l ↔ weight l = 0 := by
  rw [weight_eq_zero_iff]
  have h := mount_append_eq_iff ⟨⟨0⟩, ⟨0⟩, ⟨0⟩, 0, 0, "", [], []⟩ l []
  rw [List.append_nil] at h
  rw [← h, mount_eq, mount_eq]
  simp [SameMount]

/-- What weighs nothing changes nothing. -/
theorem sameMount_of_zero {l₁ l₂ l l₃ : List DanglingItem} (h₁ : weight l₁ = 0) (h₂ : weight l₂ = 0)
    (h₃ : weight l₃ = 0) : SameMount (l₁ ++ (l₂ ++ (l ++ l₃))) l := by
  obtain ⟨p₁, e₁⟩ := sameMount_nil_iff.2 h₁
  obtain ⟨p₂, e₂⟩ := sameMount_nil_iff.2 h₂
  obtain ⟨p₃, e₃⟩ := sameMount_nil_iff.2 h₃
  constructor
  · simp [List.flatMap_append, ← p₁, ← p₂, ← p₃]
  · simp [List.flatMap_append, ← e₁, ← e₂, ← e₃]

/-- The total of `w` over the records. -/
def total (w : SpanRecord → Nat) (rs : List SpanRecord) : Nat := (rs.map w).sum

private theorem total_append (w : SpanRecord → Nat) (rs rs' : List SpanRecord) :
    total w (rs ++ rs') = total w rs + total w rs' := by
  simp [total]

theorem total_flatMap {α : Type} (w : SpanRecord → Nat) (l : List α) (f : α → List SpanRecord) :
    total w (l.flatMap f) = (l.map fun a => total w (f a)).sum := by
  induction l with
  | nil => rfl
  | cons a l ih => rw [List.flatMap_cons, total_append, ih, List.map_cons, List.sum_cons]

/-- The size of the records of `x`. -/
def sizeAt (x : SpanId) (r : SpanRecord) : Nat := if r.spanId = x then r.size else 0

/-- The records of `x` that are larger than `n`. -/
def loadedAt (x : SpanId) (n : Nat) (r : SpanRecord) : Nat := if r.spanId = x ∧ n < r.size then 1 else 0

private theorem total_mountAll_size (d : Waiting) (rs : List SpanRecord) (x : SpanId) :
    total (sizeAt x) (mountAll d rs) =
      total (sizeAt x) rs + if x ∈ rs.map SpanRecord.spanId then weight (d x) else 0 := by
  induction rs generalizing d with
  | nil => rfl
  | cons r rs ih =>
    have h := ih (Function.update d r.spanId [])
    simp only [total, mountAll, List.map_cons, List.sum_cons, List.mem_cons, sizeAt, mount_spanId, mount_size] at h ⊢
    rw [h]
    by_cases hx : r.spanId = x
    · subst hx
      simp [weight]
      omega
    · simp [hx, Ne.symm hx]

private theorem total_mountAll_loaded {d : Waiting} {rs : List SpanRecord} {x : SpanId} {n : Nat}
    (h : ∀ r ∈ rs, r.spanId = x → r.size = n) :
    total (loadedAt x n) (mountAll d rs) = if x ∈ rs.map SpanRecord.spanId ∧ 0 < weight (d x) then 1 else 0 := by
  induction rs generalizing d with
  | nil => rfl
  | cons r rs ih =>
    rw [List.forall_mem_cons] at h
    have ih := ih (d := Function.update d r.spanId []) h.2
    simp only [total, mountAll, List.map_cons, List.sum_cons, List.mem_cons, loadedAt, mount_spanId,
      mount_size] at ih ⊢
    rw [ih]
    by_cases hx : r.spanId = x
    · subst hx
      simp [weight, h.1 rfl]
    · simp [hx, Ne.symm hx]

/-! ### The two passes -/

/-- What the item attaches to the span `x`. -/
def Item.weightFor (anchor : Anchor) (x : SpanId) (i : Item) : Nat := weight (keyed (i.attachments anchor) x)

private theorem sum_ite_le {α : Type} (l : List α) (p : α → Prop) [DecidablePred p] (f : α → Nat) :
    (l.map fun a => if p a then f a else 0).sum ≤ (l.map f).sum := by
  apply List.sum_le_sum
  intro a _
  split
  · exact le_refl _
  · exact Nat.zero_le _

private theorem eq_zero_of_sum_ite {α : Type} {l : List α} {p : α → Prop} [DecidablePred p] {f : α → Nat}
    (h : (l.map f).sum ≤ (l.map fun a => if p a then f a else 0).sum) {a : α} (ha : a ∈ l) (hp : ¬p a) : f a = 0 := by
  induction l with
  | nil => cases ha
  | cons b l ih =>
    simp only [List.map_cons, List.sum_cons] at h
    have hle := sum_ite_le l p f
    rcases List.mem_cons.1 ha with rfl | ha
    · rw [if_neg hp] at h
      omega
    · refine ih ?_ ha
      split at h <;> omega

section

variable {d : Waiting} {anchor : Anchor} {items : List Item} {x : SpanId}

private theorem weight_gathered (d : Waiting) (anchor : Anchor) (items : List Item) (x : SpanId) :
    weight (gathered d (timed anchor items) x) = weight (d x) + (items.map (Item.weightFor anchor x)).sum := by
  have htimed : keyed (attachments (timed anchor items)) x =
      items.flatMap fun i => keyed (i.attachments anchor) x := by
    rw [keyed_attachments, timed, List.flatMap_map]
  rw [gathered, weight_append, htimed, weight_flatMap]
  rfl

private theorem heads_timed (anchor : Anchor) (items : List Item) :
    heads (timed anchor items) = items.flatMap fun i => i.heads anchor := by
  rw [heads, timed, List.flatMap_map]

theorem heads_timed_spanId (anchor : Anchor) (items : List Item) :
    (heads (timed anchor items)).map SpanRecord.spanId = items.flatMap Item.spanIds := by
  rw [heads_spanId, timed, List.flatMap_map]

private theorem total_stale (w : SpanRecord → Nat) (anchor : Anchor) (items : List Item) :
    total w (staleRecords anchor items) =
      (items.map fun i => total w (mountAll (keyed (i.attachments anchor)) (i.heads anchor))).sum := by
  rw [staleRecords, total_flatMap]
  simp only [recordsOf_single]

/-- The sizes in the pass over all items. -/
private theorem size_pass (d : Waiting) (anchor : Anchor) (items : List Item) (x : SpanId) :
    total (sizeAt x) (mountAll (gathered d (timed anchor items)) (heads (timed anchor items))) =
      total (sizeAt x) (heads (timed anchor items)) + if x ∈ items.flatMap Item.spanIds then
        weight (d x) + (items.map (Item.weightFor anchor x)).sum else 0 := by
  rw [total_mountAll_size, heads_timed_spanId, weight_gathered]

/-- The sizes in the passes over each item. -/
private theorem size_stale (anchor : Anchor) (items : List Item) (x : SpanId) :
    total (sizeAt x) (staleRecords anchor items) = total (sizeAt x) (heads (timed anchor items)) +
      (items.map fun i => if x ∈ i.spanIds then i.weightFor anchor x else 0).sum := by
  rw [total_stale, heads_timed, total_flatMap, ← List.sum_map_add]
  simp only [total_mountAll_size, item_heads_spanId, Item.weightFor]

private theorem sum_outside (h : x ∉ items.flatMap Item.spanIds) :
    (items.map fun i => if x ∈ i.spanIds then i.weightFor anchor x else 0).sum = 0 := by
  rw [List.sum_eq_zero_iff]
  intro n hn
  obtain ⟨i, hi, rfl⟩ := List.mem_map.1 hn
  exact if_neg fun hx => h (List.mem_flatMap.2 ⟨i, hi, hx⟩)

theorem stale_size_le (d : Waiting) (anchor : Anchor) (items : List Item) (x : SpanId) :
    total (sizeAt x) (staleRecords anchor items) ≤
      total (sizeAt x) (mountAll (gathered d (timed anchor items)) (heads (timed anchor items))) := by
  rw [size_pass, size_stale]
  have hle := sum_ite_le items (fun i => x ∈ i.spanIds) (Item.weightFor anchor x)
  split
  · omega
  · rw [sum_outside ‹_›]

/-- When the sizes are the same, nothing waits for the span, and all that comes for it comes with it. -/
theorem waits_nothing (h : total (sizeAt x) (staleRecords anchor items) =
      total (sizeAt x) (mountAll (gathered d (timed anchor items)) (heads (timed anchor items))))
    (hx : x ∈ items.flatMap Item.spanIds) :
    weight (d x) = 0 ∧ ∀ i ∈ items, x ∉ i.spanIds → i.weightFor anchor x = 0 := by
  rw [size_pass, size_stale, if_pos hx] at h
  have hle := sum_ite_le items (fun i => x ∈ i.spanIds) (Item.weightFor anchor x)
  refine ⟨by omega, fun i hi hnot => eq_zero_of_sum_ite (p := fun i => x ∈ i.spanIds) ?_ hi hnot⟩
  omega

/-- The records larger than `n`, the size that the records of `x` have before mounting. -/
private theorem loaded_stale {n : Nat} (hn : ∀ i ∈ items, ∀ r ∈ i.heads anchor, r.spanId = x → r.size = n) :
    total (loadedAt x n) (staleRecords anchor items) =
      (items.map fun i => if x ∈ i.spanIds ∧ 0 < i.weightFor anchor x then 1 else 0).sum := by
  rw [total_stale]
  congr 1
  apply List.map_congr_left
  intro i hi
  rw [total_mountAll_loaded (hn i hi), item_heads_spanId]
  rfl

private theorem loaded_pass {n : Nat} (d : Waiting)
    (hn : ∀ i ∈ items, ∀ r ∈ i.heads anchor, r.spanId = x → r.size = n) :
    total (loadedAt x n) (mountAll (gathered d (timed anchor items)) (heads (timed anchor items))) =
      if x ∈ items.flatMap Item.spanIds ∧ 0 < weight (d x) + (items.map (Item.weightFor anchor x)).sum then 1
      else 0 := by
  rw [total_mountAll_loaded, heads_timed_spanId, weight_gathered]
  intro r hr hx
  rw [heads_timed] at hr
  obtain ⟨i, hi, hr⟩ := List.mem_flatMap.1 hr
  exact hn i hi r hr hx

/-- When the sizes are the same, the pass over all items loads at most one record, and the others one for each item
that has something for its span. -/
theorem loaded_le_stale {n : Nat} (hn : ∀ i ∈ items, ∀ r ∈ i.heads anchor, r.spanId = x → r.size = n)
    (hsize : total (sizeAt x) (staleRecords anchor items) =
      total (sizeAt x) (mountAll (gathered d (timed anchor items)) (heads (timed anchor items)))) :
    total (loadedAt x n) (mountAll (gathered d (timed anchor items)) (heads (timed anchor items))) ≤
      total (loadedAt x n) (staleRecords anchor items) := by
  rw [loaded_pass d hn, loaded_stale hn]
  split
  · rename_i h
    obtain ⟨hd, hout⟩ := waits_nothing hsize h.1
    have hpos : 0 < (items.map (Item.weightFor anchor x)).sum := by omega
    obtain ⟨m, hm, hmpos⟩ : ∃ m ∈ items.map (Item.weightFor anchor x), 0 < m := by
      by_contra hnone
      push Not at hnone
      have := List.sum_eq_zero_iff.2 fun m hm => Nat.le_zero.1 (hnone m hm)
      omega
    obtain ⟨i, hi, rfl⟩ := List.mem_map.1 hm
    have hxi : x ∈ i.spanIds := by
      by_contra hnot
      have := hout i hi hnot
      omega
    refine List.le_sum_of_mem (List.mem_map.2 ⟨i, hi, ?_⟩)
    exact if_pos ⟨hxi, hmpos⟩
  · exact Nat.zero_le _

/-- When the loaded records are as many, at most one item has something for a span that it brings. -/
theorem loads_one {n : Nat} (hn : ∀ i ∈ items, ∀ r ∈ i.heads anchor, r.spanId = x → r.size = n)
    (hloaded : total (loadedAt x n) (mountAll (gathered d (timed anchor items)) (heads (timed anchor items))) =
      total (loadedAt x n) (staleRecords anchor items))
    {pre post : List Item} {i i' : Item} (hsplit : items = pre ++ i :: post) (hi' : i' ∈ post) (hx : x ∈ i.spanIds)
    (hx' : x ∈ i'.spanIds) (hw : 0 < i.weightFor anchor x) : i'.weightFor anchor x = 0 := by
  have hle : total (loadedAt x n) (staleRecords anchor items) ≤ 1 := by
    rw [← hloaded, loaded_pass d hn]
    split <;> omega
  rw [loaded_stale hn, hsplit, List.map_append, List.map_cons, List.sum_append, List.sum_cons,
    if_pos (⟨hx, hw⟩ : x ∈ i.spanIds ∧ 0 < i.weightFor anchor x)] at hle
  by_contra hw'
  have hone : 1 ≤ (post.map fun i => if x ∈ i.spanIds ∧ 0 < i.weightFor anchor x then 1 else 0).sum :=
    List.le_sum_of_mem (List.mem_map.2 ⟨i', hi', if_pos ⟨hx', by omega⟩⟩)
  omega

end

end Fastrace

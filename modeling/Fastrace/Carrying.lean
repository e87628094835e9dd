import Fastrace.Batches
import Mathlib.Algebra.GroupWithZero.Nat

/-!
# Records that carry their attachments

`Carries rec raw atts`: the record `rec` of the raw span `raw` has all attachments `atts`, each exactly once.  A pass
mounts all that waits for a span on the first record of the span, so of several records in one pass the others carry
nothing (`carries_copies`), and the only record carries what has been gathered (`carries_single`).
-/

namespace Fastrace

/-- The record has the events and properties of `atts`, each once, after the properties of the span itself.  The
order is free, and so are the anchors with which the times of the events have been converted. -/
def Carries (rec : SpanRecord) (raw : RawSpan) (atts : List RawSpan) : Prop :=
  ∃ l : List (Anchor × RawSpan), (l.map (·.2)).Perm atts ∧
    rec.events = l.flatMap (fun p => (p.2.dangling p.1).events) ∧
    rec.properties = raw.properties.getD [] ++ l.flatMap fun p => (p.2.dangling p.1).props

/-- The attachment adds an event or a property. -/
def RawSpan.Attaches (raw : RawSpan) : Prop := raw.rawKind = .event ∨ raw.properties.getD [] ≠ []

/-- The number of events and properties that an attachment adds. -/
def RawSpan.weight (raw : RawSpan) : Nat :=
  match raw.rawKind with
  | .event => 1
  | _ => (raw.properties.getD []).length

private theorem attaches_iff {raw : RawSpan} : raw.Attaches ↔ raw.weight ≠ 0 := by
  unfold RawSpan.Attaches RawSpan.weight
  cases raw.rawKind <;> simp

private theorem weight_dangling (raw : RawSpan) (anchor : Anchor) :
    (raw.dangling anchor).size = raw.weight := by
  unfold RawSpan.dangling RawSpan.weight DanglingItem.size
  cases raw.rawKind <;> simp [DanglingItem.events, DanglingItem.props]

/-- An attachment that adds nothing leaves no trace on a record. -/
private theorem dangling_of_not_attaches {raw : RawSpan} (h : ¬raw.Attaches) (anchor : Anchor) :
    (raw.dangling anchor).events = [] ∧ (raw.dangling anchor).props = [] := by
  have hw := weight_dangling raw anchor
  rw [attaches_iff, not_not] at h
  rw [h, DanglingItem.size] at hw
  exact ⟨List.length_eq_zero_iff.1 (by omega), List.length_eq_zero_iff.1 (by omega)⟩

private theorem length_flatMap_dangling (l : List (Anchor × RawSpan)) :
    (l.flatMap fun p => (p.2.dangling p.1).events).length + (l.flatMap fun p => (p.2.dangling p.1).props).length =
      ((l.map (·.2)).map RawSpan.weight).sum := by
  induction l with
  | nil => rfl
  | cons p l ih =>
    have hw := weight_dangling p.2 p.1
    rw [DanglingItem.size] at hw
    simp only [List.flatMap_cons, List.length_append, List.map_cons, List.sum_cons]
    omega

/-- The events and properties of a record that carries its attachments are as many as there should be. -/
theorem Carries.size {rec : SpanRecord} {raw : RawSpan} {atts : List RawSpan} (h : Carries rec raw atts) :
    rec.size = (raw.properties.getD []).length + (atts.map RawSpan.weight).sum := by
  obtain ⟨l, hperm, hevents, hprops⟩ := h
  have hw := length_flatMap_dangling l
  rw [(hperm.map RawSpan.weight).sum_nat] at hw
  rw [SpanRecord.size, hevents, hprops, List.length_append]
  omega

private theorem sum_weight_eq_zero {atts : List RawSpan} :
    (atts.map RawSpan.weight).sum = 0 ↔ ∀ a ∈ atts, ¬a.Attaches := by
  rw [List.sum_eq_zero_iff_forall_eq_nat]
  simp only [List.forall_mem_map, attaches_iff, not_not]

private theorem flatMap_silent {l : List (Anchor × RawSpan)} (h : ∀ a ∈ l.map (·.2), ¬a.Attaches) :
    (l.flatMap fun p => (p.2.dangling p.1).events) = [] ∧ (l.flatMap fun p => (p.2.dangling p.1).props) = [] := by
  rw [List.flatMap_eq_nil_iff, List.flatMap_eq_nil_iff]
  exact ⟨fun p hp => (dangling_of_not_attaches (h p.2 (List.mem_map_of_mem hp)) p.1).1,
    fun p hp => (dangling_of_not_attaches (h p.2 (List.mem_map_of_mem hp)) p.1).2⟩

/-- A record with a part of the attachments carries all of them exactly when the others add nothing. -/
private theorem carries_part {rec : SpanRecord} {raw : RawSpan} {atts out : List RawSpan} {l : List (Anchor × RawSpan)}
    (hatts : atts.Perm (l.map (·.2) ++ out)) (hevents : rec.events = l.flatMap (fun p => (p.2.dangling p.1).events))
    (hprops : rec.properties = raw.properties.getD [] ++ l.flatMap fun p => (p.2.dangling p.1).props) :
    Carries rec raw atts ↔ ∀ a ∈ out, ¬a.Attaches := by
  constructor
  · intro h
    have hweight := h.size
    have hpart : Carries rec raw (l.map (·.2)) := ⟨l, List.Perm.refl _, hevents, hprops⟩
    have hsum := (hatts.map RawSpan.weight).sum_nat
    rw [List.map_append, List.sum_append] at hsum
    rw [hpart.size, hsum] at hweight
    exact sum_weight_eq_zero.1 (by omega)
  · intro hout
    let others : List (Anchor × RawSpan) := out.map fun a => (fun _ => 0, a)
    have hothers : others.map (·.2) = out := by simp [others, Function.comp_def]
    have hsilent := flatMap_silent (l := others) (by rw [hothers]; exact hout)
    refine ⟨l ++ others, ?_, ?_, ?_⟩
    · rw [List.map_append, hothers]
      exact hatts.symm
    · rw [List.flatMap_append, hsilent.1, List.append_nil, hevents]
    · rw [List.flatMap_append, hsilent.2, List.append_nil, hprops]

/-- A record without attachments. -/
theorem carries_bare {rec : SpanRecord} {raw : RawSpan} {atts : List RawSpan} (hevents : rec.events = [])
    (hprops : rec.properties = raw.properties.getD []) : Carries rec raw atts ↔ ∀ a ∈ atts, ¬a.Attaches :=
  carries_part (l := []) (by simp) (by simpa using hevents) (by simpa using hprops)

/-! ### The records of one span in a pass -/

private theorem record_spanId (anchor : Anchor) (i : Item) (raw : RawSpan) :
    (i.record anchor raw).spanId = raw.id := rfl

private theorem filter_id {raws : List RawSpan} (hnodup : (raws.map (·.id)).Nodup) {raw : RawSpan}
    (hraw : raw ∈ raws) : raws.filter (·.id = raw.id) = [raw] := by
  obtain ⟨before, after, rfl⟩ := List.append_of_mem hraw
  rw [List.map_append, List.map_cons] at hnodup
  have hnot : ∀ raw' ∈ before ++ after, raw'.id ≠ raw.id := by
    intro raw' hraw' he
    have hmid := List.nodup_middle.1 hnodup
    rw [List.nodup_cons, ← List.map_append] at hmid
    exact hmid.1 (he ▸ List.mem_map_of_mem hraw')
  have hnil : ∀ l : List RawSpan, (∀ raw' ∈ l, raw'.id ≠ raw.id) → l.filter (·.id = raw.id) = [] := by
    intro l hl
    rw [List.filter_eq_nil_iff]
    intro raw' hraw'
    simpa using hl raw' hraw'
  rw [List.filter_append, List.filter_cons_of_pos (by simp), hnil before fun r hr => hnot r (by simp [hr]),
    hnil after fun r hr => hnot r (by simp [hr])]
  rfl

/-- The heads of a span: one for each item with the span. -/
theorem filter_heads_eq {raw : RawSpan} (hkind : raw.rawKind = .span) {items : List Item}
    (hitems : ∀ i ∈ items, raw.id ∈ i.spanIds → (i.spans.raws.map (·.id)).Nodup ∧ raw ∈ i.spans.raws)
    (anchor : Anchor) : (heads (timed anchor items)).filter (·.spanId = raw.id) =
      (items.filter fun i => raw.id ∈ i.spanIds).map fun i => i.record anchor raw := by
  induction items with
  | nil => rfl
  | cons i items ih =>
    rw [List.forall_mem_cons] at hitems
    have hcons : heads (timed anchor (i :: items)) = i.heads anchor ++ heads (timed anchor items) := rfl
    rw [hcons, List.filter_append, ih hitems.2]
    have hmap : (i.heads anchor).filter (·.spanId = raw.id) =
        ((i.spans.raws.filter (·.id = raw.id)).filter (·.rawKind = .span)).map (i.record anchor) := by
      rw [Item.heads, List.filter_map, List.filter_filter, List.filter_filter]
      congr 1
      apply List.filter_congr
      intro raw' _
      rw [Function.comp_apply, record_spanId, Bool.and_comm]
    by_cases hmem : raw.id ∈ i.spanIds
    · obtain ⟨hnodup, hraw⟩ := hitems.1 hmem
      rw [hmap, filter_id hnodup hraw]
      simp [hkind, hmem]
    · rw [List.filter_cons_of_neg (by simpa using hmem), hmap]
      have hnil : (i.spans.raws.filter (·.id = raw.id)).filter (·.rawKind = .span) = [] := by
        rw [List.filter_filter, List.filter_eq_nil_iff]
        intro raw' hraw' hboth
        simp only [Bool.and_eq_true, decide_eq_true_eq] at hboth
        exact hmem (List.mem_map.2 ⟨raw', List.mem_filter.2 ⟨hraw', by simpa using hboth.1⟩, hboth.2⟩)
      rw [hnil]
      rfl

section Pass

variable {raw : RawSpan} {items : List Item} {anchor : Anchor} {d : Waiting}

/-- Of several records of a span in one pass the first takes everything. -/
theorem carries_copies {atts : List RawSpan} {h₁ h₂ : SpanRecord} {rest : List SpanRecord}
    (hheads : (heads (timed anchor items)).filter (·.spanId = raw.id) = h₁ :: h₂ :: rest)
    (hbare : ∀ h ∈ h₁ :: h₂ :: rest, h.events = [] ∧ h.properties = raw.properties.getD [])
    (hgathered : ∀ a ∈ gathered d (timed anchor items) raw.id, ∃ anchor', ∃ a' ∈ atts, a = a'.dangling anchor') :
    (∀ rec ∈ recordsOf d (timed anchor items), rec.spanId = raw.id → Carries rec raw atts) ↔
      ∀ a ∈ atts, ¬a.Attaches := by
  have hfilter : (recordsOf d (timed anchor items)).filter (·.spanId = raw.id) =
      h₁.mount (gathered d (timed anchor items) raw.id) :: h₂ :: rest := by
    unfold recordsOf
    rw [filter_mountAll, hheads]
  have hmem : ∀ rec, rec ∈ recordsOf d (timed anchor items) ∧ rec.spanId = raw.id ↔
      rec ∈ h₁.mount (gathered d (timed anchor items) raw.id) :: h₂ :: rest := by
    intro rec
    rw [← hfilter, List.mem_filter, decide_eq_true_iff]
  constructor
  · intro h
    obtain ⟨hrec, hid⟩ := (hmem h₂).2 (by simp)
    obtain ⟨hevents, hprops⟩ := hbare h₂ (by simp)
    exact (carries_bare hevents hprops).1 (h h₂ hrec hid)
  · intro hatts rec hrec hid
    rcases List.mem_cons.1 ((hmem rec).1 ⟨hrec, hid⟩) with rfl | hrest
    · obtain ⟨hevents, hprops⟩ := hbare h₁ (by simp)
      have hsilent : ∀ a ∈ gathered d (timed anchor items) raw.id, a.events = [] ∧ a.props = [] := by
        intro a ha
        obtain ⟨anchor', a', ha', rfl⟩ := hgathered a ha
        exact dangling_of_not_attaches (hatts a' ha') anchor'
      have hnil : (gathered d (timed anchor items) raw.id).flatMap DanglingItem.events = [] ∧
          (gathered d (timed anchor items) raw.id).flatMap DanglingItem.props = [] := by
        rw [List.flatMap_eq_nil_iff, List.flatMap_eq_nil_iff]
        exact ⟨fun a ha => (hsilent a ha).1, fun a ha => (hsilent a ha).2⟩
      rw [mount_eq, hnil.1, hnil.2, List.append_nil, List.append_nil]
      exact (carries_bare hevents hprops).2 hatts
    · obtain ⟨hevents, hprops⟩ := hbare rec (List.mem_cons_of_mem _ hrest)
      exact (carries_bare hevents hprops).2 hatts

/-- The only record of a span in a pass takes what has been gathered for the span. -/
theorem carries_single {atts : List RawSpan} {h : SpanRecord}
    (hheads : (heads (timed anchor items)).filter (·.spanId = raw.id) = [h])
    (hbare : h.events = [] ∧ h.properties = raw.properties.getD []) (l : List (Anchor × RawSpan))
    (hgathered : gathered d (timed anchor items) raw.id = l.map fun p => p.2.dangling p.1) (out : List RawSpan)
    (hatts : atts.Perm (l.map (·.2) ++ out)) :
    (∀ rec ∈ recordsOf d (timed anchor items), rec.spanId = raw.id → Carries rec raw atts) ↔
      ∀ a ∈ out, ¬a.Attaches := by
  have hfilter : (recordsOf d (timed anchor items)).filter (·.spanId = raw.id) =
      [h.mount (gathered d (timed anchor items) raw.id)] := by
    unfold recordsOf
    rw [filter_mountAll, hheads]
  have hmem : ∀ rec, rec ∈ recordsOf d (timed anchor items) ∧ rec.spanId = raw.id ↔
      rec = h.mount (gathered d (timed anchor items) raw.id) := by
    intro rec
    have hfiltered : rec ∈ (recordsOf d (timed anchor items)).filter (·.spanId = raw.id) ↔
        rec = h.mount (gathered d (timed anchor items) raw.id) := by rw [hfilter, List.mem_singleton]
    rwa [List.mem_filter, decide_eq_true_iff] at hfiltered
  have hcarries : Carries (h.mount (gathered d (timed anchor items) raw.id)) raw atts ↔ ∀ a ∈ out, ¬a.Attaches := by
    refine carries_part hatts ?_ ?_
    · simp [mount_eq, hbare.1, hgathered, List.flatMap_map]
    · simp [mount_eq, hbare.2, hgathered, List.flatMap_map]
  rw [← hcarries]
  constructor
  · intro hall
    obtain ⟨hrec, hid⟩ := (hmem _).2 rfl
    exact hall _ hrec hid
  · intro hc rec hrec hid
    rw [(hmem rec).1 ⟨hrec, hid⟩]
    exact hc

end Pass

end Fastrace

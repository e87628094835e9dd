import Fastrace.Tokens
import Fastrace.Cancelable
import Fastrace.Replicas

/-!
# The submissions of a program

What the collector may rely on about the submissions of one program (`Coherent`): a raw span is submitted once, or in
several copies of one set of local spans; an attachment that names a span as its parent is submitted for the collect
ids of that span, with the same number of items; and an attachment that names a local span is in the set of that local
span.  This holds of all that a program with fresh ids submits (`coherent_of_tokens`) and of any part of it.
-/

namespace Fastrace

variable {T : Type}

def SubmitSpans.rawIds (cmd : SubmitSpans) : List SpanId := cmd.spans.raws.map (·.id)

/-- The attachment `raw` of the submission is addressed to `x` by the item. -/
structure Addressed (cmd : SubmitSpans) (item : CollectTokenItem) (raw : RawSpan) (x : SpanId) : Prop where
  item_mem : item ∈ cmd.collectToken
  raw_mem : raw ∈ cmd.spans.raws
  kind : raw.rawKind ≠ .span
  parent : (itemOf cmd.spans item).parentOf raw = x

def SubmitSpans.IsSet (cmd : SubmitSpans) : Prop := ∀ raw, cmd.spans ≠ .span raw

structure Coherent (subs : List SubmitSpans) : Prop where
  nodup : ∀ cmd ∈ subs, cmd.rawIds.Nodup
  same : ∀ cmd ∈ subs, ∀ cmd' ∈ subs, ∀ x, x ∈ cmd.rawIds → x ∈ cmd'.rawIds → cmd.spans.raws = cmd'.spans.raws
  once : ∀ raw token, ⟨.span raw, token⟩ ∈ subs → (subs.filter fun cmd => raw.id ∈ cmd.rawIds).length ≤ 1
  span : ∀ raw token, raw.rawKind = .span → ⟨.span raw, token⟩ ∈ subs → ∀ cmd ∈ subs, ∀ item raw',
    Addressed cmd item raw' raw.id → cmd.collectToken.map (·.collectId) = token.map (·.collectId) ∧
      ∀ item' ∈ cmd.collectToken, (itemOf cmd.spans item').parentOf raw' = raw.id
  localSpan : ∀ cmd ∈ subs, cmd.IsSet → ∀ raw ∈ cmd.spans.raws, raw.rawKind = .span → raw.id ≠ default ∧
    ∀ cmd' ∈ subs, ∀ item raw', Addressed cmd' item raw' raw.id →
      cmd'.IsSet ∧ cmd'.spans.raws = cmd.spans.raws ∧ raw'.parentId = raw.id

theorem Coherent.subperm {subs subs' : List SubmitSpans} (h : Coherent subs) (hsub : subs'.Subperm subs) :
    Coherent subs' where
  nodup cmd hcmd := h.nodup cmd (hsub.subset hcmd)
  same cmd hcmd cmd' hcmd' := h.same cmd (hsub.subset hcmd) cmd' (hsub.subset hcmd')
  once raw token hcmd := le_trans (hsub.filter _).length_le (h.once raw token (hsub.subset hcmd))
  span raw token hkind hraw cmd hcmd := h.span raw token hkind (hsub.subset hraw) cmd (hsub.subset hcmd)
  localSpan cmd hcmd hset raw hraw hkind :=
    ⟨(h.localSpan cmd (hsub.subset hcmd) hset raw hraw hkind).1, fun cmd' hcmd' =>
      (h.localSpan cmd (hsub.subset hcmd) hset raw hraw hkind).2 cmd' (hsub.subset hcmd')⟩

/-! ### Ids -/

section Ids

variable {drawn : List SpanId} {v : View T}

/-- A submission takes its raw spans with it, or shares them with a collected set. -/
private theorem rawIds_cases (ho : Owned drawn v) {cmd : SubmitSpans} (hcmd : cmd ∈ v.submitted) :
    cmd.rawIds = cmd.ownIds ∨ ∃ l localSpans, cmd.ownIds = [] ∧ v.collected l = some localSpans ∧
      cmd.spans.raws = localSpans.spans := by
  unfold SubmitSpans.rawIds SubmitSpans.ownIds
  cases hspans : cmd.spans with
  | span raw => exact Or.inl rfl
  | localSpansInner localSpans => exact Or.inl rfl
  | sharedLocalSpans localSpans =>
    obtain ⟨l, hl⟩ := ho.shared cmd hcmd localSpans hspans
    exact Or.inr ⟨l, localSpans, rfl, hl, rfl⟩

private theorem mem_submitted {cmd : SubmitSpans} (hcmd : cmd ∈ v.submitted) {x : SpanId} (hx : x ∈ cmd.ownIds) :
    x ∈ v.holds .submitted := List.mem_flatMap.2 ⟨cmd, hcmd, hx⟩

private theorem mem_collected {l : Var} {localSpans : LocalSpansInner} (hl : v.collected l = some localSpans)
    {x : SpanId} (hx : x ∈ localSpans.ids) : x ∈ v.holds (.collected l) := by
  simpa [View.holds, hl] using hx

private theorem rawIds_nodup (ho : Owned drawn v) {cmd : SubmitSpans} (hcmd : cmd ∈ v.submitted) :
    cmd.rawIds.Nodup := by
  rcases rawIds_cases ho hcmd with hown | ⟨l, localSpans, -, hl, hraws⟩
  · rw [hown]
    have hnodup := ho.exclusive.nodup .submitted
    change (v.submitted.flatMap SubmitSpans.ownIds).Nodup at hnodup
    exact (List.nodup_flatMap.1 hnodup).1 cmd hcmd
  · have hnodup := ho.exclusive.nodup (.collected l)
    rw [SubmitSpans.rawIds, hraws]
    simpa [View.holds, hl, LocalSpansInner.ids] using hnodup

/-- Two submissions that share an id are copies of one set, or the same. -/
private theorem raws_eq (ho : Owned drawn v) {cmd cmd' : SubmitSpans} (hcmd : cmd ∈ v.submitted)
    (hcmd' : cmd' ∈ v.submitted) {x : SpanId} (hx : x ∈ cmd.rawIds) (hx' : x ∈ cmd'.rawIds) :
    cmd.spans.raws = cmd'.spans.raws := by
  rcases rawIds_cases ho hcmd with hown | ⟨l, localSpans, -, hl, hraws⟩ <;>
    rcases rawIds_cases ho hcmd' with hown' | ⟨l', localSpans', -, hl', hraws'⟩
  · have hnodup := ho.exclusive.nodup .submitted
    rw [Exclusive.eq_of_nodup_flatMap hnodup hcmd hcmd' (hown ▸ hx) (hown' ▸ hx')]
  · rw [SubmitSpans.rawIds, hraws'] at hx'
    have hplace := ho.exclusive.owner _ _ x (mem_submitted hcmd (hown ▸ hx)) (mem_collected hl' hx')
    cases hplace
  · rw [SubmitSpans.rawIds, hraws] at hx
    have hplace := ho.exclusive.owner _ _ x (mem_submitted hcmd' (hown' ▸ hx')) (mem_collected hl hx)
    cases hplace
  · rw [SubmitSpans.rawIds, hraws] at hx
    rw [SubmitSpans.rawIds, hraws'] at hx'
    have hplace := ho.exclusive.owner _ _ x (mem_collected hl hx) (mem_collected hl' hx')
    cases hplace
    rw [hl] at hl'
    cases hl'
    rw [hraws, hraws']

/-- A submission that takes its raw spans with it is the only one of its ids. -/
private theorem count_rawIds (ho : Owned drawn v) {x : SpanId} (hx : x ∈ v.holds .submitted) :
    (v.submitted.flatMap SubmitSpans.rawIds).count x ≤ 1 := by
  have heq : (v.submitted.flatMap SubmitSpans.rawIds).count x = (v.submitted.flatMap SubmitSpans.ownIds).count x := by
    rw [List.count_flatMap, List.count_flatMap]
    congr 1
    apply List.map_congr_left
    intro cmd hcmd
    rcases rawIds_cases ho hcmd with hown | ⟨l, localSpans, hnil, hl, hraws⟩
    · rw [Function.comp_apply, Function.comp_apply, hown]
    · have hnot : x ∉ cmd.rawIds := by
        intro hmem
        rw [SubmitSpans.rawIds, hraws] at hmem
        have hplace := ho.exclusive.owner _ _ x hx (mem_collected hl hmem)
        cases hplace
      rw [Function.comp_apply, Function.comp_apply, hnil, List.count_nil, List.count_eq_zero.2 hnot]
  have hnodup := ho.exclusive.nodup .submitted
  change (v.submitted.flatMap SubmitSpans.ownIds).Nodup at hnodup
  rw [heq]
  exact List.nodup_iff_count_le_one.1 hnodup x

end Ids

/-! ### Parents -/

private theorem mem_issued {x : SpanId} {token : CollectToken} {item : CollectTokenItem}
    (h : item ∈ retainSampled (issueToken x token)) : item.parentId = x := by
  obtain ⟨item', -, rfl⟩ := List.mem_map.1 (List.mem_of_mem_filter h)
  rfl

private theorem issued_collectIds (x : SpanId) (token : CollectToken) :
    (retainSampled (issueToken x token)).map (·.collectId) = (retainSampled token).map (·.collectId) := by
  unfold retainSampled issueToken
  rw [List.filter_map, List.map_map]
  rfl

private theorem parentOf_span (raw raw' : RawSpan) (item : CollectTokenItem) :
    (itemOf (.span raw) item).parentOf raw' = item.parentId := rfl

/-- The parent of an entry of a set: a root of the set has the item's. -/
theorem parentOf_set {spans : SpanSet} (hset : ∀ raw, spans ≠ .span raw) (item : CollectTokenItem) (raw : RawSpan) :
    (itemOf spans item).parentOf raw = if raw.parentId = default then item.parentId else raw.parentId := by
  cases spans with
  | span raw' => exact absurd rfl (hset raw')
  | _ => rfl

section Parents

variable {tokenOf : SpanId → Option CollectToken} {drawn : List SpanId} {v : View T}

private theorem set_isSet {spans : SpanSet} {localSpans : LocalSpansInner}
    (hspans : spans = .localSpansInner localSpans ∨ spans = .sharedLocalSpans localSpans) :
    (∀ raw, spans ≠ .span raw) ∧ spans.raws = localSpans.spans := by
  rcases hspans with rfl | rfl <;> exact ⟨fun raw => by simp, rfl⟩

/-- An attachment addressed to a span is submitted with items made from the token of that span. -/
private theorem issued_addressed {cmd : SubmitSpans} (hissued : Issued tokenOf drawn cmd) {item : CollectTokenItem}
    {raw : RawSpan} {x : SpanId} {token : CollectToken} (hx : tokenOf x = some token)
    (haddr : Addressed cmd item raw x) : cmd.collectToken = retainSampled (issueToken x token) ∧
      (cmd.IsSet → raw.parentId = default) := by
  cases hissued with
  | @span raw' token' hkind h =>
    have hraw : raw = raw' := List.mem_singleton.1 haddr.raw_mem
    exact absurd (hraw ▸ hkind) haddr.kind
  | @attachment raw' x' token' hkind h =>
    have hparent := haddr.parent
    rw [parentOf_span, mem_issued haddr.item_mem] at hparent
    subst hparent
    rw [hx] at h
    cases h
    exact ⟨rfl, fun hset => absurd rfl (hset raw')⟩
  | @localSpans spans localSpans x' token' hspans hset h =>
    obtain ⟨hisset, hraws⟩ := set_isSet hspans
    have hparent := haddr.parent
    rw [parentOf_set hisset, mem_issued haddr.item_mem] at hparent
    have hmem : raw ∈ localSpans.spans := hraws ▸ haddr.raw_mem
    split at hparent
    · rename_i hdefault
      subst hparent
      rw [hx] at h
      cases h
      exact ⟨rfl, fun _ => hdefault⟩
    · rename_i hdefault
      -- the parent would be an entry of the set
      obtain ⟨i, hi⟩ := List.mem_iff_getElem?.1 hmem
      rcases hset.back i raw hi with hd | ⟨j, -, raw', hraw', hid, -⟩
      · exact absurd hd hdefault
      · have hnone := (hset.ids raw' (List.mem_of_getElem? hraw')).token_eq_none
        rw [hid, hparent, hx] at hnone
        cases hnone

/-- An attachment addressed to an entry of a set is in a copy of the set and names that entry. -/
private theorem issued_local (ho : Owned drawn v) {cmd cmd' : SubmitSpans} (hcmd : cmd ∈ v.submitted)
    (hcmd' : cmd' ∈ v.submitted) (hissued : Issued tokenOf drawn cmd') {item : CollectTokenItem}
    {raw raw' : RawSpan} (hraw : raw ∈ cmd.spans.raws) (hlocal : LocalId tokenOf drawn raw.id)
    (haddr : Addressed cmd' item raw' raw.id) :
    cmd'.IsSet ∧ cmd'.spans.raws = cmd.spans.raws ∧ raw'.parentId = raw.id := by
  have hspan : ∀ x token, tokenOf x = some token → x ≠ raw.id := by
    intro x token hx he
    rw [he, hlocal.token_eq_none] at hx
    cases hx
  cases hissued with
  | @span raw₁ token' hkind h =>
    have hraw₁ : raw' = raw₁ := List.mem_singleton.1 haddr.raw_mem
    exact absurd (hraw₁ ▸ hkind) haddr.kind
  | @attachment raw₁ x' token' hkind h =>
    have hparent := haddr.parent
    rw [parentOf_span, mem_issued haddr.item_mem] at hparent
    exact absurd hparent (hspan x' token' h)
  | @localSpans spans localSpans x' token' hspans hset h =>
    obtain ⟨hisset, hraws⟩ := set_isSet hspans
    have hparent := haddr.parent
    rw [parentOf_set hisset, mem_issued haddr.item_mem] at hparent
    have hmem : raw' ∈ localSpans.spans := hraws ▸ haddr.raw_mem
    split at hparent
    · exact absurd hparent (hspan x' token' h)
    · rename_i hdefault
      obtain ⟨i, hi⟩ := List.mem_iff_getElem?.1 hmem
      rcases hset.back i raw' hi with hd | ⟨j, -, raw₁, hraw₁, hid, -⟩
      · exact absurd hd hdefault
      · refine ⟨hisset, raws_eq ho hcmd' hcmd (x := raw.id) ?_ (List.mem_map_of_mem hraw), hparent⟩
        rw [← hparent, ← hid]
        exact List.mem_map_of_mem (hraws ▸ List.mem_of_getElem? hraw₁)

/-- The submissions of a program are coherent. -/
theorem coherent_of_tokens (ho : Owned drawn v) (ht : Tokens tokenOf drawn v) : Coherent v.submitted where
  nodup cmd hcmd := rawIds_nodup ho hcmd
  same cmd hcmd cmd' hcmd' x hx hx' := raws_eq ho hcmd hcmd' hx hx'
  once raw token hcmd := le_trans (Exclusive.length_filter_mem_le SubmitSpans.rawIds _ _)
    (count_rawIds ho (mem_submitted hcmd (List.mem_singleton_self _)))
  span raw token hkind hraw cmd hcmd item raw' haddr := by
    cases ht.submitted _ hraw with
    | @span _ token' hkind' h =>
      obtain ⟨htoken, hdefault⟩ := issued_addressed (ht.submitted cmd hcmd) h haddr
      refine ⟨by rw [htoken, issued_collectIds], fun item' hitem' => ?_⟩
      have hparent : item'.parentId = raw.id := mem_issued (htoken ▸ hitem')
      cases hspans : cmd.spans with
      | span raw₁ => exact hparent
      | localSpansInner localSpans =>
        have hset : cmd.IsSet := fun _ he => by rw [hspans] at he; cases he
        rw [parentOf_set (fun _ he => by cases he), if_pos (hdefault hset), hparent]
      | sharedLocalSpans localSpans =>
        have hset : cmd.IsSet := fun _ he => by rw [hspans] at he; cases he
        rw [parentOf_set (fun _ he => by cases he), if_pos (hdefault hset), hparent]
    | attachment hkind' h => exact absurd hkind hkind'
    | localSpans hspans hset h => rcases hspans with hspans | hspans <;> cases hspans
  localSpan cmd hcmd hset raw hraw hkind := by
    have hlocal : LocalId tokenOf drawn raw.id := by
      cases ht.submitted cmd hcmd with
      | @span raw' token' hkind' h => exact absurd rfl (hset raw')
      | @attachment raw' x token' hkind' h => exact absurd rfl (hset raw')
      | localSpans hspans hset' h => exact hset'.ids raw ((set_isSet hspans).2 ▸ hraw)
    exact ⟨hlocal.nonzero, fun cmd' hcmd' item raw' haddr =>
      issued_local ho hcmd hcmd' (ht.submitted cmd' hcmd') hraw hlocal haddr⟩

end Parents

theorem owned_of_run [DecidableEq T] {as : List (T × Op)} (hfresh : FreshIds as) {w : World T}
    (hrun : Steps.run World.step World.init as = some w) :
    Owned (drawnIds as) w.view ∧ ∃ tokenOf, Tokens tokenOf (drawnIds as) w.view := by
  have hstep : ∀ (drawn : List SpanId) (w : World T) (a : T × Op) (w' : World T),
      (Owned drawn w.view ∧ ∃ tokenOf, Tokens tokenOf drawn w.view) → True →
      (∀ x, a.2.id? = some x → x ∉ drawn ∧ x ≠ default) → w.step a = some w' →
      Owned (drawn ++ a.2.id?.toList) w'.view ∧ ∃ tokenOf, Tokens tokenOf (drawn ++ a.2.id?.toList) w'.view := by
    rintro drawn w a w' ⟨howned, tokenOf, htokens⟩ - hx hw
    have heffect := step_effect hw
    exact ⟨howned.step heffect fun x hx' => (hx x hx').1, htokens.step heffect hx⟩
  exact fresh_induction (P := fun drawn v => Owned drawn v ∧ ∃ tokenOf, Tokens tokenOf drawn v) hstep
    ⟨Owned.init, _, Tokens.init⟩ hfresh.nodup hfresh.nonzero (Steps.meet_true _ _) hrun

/-- Whatever a program with fresh ids has submitted is coherent. -/
theorem coherent_of_run [DecidableEq T] {as : List (T × Op)} (hfresh : FreshIds as) {w : World T}
    (hrun : Steps.run World.step World.init as = some w) : Coherent w.submitted := by
  obtain ⟨howned, tokenOf, htokens⟩ := owned_of_run hfresh hrun
  exact coherent_of_tokens howned htokens

end Fastrace

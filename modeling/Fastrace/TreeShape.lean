import Fastrace.Roses
import Fastrace.TreeOrder

/-!
# What the trees show

For rows with ids of their own the table lists under every id the rows it is the parent of (`childrenOf`), and the
tree is what this table unfolds to (`buildTree_eq`), sorted.  `Shows` says what to expect of trees: every row is in
them once and hangs under its parent.  It holds when every row is reached from the root (`ofRows_shows`).  In which
order the rows come makes no difference (`ofRows_perm`).
-/

namespace Fastrace.Tree

def ids (rows : List TreeRow) : List SpanId := rows.map TreeRow.id

/-- The rows under a parent. -/
def childrenOf (rows : List TreeRow) (p : SpanId) : List SpanId := (rows.filter (·.parentId = p)).map TreeRow.id

/-- What is shown of an id; nothing of the root. -/
def label (rows : List TreeRow) (x : SpanId) : TreeNode := ((rows.find? (·.id = x)).map TreeRow.node).getD rootNode

structure DistinctIds (rows : List TreeRow) : Prop where
  nodup : (ids rows).Nodup
  nonzero : default ∉ ids rows

/-- The parent of every row is the root or a row. -/
def Linked (rows : List TreeRow) : Prop := ∀ row ∈ rows, row.parentId = default ∨ row.parentId ∈ ids rows

/-- Every row is reached from the root. -/
def Rooted (rows : List TreeRow) : Prop :=
  ∀ row ∈ rows, Relation.ReflTransGen (fun p x => x ∈ childrenOf rows p) default row.id

mutual

def ofRose (label : SpanId → TreeNode) : Rose SpanId → Tree
  | .node x ts => .mk (label x).name (ofRoses label ts) (label x).properties (label x).events

def ofRoses (label : SpanId → TreeNode) : List (Rose SpanId) → List Tree
  | [] => []
  | t :: ts => ofRose label t :: ofRoses label ts

end

/-- Every row is in the trees once, and hangs under its parent. -/
def Shows (rows : List TreeRow) (trees : List Tree) : Prop :=
  ∃ ts : List (Rose SpanId), trees = ofRoses (label rows) ts ∧ (Rose.preorders ts).Perm (ids rows) ∧
    (Rose.edgesBelow default ts).Perm (rows.map fun row => (row.parentId, row.id))

private theorem ofRoses_eq (label : SpanId → TreeNode) (ts : List (Rose SpanId)) :
    ofRoses label ts = ts.map (ofRose label) := by
  induction ts with
  | nil => rfl
  | cons t ts ih => rw [ofRoses, List.map_cons, ih]

variable {rows rows' : List TreeRow}

theorem mem_childrenOf {p x : SpanId} : x ∈ childrenOf rows p ↔ ∃ row ∈ rows, row.parentId = p ∧ row.id = x := by
  simp [childrenOf, and_assoc]

private theorem childrenOf_subset (p : SpanId) : childrenOf rows p ⊆ ids rows := fun x hx => by
  obtain ⟨row, hrow, -, rfl⟩ := mem_childrenOf.1 hx
  exact List.mem_map_of_mem hrow

private theorem DistinctIds.eq_of_id_eq (h : DistinctIds rows) {row row' : TreeRow} (hrow : row ∈ rows)
    (hrow' : row' ∈ rows)
    (hid : row.id = row'.id) : row = row' :=
  List.inj_on_of_nodup_map h.nodup hrow hrow' hid

theorem DistinctIds.find?_eq_some (h : DistinctIds rows) {x : SpanId} {row : TreeRow} :
    rows.find? (·.id = x) = some row ↔ row ∈ rows ∧ row.id = x := by
  constructor
  · exact fun hfind => ⟨List.mem_of_find?_eq_some hfind, by simpa using List.find?_some hfind⟩
  · rintro ⟨hrow, rfl⟩
    cases hfind : rows.find? (·.id = row.id) with
    | none => exact absurd (decide_eq_true rfl) (List.find?_eq_none.1 hfind row hrow)
    | some row' =>
      have hid : row'.id = row.id := by simpa using List.find?_some hfind
      rw [h.eq_of_id_eq (List.mem_of_find?_eq_some hfind) hrow hid]

theorem DistinctIds.arborescent (h : DistinctIds rows) : Rose.Arborescent (childrenOf rows) default where
  nodup p := List.Sublist.nodup (List.Sublist.map _ List.filter_sublist) h.nodup
  unique hx hx' := by
    obtain ⟨row, hrow, rfl, hid⟩ := mem_childrenOf.1 hx
    obtain ⟨row', hrow', rfl, hid'⟩ := mem_childrenOf.1 hx'
    rw [h.eq_of_id_eq hrow hrow' (hid.trans hid'.symm)]
  root p hp := h.nonzero (childrenOf_subset p hp)

theorem DistinctIds.perm (h : DistinctIds rows) (hperm : rows.Perm rows') : DistinctIds rows' where
  nodup := (hperm.map _).nodup_iff.1 h.nodup
  nonzero hmem := h.nonzero ((hperm.map _).mem_iff.2 hmem)

private theorem Rooted.linked (h : Rooted rows) (hdistinct : DistinctIds rows) : Linked rows := by
  intro row hrow
  have hup : ∀ {x : SpanId}, Relation.ReflTransGen (fun p x => x ∈ childrenOf rows p) default x →
      x = default ∨ x ∈ ids rows := by
    intro x hx
    cases hx with
    | refl => exact Or.inl rfl
    | tail _ hx => exact Or.inr (childrenOf_subset _ hx)
  have hreached := h row hrow
  generalize hid : row.id = x at hreached
  cases hreached with
  | refl => exact absurd (hid ▸ List.mem_map_of_mem hrow) hdistinct.nonzero
  | tail hp hx =>
    have hparent := hdistinct.arborescent.unique hx (mem_childrenOf.2 ⟨row, hrow, rfl, hid⟩)
    exact hparent ▸ hup hp

/-! ### The table -/

theorem get?_insertRows {children : TreeChildren} (h : (ids rows).Nodup) (x : SpanId) :
    (insertRows children rows).get? x = ((rows.find? (·.id = x)).map TreeRow.node).or (children.get? x) := by
  induction rows generalizing children with
  | nil => rfl
  | cons row rows ih =>
    obtain ⟨hhead, htail⟩ := List.nodup_cons.1 h
    rw [insertRows, List.foldl_cons]
    refine (ih htail).trans ?_
    rw [HashMap.get?_insert]
    by_cases hx : row.id = x
    · have hnone : rows.find? (·.id = x) = none := by
        rw [List.find?_eq_none]
        intro row' hrow' hid
        exact hhead (hx ▸ of_decide_eq_true hid ▸ List.mem_map_of_mem hrow')
      rw [hnone, if_pos hx.symm, List.find?_cons_of_pos (by simpa using hx)]
      rfl
    · rw [if_neg (Ne.symm hx), List.find?_cons_of_neg (by simpa using hx)]

private theorem pushRows_cons (children : TreeChildren) (row : TreeRow) :
    pushRows children (row :: rows) = (pushChild children row).bind fun children => pushRows children rows := rfl

private theorem get?_pushChild {children children' : TreeChildren} {row : TreeRow}
    (h : pushChild children row = some children')
    (x : SpanId) : children'.get? x = (children.get? x).map fun node =>
      { node with children := node.children ++ childrenOf [row] x } := by
  obtain ⟨node, hnode, rfl⟩ := Option.map_eq_some_iff.1 h
  rw [HashMap.get?_insert]
  by_cases hx : row.parentId = x
  · subst hx
    rw [if_pos rfl, hnode]
    simp [childrenOf]
  · rw [if_neg (Ne.symm hx)]
    have hnil : childrenOf [row] x = [] := by simp [childrenOf, hx]
    simp only [hnil, List.append_nil]
    exact Option.map_id'.symm

private theorem childrenOf_cons (row : TreeRow) (rows : List TreeRow) (x : SpanId) :
    childrenOf (row :: rows) x = childrenOf [row] x ++ childrenOf rows x := by
  unfold childrenOf
  rw [← List.map_append, ← List.filter_append]
  rfl

/-- Every row is added to the node of its parent. -/
private theorem get?_pushRows {children children' : TreeChildren} (h : pushRows children rows = some children')
    (x : SpanId) :
    children'.get? x = (children.get? x).map fun node =>
      { node with children := node.children ++ childrenOf rows x } := by
  induction rows generalizing children with
  | nil =>
    cases h
    simp only [childrenOf, List.filter_nil, List.map_nil, List.append_nil]
    exact Option.map_id'.symm
  | cons row rows ih =>
    rw [pushRows_cons] at h
    obtain ⟨children₁, h₁, h⟩ := Option.bind_eq_some_iff.1 h
    rw [ih h, get?_pushChild h₁, Option.map_map]
    congr 1
    funext node
    simp only [Function.comp_def, childrenOf_cons row rows, List.append_assoc]

private theorem pushRows_isSome {children : TreeChildren} :
    (pushRows children rows).isSome = true ↔ ∀ row ∈ rows, (children.get? row.parentId).isSome = true := by
  induction rows generalizing children with
  | nil => simp [pushRows]
  | cons row rows ih =>
    rw [pushRows_cons, List.forall_mem_cons]
    cases h : pushChild children row with
    | none =>
      have hnone : children.get? row.parentId = none := Option.map_eq_none_iff.1 h
      simp [hnone]
    | some children' =>
      have hsome : (children.get? row.parentId).isSome = true := by
        obtain ⟨node, hnode, -⟩ := Option.map_eq_some_iff.1 h
        rw [hnode]
        rfl
      rw [Option.bind_some, ih]
      refine ⟨fun hall => ⟨hsome, fun row' hrow' => ?_⟩, fun hall row' hrow' => ?_⟩
      · simpa [get?_pushChild h] using hall row' hrow'
      · simpa [get?_pushChild h] using hall.2 row' hrow'

/-- A table with the nodes of the rows, before a row has been pushed to its parent. -/
def Filled (rows : List TreeRow) (children : TreeChildren) : Prop :=
  ∀ x, children.get? x = if x = default then some rootNode else (rows.find? (·.id = x)).map TreeRow.node

/-- The table of the rows. -/
structure IsTable (rows : List TreeRow) (raw : TreeChildren) : Prop where
  present : ∀ x, x = default ∨ x ∈ ids rows →
    raw.get? x = some { label rows x with children := childrenOf rows x }

theorem DistinctIds.find?_default (h : DistinctIds rows) : rows.find? (·.id = default) = none := by
  rw [List.find?_eq_none]
  intro row hrow hid
  exact h.nonzero (of_decide_eq_true hid ▸ List.mem_map_of_mem hrow)

theorem filled_insertRows (hdistinct : DistinctIds rows) :
    Filled rows (insertRows (HashMap.empty.insert default rootNode) rows) := by
  intro x
  rw [get?_insertRows hdistinct.nodup, HashMap.get?_insert]
  by_cases hroot : x = default
  · subst hroot
    rw [hdistinct.find?_default]
    rfl
  · rw [if_neg hroot, if_neg hroot, HashMap.get?_empty, Option.or_none]

variable {table raw : TreeChildren}

theorem Filled.isTable (hdistinct : DistinctIds rows) (hfilled : Filled rows table)
    (h : pushRows table rows = some raw) : IsTable rows raw where
  present x hx := by
    rw [get?_pushRows h, hfilled]
    unfold label
    by_cases hroot : x = default
    · subst hroot
      rw [hdistinct.find?_default]
      rfl
    · obtain ⟨row, hrow, hid⟩ := List.mem_map.1 (hx.resolve_left hroot)
      rw [if_neg hroot, hdistinct.find?_eq_some.2 ⟨hrow, hid⟩]
      rfl

theorem Filled.push_isSome_iff (hfilled : Filled rows table) :
    (pushRows table rows).isSome = true ↔ Linked rows := by
  rw [pushRows_isSome]
  refine forall₂_congr fun row _ => ?_
  rw [hfilled]
  by_cases hroot : row.parentId = default
  · simp [hroot]
  · rw [if_neg hroot, Option.isSome_map, List.find?_isSome]
    simp [hroot, ids]

/-! ### The tree -/

/-- `build_tree` unfolds the table. -/
theorem buildTree_eq (h : IsTable rows raw) (depth : Nat) {x : SpanId}
    (hx : x = default ∨ x ∈ ids rows) :
    buildTree depth x raw = (Rose.unfold (childrenOf rows) depth x).map (ofRose (label rows)) := by
  induction depth generalizing x with
  | zero => rfl
  | succ depth ih =>
    have hall : ∀ cs : List SpanId, cs ⊆ ids rows → (cs.mapM fun c => buildTree depth c raw) =
        (cs.mapM (Rose.unfold (childrenOf rows) depth)).map (ofRoses (label rows)) := by
      intro cs
      induction cs with
      | nil => exact fun _ => rfl
      | cons c cs ihcs =>
        intro hcs
        obtain ⟨hc, hcs⟩ := List.cons_subset.1 hcs
        rw [List.mapM_cons, List.mapM_cons, ih (Or.inr hc), ihcs hcs]
        cases Rose.unfold (childrenOf rows) depth c with
        | none => rfl
        | some t => cases cs.mapM (Rose.unfold (childrenOf rows) depth) <;> rfl
    rw [buildTree, h.present x hx, Option.bind_some, hall _ (childrenOf_subset x), Rose.unfold]
    simp only [Option.map_map]
    rfl

/-- Any table of the rows gives the tree of the rows. -/
theorem ofRows_eq_of_isTable (hdistinct : DistinctIds rows) (h : IsTable rows raw) (hlinked : Linked rows)
    (depth : Nat) : ofRows depth rows = (buildTree depth default raw).map sort := by
  obtain ⟨raw', hraw'⟩ := Option.isSome_iff_exists.1 ((filled_insertRows hdistinct).push_isSome_iff.2 hlinked)
  rw [ofRows, hraw', Option.bind_some, buildTree_eq ((filled_insertRows hdistinct).isTable hdistinct hraw') depth
    (Or.inl rfl), buildTree_eq h depth (Or.inl rfl)]

/-- Values that are a rearrangement of images are the images of a rearrangement. -/
private theorem exists_map_of_perm {α β : Type} {f : α → β} {as : List α} {bs : List β} (h : bs.Perm (as.map f)) :
    ∃ as' : List α, as'.Perm as ∧ bs = as'.map f := by
  have hmap : List.Forall₂ (fun b a => b = f a) (as.map f) as :=
    List.forall₂_map_left_iff.2 (List.forall₂_same.2 fun a _ => rfl)
  obtain ⟨as', hall, hperm⟩ := List.perm_comp_forall₂ h hmap
  refine ⟨as', hperm, List.forall₂_eq_eq_eq ▸ ?_⟩
  exact List.forall₂_map_right_iff.2 hall

mutual

/-- Sorting rearranges the children of every node. -/
private theorem exists_sort (label : SpanId → TreeNode) :
    (t : Rose SpanId) → ∃ t', sort (ofRose label t) = ofRose label t' ∧
    t'.value = t.value ∧ t'.preorder.Perm t.preorder ∧ t'.edges.Perm t.edges
  | .node x ts => by
    obtain ⟨ts', hts', hpre, hedges⟩ := exists_sortAll label ts
    have hperm : (sortUnstable cmp (sortAll (ofRoses label ts))).Perm (ts'.map (ofRose label)) := by
      rw [hts', ofRoses_eq label ts']
      exact List.perm_insertionSort _ _
    obtain ⟨us, hus, hsorted⟩ := exists_map_of_perm hperm
    refine ⟨.node x us, ?_, rfl, List.Perm.cons x ?_, ?_⟩
    · rw [ofRose, sort, ofRose, ofRoses_eq label us]
      exact congrArg (fun children => Tree.mk _ children _ _) hsorted
    · rw [Rose.preorders_eq] at hpre ⊢
      exact (hus.flatMap_right _).trans hpre
    · rw [Rose.edges, Rose.edges, Rose.edgesBelow_eq] at *
      exact (hus.flatMap_right _).trans ((Rose.edgesBelow_eq x ts') ▸ hedges x)

theorem exists_sortAll (label : SpanId → TreeNode) : (ts : List (Rose SpanId)) →
    ∃ ts', sortAll (ofRoses label ts) = ofRoses label ts' ∧ (Rose.preorders ts').Perm (Rose.preorders ts) ∧
      ∀ x, (Rose.edgesBelow x ts').Perm (Rose.edgesBelow x ts)
  | [] => ⟨[], rfl, .nil, fun _ => .nil⟩
  | t :: ts => by
    obtain ⟨t', ht', hvalue, hpre, hedges⟩ := exists_sort label t
    obtain ⟨ts', hts', hpres, hedgess⟩ := exists_sortAll label ts
    refine ⟨t' :: ts', ?_, hpre.append hpres, fun x => ?_⟩
    · rw [ofRoses, sortAll, ht', hts', ofRoses]
    · rw [Rose.edgesBelow, Rose.edgesBelow, hvalue]
      exact ((hedges.cons _).append (hedgess x))

end

/-- When every row is reached from the root, the tree shows the rows. -/
theorem ofRows_shows (hdistinct : DistinctIds rows) (hrooted : Rooted rows) {depth : Nat}
    (hdepth : rows.length < depth) : ∃ t, ofRows depth rows = some t ∧ Shows rows t.children := by
  have harb := hdistinct.arborescent
  obtain ⟨raw, hraw⟩ := Option.isSome_iff_exists.1
    ((filled_insertRows hdistinct).push_isSome_iff.2 (hrooted.linked hdistinct))
  have hlength : (ids rows).length < depth := by rwa [ids, List.length_map]
  obtain ⟨⟨x, ts⟩, ht⟩ := Rose.unfold_total harb (fun p => childrenOf_subset p) hlength
  obtain rfl : x = default := Rose.value_of_unfold ht
  obtain ⟨⟨x, us⟩, husort, rfl, hpre, hedges⟩ := exists_sort (label rows) (.node default ts)
  have hof : ofRows depth rows = some (ofRose (label rows) (.node default us)) := by
    have htable := (filled_insertRows hdistinct).isTable hdistinct hraw
    rw [ofRows, hraw, Option.bind_some, buildTree_eq htable depth (Or.inl rfl), ht, Option.map_some, Option.map_some,
      husort]
    rfl
  -- the nodes are those that are reached from the root: all rows
  have hall : (default :: ids rows).Perm (Rose.preorder (.node default ts)) := by
    refine (List.perm_ext_iff_of_nodup (List.nodup_cons.2 ⟨hdistinct.nonzero, hdistinct.nodup⟩)
      (Rose.nodup_preorder harb ht)).2 fun x => ?_
    rw [Rose.mem_preorder_iff harb ht, List.mem_cons]
    constructor
    · rintro (rfl | hx)
      · exact .refl
      · obtain ⟨row, hrow, rfl⟩ := List.mem_map.1 hx
        exact hrooted row hrow
    · intro hx
      cases hx with
      | refl => exact Or.inl rfl
      | tail _ hx => exact Or.inr (childrenOf_subset _ hx)
  have hnodes : (Rose.preorders us).Perm (ids rows) := List.Perm.cons_inv (hpre.trans hall.symm)
  refine ⟨_, hof, us, rfl, hnodes, ?_⟩
  -- there are as many edges as rows, and every edge is the link of a row
  have hnodup : ((Rose.edgesBelow default us).map Prod.snd).Nodup := by
    rw [Rose.edgesBelow_snd]
    exact hnodes.nodup_iff.2 hdistinct.nodup
  have hlinks : Rose.edgesBelow default us ⊆ rows.map fun row => (row.parentId, row.id) := by
    intro e he
    have he' := (Rose.edges_unfold ht).subset (hedges.subset he)
    obtain ⟨p, -, hp⟩ := List.mem_flatMap.1 he'
    obtain ⟨x, hx, rfl⟩ := List.mem_map.1 hp
    obtain ⟨row, hrow, rfl, rfl⟩ := mem_childrenOf.1 hx
    exact List.mem_map_of_mem hrow
  refine (List.subperm_of_subset (List.Nodup.of_map _ hnodup) hlinks).perm_of_length_le ?_
  rw [List.length_map, ← List.length_map (f := Prod.snd), Rose.edgesBelow_snd, hnodes.length_eq, ids, List.length_map]

/-! ### When a tree is built, and in which order -/

theorem ofRows_isSome_iff (hdistinct : DistinctIds rows) {depth : Nat} (hdepth : rows.length < depth) :
    (ofRows depth rows).isSome = true ↔ Linked rows := by
  rw [← (filled_insertRows hdistinct).push_isSome_iff, ofRows]
  cases hraw : pushRows (insertRows (HashMap.empty.insert default rootNode) rows) rows with
  | none => rfl
  | some raw =>
    have hlength : (ids rows).length < depth := by rwa [ids, List.length_map]
    obtain ⟨t, ht⟩ := Rose.unfold_total hdistinct.arborescent (fun p => childrenOf_subset p) hlength
    rw [Option.bind_some, buildTree_eq ((filled_insertRows hdistinct).isTable hdistinct hraw) depth (Or.inl rfl), ht]
    exact iff_of_true rfl rfl

private theorem sortAll_eq (ts : List Tree) : sortAll ts = ts.map sort := by
  induction ts with
  | nil => rfl
  | cons t ts ih => rw [sortAll, List.map_cons, ih]

theorem length_children_of_ofRows (hdistinct : DistinctIds rows) {depth : Nat} {t : Tree}
    (h : ofRows depth rows = some t) : t.children.length = (childrenOf rows default).length := by
  obtain ⟨raw, hraw, h⟩ := Option.bind_eq_some_iff.1 h
  rw [buildTree_eq ((filled_insertRows hdistinct).isTable hdistinct hraw) depth (Or.inl rfl), Option.map_map] at h
  obtain ⟨u, hu, rfl⟩ := Option.map_eq_some_iff.1 h
  cases depth with
  | zero => cases hu
  | succ depth =>
    obtain ⟨ts, hts, rfl⟩ := Rose.unfold_succ_eq_some.1 hu
    rw [hts.length_eq, Function.comp_apply, ofRose, sort, children, sortUnstable, List.length_insertionSort,
      sortAll_eq, List.length_map, ofRoses_eq, List.length_map]

/-- Tables that list the same children in other orders unfold to trees that are sorted in the same way. -/
private theorem unfold_perm {table table' : SpanId → List SpanId} (h : ∀ p, (table p).Perm (table' p))
    (label : SpanId → TreeNode) {depth : Nat} {x : SpanId} {t : Rose SpanId} (ht : Rose.unfold table depth x = some t) :
    ∃ t', Rose.unfold table' depth x = some t' ∧ sort (ofRose label t') = sort (ofRose label t) := by
  induction depth generalizing x t with
  | zero => cases ht
  | succ depth ih =>
    obtain ⟨ts, hts, rfl⟩ := Rose.unfold_succ_eq_some.1 ht
    obtain ⟨us, hus, hperm⟩ := List.perm_comp_forall₂ (h x).symm hts
    have hall : ∀ {cs : List SpanId} {us : List (Rose SpanId)},
        List.Forall₂ (fun c t => Rose.unfold table depth c = some t) cs us →
          ∃ us', List.Forall₂ (fun c t => Rose.unfold table' depth c = some t) cs us' ∧
            us'.map (fun t => sort (ofRose label t)) = us.map fun t => sort (ofRose label t) := by
      intro cs us hus
      induction hus with
      | nil => exact ⟨[], .nil, rfl⟩
      | cons hu _ ihus =>
        obtain ⟨u', hu', hsort⟩ := ih hu
        obtain ⟨us', hus', hsorts⟩ := ihus
        exact ⟨u' :: us', .cons hu' hus', by rw [List.map_cons, List.map_cons, hsort, hsorts]⟩
    obtain ⟨us', hus', hsorts⟩ := hall hus
    refine ⟨.node x us', Rose.unfold_succ_eq_some.2 ⟨us', hus', rfl⟩, ?_⟩
    have hsorted : sortUnstable cmp (sortAll (ofRoses label us')) = sortUnstable cmp (sortAll (ofRoses label ts)) := by
      refine sortUnstable_perm ?_
      rw [sortAll_eq, sortAll_eq, ofRoses_eq, ofRoses_eq, List.map_map, List.map_map]
      exact (List.Perm.of_eq hsorts).trans (hperm.map _)
    rw [ofRose, sort, hsorted, ofRose, sort]

private theorem childrenOf_perm (h : rows.Perm rows') (p : SpanId) : (childrenOf rows p).Perm (childrenOf rows' p) :=
  (h.filter _).map _

private theorem label_perm (hdistinct : DistinctIds rows) (h : rows.Perm rows') : label rows = label rows' := by
  funext x
  unfold label
  congr 2
  ext row
  rw [hdistinct.find?_eq_some, (hdistinct.perm h).find?_eq_some, h.mem_iff]

private theorem linked_perm (h : rows.Perm rows') : Linked rows ↔ Linked rows' := by
  unfold Linked
  simp only [h.mem_iff, ids, (h.map TreeRow.id).mem_iff]

/-- The order of the rows makes no difference, to a panic or an overflow neither. -/
theorem ofRows_perm (hdistinct : DistinctIds rows) (h : rows.Perm rows') (depth : Nat) :
    ofRows depth rows = ofRows depth rows' := by
  have hdistinct' := hdistinct.perm h
  have hpush := (filled_insertRows hdistinct).push_isSome_iff
  have hpush' := (filled_insertRows hdistinct').push_isSome_iff
  rw [linked_perm h, ← hpush'] at hpush
  unfold ofRows
  cases hraw : pushRows (insertRows (HashMap.empty.insert default rootNode) rows) rows with
  | none =>
    rw [hraw] at hpush
    have hnone : pushRows (insertRows (HashMap.empty.insert default rootNode) rows') rows' = none := by
      simpa using hpush
    rw [hnone]
  | some raw =>
    rw [hraw] at hpush
    obtain ⟨raw', hraw'⟩ := Option.isSome_iff_exists.1 (hpush.1 rfl)
    have htable := (filled_insertRows hdistinct).isTable hdistinct hraw
    have htable' := (filled_insertRows hdistinct').isTable hdistinct' hraw'
    rw [hraw', Option.bind_some, Option.bind_some, buildTree_eq htable depth (Or.inl rfl),
      buildTree_eq htable' depth (Or.inl rfl), label_perm hdistinct h]
    cases ht : Rose.unfold (childrenOf rows) depth default with
    | some t =>
      obtain ⟨t', ht', hsort⟩ := unfold_perm (childrenOf_perm h) (label rows') ht
      rw [ht']
      exact congrArg some hsort.symm
    | none =>
      cases ht' : Rose.unfold (childrenOf rows') depth default with
      | none => rfl
      | some t' =>
        obtain ⟨t, hsome, -⟩ := unfold_perm (childrenOf_perm h.symm) (label rows') ht'
        rw [ht] at hsome
        cases hsome

end Fastrace.Tree

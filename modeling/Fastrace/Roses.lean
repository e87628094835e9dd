import Mathlib.Data.List.Forall2
import Mathlib.Data.List.Perm.Basic
import Mathlib.Data.List.Nodup
import Mathlib.Logic.Relation

/-!
# Trees unfolded from tables of children

A table `children` lists the children of every node.  `Rose.unfold` follows it down from a node; it takes fuel, since
nothing keeps a table from leading back to where it started.  The table of an arborescence (`Arborescent`) lists a
node once at most and does not list the root.  Then the unfolding of the root ends (`unfold_total`), and it holds each
node that can be reached from the root once and no other (`nodup_preorder`, `mem_preorder_iff`).
-/

inductive Rose (α : Type) where
  | node (value : α) (children : List (Rose α))

namespace Rose

variable {α β : Type}

def value : Rose α → α
  | .node a _ => a

mutual

/-- The values of a tree, every node before its children. -/
def preorder : Rose α → List α
  | .node a ts => a :: preorders ts

def preorders : List (Rose α) → List α
  | [] => []
  | t :: ts => preorder t ++ preorders ts

end

mutual

/-- The edges of a tree, from the node to its child. -/
def edges : Rose α → List (α × α)
  | .node a ts => edgesBelow a ts

def edgesBelow (a : α) : List (Rose α) → List (α × α)
  | [] => []
  | t :: ts => (a, t.value) :: edges t ++ edgesBelow a ts

end

theorem preorders_eq (ts : List (Rose α)) : preorders ts = ts.flatMap preorder := by
  induction ts with
  | nil => rfl
  | cons t ts ih => rw [preorders, List.flatMap_cons, ih]

theorem edgesBelow_eq (a : α) (ts : List (Rose α)) : edgesBelow a ts = ts.flatMap fun t => (a, t.value) :: edges t := by
  induction ts with
  | nil => rfl
  | cons t ts ih => rw [edgesBelow, List.flatMap_cons, ih]

mutual

/-- Every edge leads to a node of its own. -/
theorem edges_snd : (t : Rose α) → t.value :: (edges t).map Prod.snd = preorder t
  | .node a ts => by rw [edges, edgesBelow_snd a ts, preorder, value]

theorem edgesBelow_snd (a : α) : (ts : List (Rose α)) → (edgesBelow a ts).map Prod.snd = preorders ts
  | [] => rfl
  | t :: ts => by rw [edgesBelow, List.map_append, List.map_cons, edges_snd t, edgesBelow_snd a ts, preorders]

end

/-! ### Unfolding a table -/

/-- The tree below a node; `none` when the fuel is used up. -/
def unfold (children : α → List α) : Nat → α → Option (Rose α)
  | 0, _ => none
  | fuel + 1, a => ((children a).mapM (unfold children fuel)).map (node a)

theorem mapM_eq_some {f : α → Option β} {as : List α} {bs : List β} :
    as.mapM f = some bs ↔ List.Forall₂ (fun a b => f a = some b) as bs := by
  induction as generalizing bs with
  | nil =>
    rw [List.mapM_nil, List.forall₂_nil_left_iff]
    exact ⟨fun h => by cases h; rfl, fun h => by rw [h]; rfl⟩
  | cons a as ih =>
    rw [List.mapM_cons]
    constructor
    · intro h
      obtain ⟨b, hb, h⟩ := Option.bind_eq_some_iff.1 h
      obtain ⟨bs', hbs, h⟩ := Option.bind_eq_some_iff.1 h
      cases h
      exact .cons hb (ih.1 hbs)
    · intro h
      cases h with
      | cons hb hbs =>
        rw [hb, ih.2 hbs]
        rfl

theorem isSome_mapM_iff {f : α → Option β} {as : List α} :
    (as.mapM f).isSome = true ↔ ∀ a ∈ as, (f a).isSome = true := by
  induction as with
  | nil => exact iff_of_true rfl fun a ha => by cases ha
  | cons a as ih =>
    rw [List.mapM_cons, List.forall_mem_cons, ← ih]
    cases f a with
    | none => simp
    | some b => cases hbs : as.mapM f <;> simp

theorem mem_of_mapM {f : α → Option β} {as : List α} {bs : List β} (h : as.mapM f = some bs) {b : β} :
    b ∈ bs ↔ ∃ a ∈ as, f a = some b := by
  have hrel := mapM_eq_some.1 h
  induction hrel with
  | nil => simp
  | cons hab hrest ih => simp [hab, ih (mapM_eq_some.2 hrest), eq_comm]

variable {children : α → List α} {fuel : Nat} {a : α} {t : Rose α}

theorem unfold_succ_eq_some : unfold children (fuel + 1) a = some t ↔
    ∃ ts, List.Forall₂ (fun c t => unfold children fuel c = some t) (children a) ts ∧ t = node a ts := by
  rw [unfold, Option.map_eq_some_iff]
  constructor
  · rintro ⟨ts, hts, rfl⟩
    exact ⟨ts, mapM_eq_some.1 hts, rfl⟩
  · rintro ⟨ts, hts, rfl⟩
    exact ⟨ts, mapM_eq_some.2 hts, rfl⟩

theorem value_of_unfold (h : unfold children fuel a = some t) : t.value = a := by
  cases fuel with
  | zero => cases h
  | succ fuel =>
    obtain ⟨ts, -, rfl⟩ := unfold_succ_eq_some.1 h
    rfl

/-- The nodes of an unfolding are the first one and the children of all. -/
theorem preorder_unfold (h : unfold children fuel a = some t) :
    (preorder t).Perm (a :: (preorder t).flatMap children) := by
  induction fuel generalizing a t with
  | zero => cases h
  | succ fuel ih =>
    obtain ⟨ts, hts, rfl⟩ := unfold_succ_eq_some.1 h
    have hbelow : ∀ {cs : List α} {us : List (Rose α)},
        List.Forall₂ (fun c t => unfold children fuel c = some t) cs us →
          (preorders us).Perm (cs ++ (preorders us).flatMap children) := by
      intro cs us hus
      induction hus with
      | nil => exact List.Perm.nil
      | @cons c u cs us hu hus ihus =>
        rw [preorders, List.flatMap_append]
        refine ((ih hu).append ihus).trans ?_
        rw [List.cons_append, List.cons_append]
        refine List.Perm.cons c ?_
        rw [← List.append_assoc, ← List.append_assoc]
        exact List.perm_append_comm.append_right _
    rw [preorder, List.flatMap_cons]
    exact List.Perm.cons a (hbelow hts)

/-- The edges of an unfolding lead from every node to the children the table lists for it. -/
theorem edges_unfold (h : unfold children fuel a = some t) :
    (edges t).Perm ((preorder t).flatMap fun p => (children p).map fun c => (p, c)) := by
  induction fuel generalizing a t with
  | zero => cases h
  | succ fuel ih =>
    obtain ⟨ts, hts, rfl⟩ := unfold_succ_eq_some.1 h
    have hbelow : ∀ {cs : List α} {us : List (Rose α)},
        List.Forall₂ (fun c t => unfold children fuel c = some t) cs us → (edgesBelow a us).Perm
          (cs.map (fun c => (a, c)) ++ (preorders us).flatMap fun p => (children p).map fun c => (p, c)) := by
      intro cs us hus
      induction hus with
      | nil => exact List.Perm.nil
      | @cons c u cs us hu hus ihus =>
        rw [edgesBelow, preorders, List.flatMap_append, value_of_unfold hu, List.map_cons, List.cons_append,
          List.cons_append]
        refine List.Perm.cons _ (((ih hu).append ihus).trans ?_)
        rw [← List.append_assoc, ← List.append_assoc]
        exact List.perm_append_comm.append_right _
    rw [edges, preorder, List.flatMap_cons]
    exact hbelow hts

/-! ### Arborescences -/

structure Arborescent (children : α → List α) (root : α) : Prop where
  nodup : ∀ p, (children p).Nodup
  unique : ∀ {p p' x}, x ∈ children p → x ∈ children p' → p = p'
  root : ∀ p, root ∉ children p

variable {root : α}

/-- `path` leads from `a` up to a child of the root. -/
inductive Ascends (children : α → List α) (root : α) : α → List α → Prop
  | top : Ascends children root root []
  | step {p a : α} {path : List α} (h : a ∈ children p) (hrest : Ascends children root p path) :
      Ascends children root a (a :: path)

/-- A node on the way up to the root is no child of where the way starts. -/
theorem Ascends.not_mem_path (harb : Arborescent children root) {path : List α}
    (h : Ascends children root a path) {c : α} (hc : c ∈ children a) (hnodup : path.Nodup) : c ∉ path := by
  have hup : ∀ {b : α} {path : List α}, Ascends children root b path → c ∈ path →
      a = root ∨ a ∈ path.tail := by
    intro b path hpath
    induction hpath with
    | top => exact fun hmem => by cases hmem
    | @step p b path hb hrest ih =>
      intro hmem
      rcases List.mem_cons.1 hmem with rfl | hmem
      · rw [harb.unique hc hb]
        cases hrest with
        | top => exact Or.inl rfl
        | step => exact Or.inr (List.mem_cons_self ..)
      · rcases ih hmem with hroot | htail
        · exact Or.inl hroot
        · exact Or.inr (List.mem_of_mem_tail htail)
  intro hmem
  cases h with
  | top => cases hmem
  | @step p _ path ha hrest =>
    rcases hup (.step ha hrest) hmem with rfl | htail
    · exact harb.root p ha
    · exact (List.nodup_cons.1 hnodup).1 htail

/-- Below the root of an arborescence of finitely many nodes the unfolding ends. -/
theorem unfold_total (harb : Arborescent children root) {nodes : List α} (hnodes : ∀ p, children p ⊆ nodes)
    (hfuel : nodes.length < fuel) : ∃ t, unfold children fuel root = some t := by
  have hbelow : ∀ (fuel : Nat) {a : α} {path : List α}, Ascends children root a path → path.Nodup → path ⊆ nodes →
      nodes.length < path.length + fuel → ∃ t, unfold children fuel a = some t := by
    intro fuel
    induction fuel with
    | zero =>
      intro a path _ hnodup hsub hlt
      exact absurd (List.subperm_of_subset hnodup hsub).length_le (Nat.not_le_of_lt hlt)
    | succ fuel ih =>
      intro a path hup hnodup hsub hlt
      have hchildren : ∀ c ∈ children a, ∃ t, unfold children fuel c = some t := by
        intro c hc
        refine ih (.step hc hup) (List.nodup_cons.2 ⟨hup.not_mem_path harb hc hnodup, hnodup⟩)
          (List.cons_subset.2 ⟨hnodes a hc, hsub⟩) ?_
        rw [List.length_cons]
        omega
      have hall : ∀ cs : List α, cs ⊆ children a →
          ∃ ts, List.Forall₂ (fun c t => unfold children fuel c = some t) cs ts := by
        intro cs
        induction cs with
        | nil => exact fun _ => ⟨[], .nil⟩
        | cons c cs ihcs =>
          intro hcs
          obtain ⟨hc, hcs⟩ := List.cons_subset.1 hcs
          obtain ⟨t, ht⟩ := hchildren c hc
          obtain ⟨ts, hts⟩ := ihcs hcs
          exact ⟨t :: ts, .cons ht hts⟩
      obtain ⟨ts, hts⟩ := hall (children a) (List.Subset.refl _)
      exact ⟨node a ts, unfold_succ_eq_some.2 ⟨ts, hts, rfl⟩⟩
  exact hbelow fuel .top List.nodup_nil (List.nil_subset _) (by simpa using hfuel)

variable [DecidableEq α]

/-- A child occurs as often as its parent. -/
theorem count_flatMap_children (harb : Arborescent children root) {p x : α} (hx : x ∈ children p) (l : List α) :
    (l.flatMap children).count x = l.count p := by
  induction l with
  | nil => rfl
  | cons a l ih =>
    rw [List.flatMap_cons, List.count_append, ih, List.count_cons, Nat.add_comm]
    congr 1
    by_cases hap : a = p
    · subst hap
      simp [List.count_eq_one_of_mem (harb.nodup a) hx]
    · have hnot : x ∉ children a := fun h => hap (harb.unique h hx)
      simp [List.count_eq_zero_of_not_mem hnot, hap]

private theorem count_preorder (harb : Arborescent children root) (h : unfold children fuel root = some t) {x : α}
    (hx : Relation.ReflTransGen (fun p x => x ∈ children p) root x) : (preorder t).count x = 1 := by
  have hroot : ∀ p x : α, x ∈ children p → x ≠ root := fun p x hmem heq => harb.root p (heq ▸ hmem)
  induction hx with
  | refl =>
    rw [(preorder_unfold h).count_eq, List.count_cons_self]
    have hnone : root ∉ (preorder t).flatMap children := by
      rw [List.mem_flatMap]
      rintro ⟨p, -, hp⟩
      exact harb.root p hp
    rw [List.count_eq_zero_of_not_mem hnone]
  | @tail p x _ hx ih =>
    rw [(preorder_unfold h).count_eq, List.count_cons_of_ne (hroot p x hx).symm, count_flatMap_children harb hx, ih]

omit [DecidableEq α] in
private theorem reaches_of_mem (h : unfold children fuel a = some t) {x : α} (hx : x ∈ preorder t) :
    Relation.ReflTransGen (fun p x => x ∈ children p) a x := by
  induction fuel generalizing a t x with
  | zero => cases h
  | succ fuel ih =>
    obtain ⟨ts, hts, rfl⟩ := unfold_succ_eq_some.1 h
    rw [preorder, List.mem_cons, preorders_eq, List.mem_flatMap] at hx
    rcases hx with rfl | ⟨u, hu, hx⟩
    · exact .refl
    · have hchild : ∀ {cs : List α} {us : List (Rose α)},
          List.Forall₂ (fun c t => unfold children fuel c = some t) cs us → u ∈ us →
            ∃ c ∈ cs, unfold children fuel c = some u := by
        intro cs us hus
        induction hus with
        | nil => exact fun hmem => by cases hmem
        | @cons c u' cs us hu' hus ihus =>
          intro hmem
          rcases List.mem_cons.1 hmem with rfl | hmem
          · exact ⟨c, List.mem_cons_self .., hu'⟩
          · obtain ⟨c', hc', hu⟩ := ihus hmem
            exact ⟨c', List.mem_cons_of_mem _ hc', hu⟩
      obtain ⟨c, hc, hu⟩ := hchild hts hu
      exact .head hc (ih hu hx)

theorem mem_preorder_iff (harb : Arborescent children root) (h : unfold children fuel root = some t) {x : α} :
    x ∈ preorder t ↔ Relation.ReflTransGen (fun p x => x ∈ children p) root x := by
  refine ⟨reaches_of_mem h, fun hx => ?_⟩
  rw [← List.count_pos_iff, count_preorder harb h hx]
  exact Nat.one_pos

theorem nodup_preorder (harb : Arborescent children root) (h : unfold children fuel root = some t) :
    (preorder t).Nodup :=
  List.nodup_iff_count_le_one.2 fun x => by
    by_cases hx : x ∈ preorder t
    · exact Nat.le_of_eq (count_preorder harb h (reaches_of_mem h hx))
    · rw [List.count_eq_zero_of_not_mem hx]
      exact Nat.zero_le _

end Rose

import Mathlib.Data.Fintype.Card
import Mathlib.Data.List.Nodup
import Mathlib.Data.Set.Finite.Basic
import Mathlib.Logic.Relation

/-! Depth-first walks. Every node has a list of items, which are leaves or other
nodes. A walk collects the leaves below a node, if it may go deep enough. Where
the nodes below the root form a tree, some depth suffices, and every leaf is
collected once. -/
namespace TreeWalk

variable {Node Leaf : Type*}

/-- The leaves of a list of items, given those below the nodes among them. -/
def collect (below : Node → Option (List Leaf)) : List (Leaf ⊕ Node) → Option (List Leaf)
  | [] => some []
  | .inl leaf :: rest => (collect below rest).map (leaf :: ·)
  | .inr node :: rest => do
    let first ← below node
    let others ← collect below rest
    return first ++ others

/-- The leaves below a node, in depth-first order. -/
def leaves (items : Node → List (Leaf ⊕ Node)) : Nat → Node → Option (List Leaf)
  | 0, _ => none
  | depth + 1, node => collect (leaves items depth) (items node)

section Collect

variable {below : Node → Option (List Leaf)} {list : List (Leaf ⊕ Node)} {found : List Leaf}

theorem collect_inl {leaf : Leaf} (h : collect below (.inl leaf :: list) = some found) :
    ∃ others, collect below list = some others ∧ found = leaf :: others := by
  obtain ⟨others, hOthers, rfl⟩ := Option.map_eq_some_iff.mp h
  exact ⟨others, hOthers, rfl⟩

theorem collect_inr {node : Node} (h : collect below (.inr node :: list) = some found) :
    ∃ first others, below node = some first ∧ collect below list = some others ∧
      found = first ++ others := by
  obtain ⟨first, hFirst, h⟩ := Option.bind_eq_some_iff.mp h
  obtain ⟨others, hOthers, h⟩ := Option.bind_eq_some_iff.mp h
  exact ⟨first, others, hFirst, hOthers, (Option.some.inj h).symm⟩

theorem collect_mono {below' : Node → Option (List Leaf)}
    (hBelow : ∀ node first, below node = some first → below' node = some first)
    (h : collect below list = some found) : collect below' list = some found := by
  induction list generalizing found with
  | nil => exact h
  | cons item rest ih =>
    cases item with
    | inl leaf =>
      obtain ⟨others, hOthers, rfl⟩ := collect_inl h
      rw [collect, ih hOthers]
      rfl
    | inr node =>
      obtain ⟨first, others, hFirst, hOthers, rfl⟩ := collect_inr h
      rw [collect, hBelow node first hFirst, ih hOthers]
      rfl

theorem exists_collect (h : ∀ node, .inr node ∈ list → ∃ first, below node = some first) :
    ∃ found, collect below list = some found := by
  induction list with
  | nil => exact ⟨[], rfl⟩
  | cons item rest ih =>
    obtain ⟨others, hOthers⟩ := ih fun node hMem => h node (List.mem_cons_of_mem _ hMem)
    cases item with
    | inl leaf =>
      refine ⟨leaf :: others, ?_⟩
      rw [collect, hOthers]
      rfl
    | inr node =>
      obtain ⟨first, hFirst⟩ := h node List.mem_cons_self
      refine ⟨first ++ others, ?_⟩
      rw [collect, hFirst, hOthers]
      rfl

theorem mem_collect {leaf : Leaf} (h : collect below list = some found) :
    leaf ∈ found ↔ .inl leaf ∈ list ∨
      ∃ node first, .inr node ∈ list ∧ below node = some first ∧ leaf ∈ first := by
  induction list generalizing found with
  | nil =>
    obtain rfl := Option.some.inj h
    simp
  | cons item rest ih =>
    cases item with
    | inl other =>
      obtain ⟨others, hOthers, rfl⟩ := collect_inl h
      simp only [List.mem_cons, ih hOthers, Sum.inl.injEq, reduceCtorEq, false_or, or_assoc]
    | inr node =>
      obtain ⟨first, others, hFirst, hOthers, rfl⟩ := collect_inr h
      rw [List.mem_append, ih hOthers]
      constructor
      · grind
      · grind

/-- Items that have no leaf in common have their leaves collected once. -/
theorem nodup_collect (h : collect below list = some found) (hItems : list.Nodup)
    (hBelow : ∀ node first, .inr node ∈ list → below node = some first → first.Nodup)
    (hLeaf : ∀ leaf node first, .inl leaf ∈ list → .inr node ∈ list → below node = some first →
      leaf ∉ first)
    (hApart : ∀ node other first first', .inr node ∈ list → .inr other ∈ list →
      below node = some first → below other = some first' → node ≠ other →
        List.Disjoint first first') : found.Nodup := by
  induction list generalizing found with
  | nil =>
    obtain rfl := Option.some.inj h
    exact List.nodup_nil
  | cons item rest ih =>
    obtain ⟨hNew, hRest⟩ := List.nodup_cons.mp hItems
    have hTail {item' : Leaf ⊕ Node} (hMem : item' ∈ rest) : item' ∈ item :: rest :=
      List.mem_cons_of_mem _ hMem
    have hOthersNodup {others : List Leaf} (hOthers : collect below rest = some others) :
        others.Nodup :=
      ih hOthers hRest (fun node first hMem => hBelow node first (hTail hMem))
        (fun leaf node first hIn hMem => hLeaf leaf node first (hTail hIn) (hTail hMem))
        fun node other first first' hMem hMem' =>
          hApart node other first first' (hTail hMem) (hTail hMem')
    cases item with
    | inl leaf =>
      obtain ⟨others, hOthers, rfl⟩ := collect_inl h
      refine List.nodup_cons.mpr ⟨fun hMem => ?_, hOthersNodup hOthers⟩
      rcases (mem_collect hOthers).mp hMem with hIn | ⟨node, first, hNode, hFirst, hIn⟩
      · exact hNew hIn
      · exact hLeaf leaf node first List.mem_cons_self (hTail hNode) hFirst hIn
    | inr node =>
      obtain ⟨first, others, hFirst, hOthers, rfl⟩ := collect_inr h
      refine List.nodup_append'.mpr
        ⟨hBelow node first List.mem_cons_self hFirst, hOthersNodup hOthers, ?_⟩
      intro leaf hMem hMem'
      rcases (mem_collect hOthers).mp hMem' with hIn | ⟨other, first', hOther, hFirst', hIn⟩
      · exact hLeaf leaf node first (hTail hIn) List.mem_cons_self hFirst hMem
      · refine hApart node other first first' List.mem_cons_self (hTail hOther) hFirst hFirst'
          ?_ hMem hIn
        rintro rfl
        exact hNew hOther

theorem below_of_collect (h : collect below list = some found) {node : Node}
    (hMem : .inr node ∈ list) : ∃ first, below node = some first := by
  induction list generalizing found with
  | nil => cases hMem
  | cons item rest ih =>
    cases item with
    | inl leaf =>
      obtain ⟨others, hOthers, -⟩ := collect_inl h
      exact ih hOthers (by simpa using hMem)
    | inr other =>
      obtain ⟨first, others, hFirst, hOthers, -⟩ := collect_inr h
      rcases List.mem_cons.mp hMem with hEq | hMem
      · obtain rfl := Sum.inr.inj hEq
        exact ⟨first, hFirst⟩
      · exact ih hOthers hMem

end Collect

open Relation (ReflTransGen TransGen)

/-- A node is an item of another one. -/
def Child (items : Node → List (Leaf ⊕ Node)) (node child : Node) : Prop :=
  .inr child ∈ items node

section Leaves

variable {items : Node → List (Leaf ⊕ Node)} {depth : Nat} {node : Node} {found : List Leaf}

theorem leaves_mono {depth' : Nat} (hDepth : depth ≤ depth')
    (h : leaves items depth node = some found) : leaves items depth' node = some found := by
  induction depth generalizing depth' node found with
  | zero => cases h
  | succ depth ih =>
    obtain ⟨depth', rfl⟩ : ∃ smaller, depth' = smaller + 1 := ⟨depth' - 1, by omega⟩
    exact collect_mono (fun child first => ih (by omega)) h

/-- A walk that is deep enough finds the leaves below the node. -/
theorem mem_leaves (h : leaves items depth node = some found) {leaf : Leaf} :
    leaf ∈ found ↔ ∃ other, ReflTransGen (Child items) node other ∧ .inl leaf ∈ items other := by
  induction depth generalizing node found with
  | zero => cases h
  | succ depth ih =>
    rw [mem_collect h]
    constructor
    · rintro (hMem | ⟨child, first, hChild, hFirst, hMem⟩)
      · exact ⟨node, .refl, hMem⟩
      · obtain ⟨other, hReach, hLeaf⟩ := (ih hFirst).mp hMem
        exact ⟨other, .head hChild hReach, hLeaf⟩
    · rintro ⟨other, hReach, hLeaf⟩
      rcases hReach.cases_head with rfl | ⟨child, hChild, hReach⟩
      · exact .inl hLeaf
      · obtain ⟨first, hFirst⟩ := below_of_collect h hChild
        exact .inr ⟨child, first, hChild, hFirst, (ih hFirst).mpr ⟨other, hReach, hLeaf⟩⟩

theorem exists_depth {list : List (Leaf ⊕ Node)}
    (h : ∀ child, .inr child ∈ list → ∃ depth found, leaves items depth child = some found) :
    ∃ depth, ∀ child, .inr child ∈ list → ∃ found, leaves items depth child = some found := by
  induction list with
  | nil => exact ⟨0, nofun⟩
  | cons item rest ih =>
    obtain ⟨depth, hRest⟩ := ih fun child hMem => h child (List.mem_cons_of_mem _ hMem)
    cases item with
    | inl leaf => exact ⟨depth, fun child hMem => hRest child (by simpa using hMem)⟩
    | inr node =>
      obtain ⟨depth', found', hNode⟩ := h node List.mem_cons_self
      refine ⟨max depth depth', fun child hMem => ?_⟩
      rcases List.mem_cons.mp hMem with hEq | hMem
      · obtain rfl := Sum.inr.inj hEq
        exact ⟨found', leaves_mono (le_max_right ..) hNode⟩
      · obtain ⟨found, hChild⟩ := hRest child hMem
        exact ⟨found, leaves_mono (le_max_left ..) hChild⟩

end Leaves

/-- The nodes below the root form a finite tree. -/
structure Tree (items : Node → List (Leaf ⊕ Node)) (root : Node) : Prop where
  nodup : ∀ {node}, ReflTransGen (Child items) root node → (items node).Nodup
  parent : ∀ {node other item}, ReflTransGen (Child items) root node →
    ReflTransGen (Child items) root other → item ∈ items node → item ∈ items other → node = other
  not_child : ∀ {node}, ReflTransGen (Child items) root node → ¬ Child items node root
  finite : {node | ReflTransGen (Child items) root node}.Finite

namespace Tree

variable {items : Node → List (Leaf ⊕ Node)} {root node : Node}

theorem not_cycle (h : Tree items root) (hReach : ReflTransGen (Child items) root node) :
    ¬ TransGen (Child items) node node := by
  induction hReach with
  | refl =>
    intro hCycle
    obtain ⟨last, hLast, hChild⟩ := TransGen.tail'_iff.mp hCycle
    exact h.not_child hLast hChild
  | tail hParent hStep ih =>
    intro hCycle
    obtain ⟨last, hLast, hChild⟩ := TransGen.tail'_iff.mp hCycle
    obtain rfl := h.parent ((hParent.tail hStep).trans hLast) hParent hChild hStep
    exact ih (TransGen.head' hStep hLast)

/-- Of two nodes above a third one, one is above the other. -/
theorem comparable (h : Tree items root) {a b c : Node}
    (hA : ReflTransGen (Child items) root a) (hB : ReflTransGen (Child items) root b)
    (hAC : ReflTransGen (Child items) a c) (hBC : ReflTransGen (Child items) b c) :
    ReflTransGen (Child items) a b ∨ ReflTransGen (Child items) b a := by
  induction hAC with
  | refl => exact .inr hBC
  | tail hAP hStep ih =>
    rcases hBC.cases_tail with rfl | ⟨parent, hBP, hChild⟩
    · exact .inl (hAP.tail hStep)
    · obtain rfl := h.parent (hB.trans hBP) (hA.trans hAP) hChild hStep
      exact ih hBP

/-- No child of a node is below another one. -/
theorem not_below_sibling (h : Tree items root) (hReach : ReflTransGen (Child items) root node)
    {child other : Node} (hChild : Child items node child) (hOther : Child items node other)
    (hNe : child ≠ other) : ¬ ReflTransGen (Child items) child other := by
  intro hBelow
  rcases hBelow.cases_tail with hEq | ⟨parent, hParent, hStep⟩
  · exact hNe hEq.symm
  · obtain rfl := h.parent ((hReach.tail hChild).trans hParent) hReach hStep hOther
    exact h.not_cycle hReach (TransGen.head' hChild hParent)

/-- Every leaf is found once. -/
theorem nodup_leaves (h : Tree items root) (hReach : ReflTransGen (Child items) root node)
    {depth : Nat} {found : List Leaf} (hLeaves : leaves items depth node = some found) :
    found.Nodup := by
  induction depth generalizing node found with
  | zero => cases hLeaves
  | succ depth ih =>
    refine nodup_collect hLeaves (h.nodup hReach) ?_ ?_ ?_
    · exact fun child first hChild hFirst => ih (hReach.tail hChild) hFirst
    · intro leaf child first hLeaf hChild hFirst hMem
      obtain ⟨other, hBelow, hOther⟩ := (mem_leaves hFirst).mp hMem
      obtain rfl := h.parent hReach ((hReach.tail hChild).trans hBelow) hLeaf hOther
      exact h.not_cycle hReach (TransGen.head' hChild hBelow)
    · intro child child' first first' hChild hChild' hFirst hFirst' hNe leaf hMem hMem'
      obtain ⟨other, hBelow, hOther⟩ := (mem_leaves hFirst).mp hMem
      obtain ⟨other', hBelow', hOther'⟩ := (mem_leaves hFirst').mp hMem'
      have hDown := hReach.tail hChild
      have hDown' := hReach.tail hChild'
      obtain rfl := h.parent (hDown.trans hBelow) (hDown'.trans hBelow') hOther hOther'
      rcases h.comparable hDown hDown' hBelow hBelow' with hAbove | hAbove
      · exact h.not_below_sibling hReach hChild hChild' hNe hAbove
      · exact h.not_below_sibling hReach hChild' hChild hNe.symm hAbove

/-- Some depth suffices for the walk from the root. -/
theorem exists_leaves (h : Tree items root) :
    ∃ depth found, leaves items depth root = some found := by
  let Below := {node // ReflTransGen (Child items) root node}
  let below (lower upper : Below) : Prop := TransGen (Child items) upper.1 lower.1
  have : Finite Below := h.finite.to_subtype
  have : IsTrans Below below := ⟨fun _ _ _ hLower hUpper => hUpper.trans hLower⟩
  have : Std.Irrefl below := ⟨fun node => h.not_cycle node.2⟩
  have hWalk : ∀ node : Below, ∃ depth found, leaves items depth node.1 = some found := by
    intro node
    -- The nodes below this one come first.
    induction node using (Finite.wellFounded_of_trans_of_irrefl below).induction with
    | _ node ih =>
      obtain ⟨depth, hDepth⟩ := @exists_depth _ _ items (items node.1) fun child hChild =>
        ih ⟨child, node.2.tail hChild⟩ (TransGen.single hChild)
      obtain ⟨found, hFound⟩ := exists_collect hDepth
      exact ⟨depth + 1, found, hFound⟩
  exact hWalk ⟨root, .refl⟩

end Tree

end TreeWalk

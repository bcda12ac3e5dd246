import SqlTree.Proofs.Tree.Contexts
import SqlTree.Proofs.Tree.Leaves

/-!
# Induction on subnodes

What holds of a node as soon as it holds of its direct subnodes holds of every node
(`Node.induction`): a subnode is smaller than the tree it stands in. The leaves of a subnode are
among those of the tree, so what is asked of all leaves is handed on to every subnode.
-/

namespace SqlTree

/-! ## Subnodes are smaller -/

/-- The size of a tree. -/
noncomputable def Kind.size : (kind : Kind) → kind.Carrier → Nat
  | .qualifiedName, n => sizeOf n
  | .ident, i => sizeOf i
  | .constant, c => sizeOf c
  | .expr, e => sizeOf e
  | .call, c => sizeOf c
  | .binary, o => sizeOf o
  | .relation, r => sizeOf r
  | .joinCondition, c => sizeOf c
  | .join, j => sizeOf j
  | .fromClause, f => sizeOf f
  | .selectItem, i => sizeOf i
  | .select, s => sizeOf s
  | .body, b => sizeOf b
  | .orderItem, o => sizeOf o
  | .cte, c => sizeOf c
  | .query, q => sizeOf q
  | .text, _ | .flag, _ | .long, _ | .double, _ | .maybe _, _ | .many _, _ | .operator, _
  | .setOperator, _ | .direction, _ | .joinKind, _ | .projection, _ => 0

theorem sizeOf_lt_around {α : Type} [SizeOf α] (before : List α) (a : α) (after : List α) :
    sizeOf a < sizeOf (before ++ a :: after) :=
  List.sizeOf_lt_of_mem (List.mem_append_right before List.mem_cons_self)

theorem QualifiedName.sizeOf_lt_around (before : List Ident) (i : Ident) (after : List Ident) :
    sizeOf i < sizeOf (QualifiedName.around before i after) := by
  cases before with
  | nil =>
    simp only [around, QualifiedName.mk.sizeOf_spec]
    omega
  | cons first rest =>
    have := SqlTree.sizeOf_lt_around rest i after
    simp only [around, QualifiedName.mk.sizeOf_spec]
    omega

theorem Projection.sizeOf_lt_around (before : List SelectItem) (i : SelectItem)
    (after : List SelectItem) : sizeOf i < sizeOf (Projection.around before i after) := by
  cases before with
  | nil =>
    simp only [around, Projection.mk.sizeOf_spec]
    omega
  | cons first rest =>
    have := SqlTree.sizeOf_lt_around rest i after
    simp only [around, Projection.mk.sizeOf_spec]
    omega

theorem JoinSide.sizeOf_lt_kind (side : JoinSide) (c : JoinCondition) :
    sizeOf c < sizeOf (side.kind c) := by
  cases side <;> simp [kind]

/-- What fills a frame is smaller than the result. -/
theorem Frame.size_lt_fill {hole root : Kind} (frame : Frame hole root) (v : hole.Carrier) :
    hole.size v < root.size (frame.fill v) := by
  cases frame with
  | segment before after => exact QualifiedName.sizeOf_lt_around before v after
  | projection s before after =>
    have hitem := Projection.sizeOf_lt_around before v after
    simp [fill, Kind.size]
    omega
  | joinPredicate relation side =>
    have hside := side.sizeOf_lt_kind (.predicate v)
    simp [fill, Kind.size] at hside ⊢
    omega
  | joinColumn relation side before after =>
    have hname := sizeOf_lt_around before v after
    have hside := side.sizeOf_lt_kind (.columns (before ++ v :: after))
    simp [fill, Kind.size] at hside ⊢
    omega
  | compound before after | column before after | callArg _ before after
  | tableArg _ _ before after | tableHint _ _ _ before after | fromJoin _ before after
  | groupBy _ before after | cte _ before after | orderBy _ before after =>
    have hitem := sizeOf_lt_around before v after
    simp [fill, Kind.size]
    omega
  | _ => simp [fill, Kind.size] <;> omega

namespace Node

noncomputable def size (n : Node) : Nat := n.kind.size n.tree

theorem size_lt_of_mem_children {u t : Node} (h : u ∈ t.children) : u.size < t.size := by
  obtain ⟨frame, hframe⟩ := exists_frame h
  have hlt := frame.size_lt_fill u.tree
  rw [hframe] at hlt
  exact hlt

/-- **What holds of a node when it holds of its direct subnodes holds of every node.** -/
theorem induction {P : Node → Prop} (h : ∀ t, (∀ u ∈ t.children, P u) → P t) (t : Node) : P t :=
  h t fun u _ => induction h u
termination_by t.size
decreasing_by exact size_lt_of_mem_children ‹_›

/-- What stands within a node is the node itself or stands within a direct subnode. -/
theorem within_iff {u t : Node} : Within u t ↔ u = t ∨ ∃ c ∈ t.children, Within u c := by
  constructor
  · intro h
    rcases Relation.ReflTransGen.cases_tail h with rfl | ⟨c, huc, hc⟩
    · exact .inl rfl
    · exact .inr ⟨c, hc, huc⟩
  · rintro (rfl | ⟨c, hc, huc⟩)
    · exact .refl
    · exact huc.tail hc

end Node

/-! ## The leaves of subnodes -/

theorem JoinSide.leaves_kind (side : JoinSide) (c : JoinCondition) :
    (side.kind c).leaves = c.leaves := by
  cases side <;> rfl

theorem QualifiedName.leaves_around (before : List Ident) (i : Ident) (after : List Ident) :
    (QualifiedName.around before i after).leaves = (before ++ i :: after).map .name := by
  rw [QualifiedName.leaves, QualifiedName.parts_around]

theorem Projection.leaves_eq (p : Projection) : p.leaves = p.items.flatMap SelectItem.leaves := by
  obtain ⟨first, rest⟩ := p
  rw [Projection.leaves, SelectItem.leavesAll_eq]
  rfl

/-- The leaves of what fills a frame are leaves of the result. -/
theorem Frame.leaves_subset_fill {hole root : Kind} (frame : Frame hole root) (v : hole.Carrier) :
    hole.leaves v ⊆ root.leaves (frame.fill v) := by
  intro l hl
  cases frame <;>
    simp_all [fill, Kind.leaves, Expr.leaves, Call.leaves, Binary.leaves, Relation.leaves,
      JoinCondition.leaves, Join.leaves, FromClause.leaves, SelectItem.leaves, Select.leaves,
      Body.leaves, OrderItem.leaves, Cte.leaves, Query.leaves, JoinSide.leaves_kind,
      QualifiedName.leaves_around, Projection.leaves_eq]

end SqlTree

import RelQuery.Proofs.Engine.Joined

/-!
# Clauses that may be met in any order

The walk meets the clauses of a query in an order that depends on the numbers of candidate rows, and
each of them from either side.  The order does not matter when no clause that may pad an entry meets
another one there that drops padded rows, and when the outer clauses look at their own two entries
only.  Both are properties of the clauses as they are resolved, and the pool of the walk inherits
them.
-/

namespace RelQuery

namespace JoinClause

/-- The clause seen from either of its sides. -/
def faces (clause : JoinClause) : List JoinClause :=
  [clause, clause.turned]

/-- Where two clauses meet at an entry, a clause that keeps the far side is met by one that keeps
the near side. -/
def Compatible (a b : JoinClause) : Prop :=
  ∀ a' ∈ a.faces, ∀ b' ∈ b.faces, a'.left.same b'.left = true →
    (a'.kind.keepsRight = true → b'.kind.keepsLeft = true) ∧
      (b'.kind.keepsRight = true → a'.kind.keepsLeft = true)

instance (a b : JoinClause) : Decidable (Compatible a b) :=
  inferInstanceAs (Decidable (∀ a' ∈ a.faces, ∀ b' ∈ b.faces, a'.left.same b'.left = true →
    (a'.kind.keepsRight = true → b'.kind.keepsLeft = true) ∧
      (b'.kind.keepsRight = true → a'.kind.keepsLeft = true)))

/-- The condition of the clause equates a column of one of its entries with one of the other. -/
def EquatesOwn (clause : JoinClause) : Prop :=
  ∃ on left right, clause.on = some on ∧ on.equated? = some (left, right) ∧
    (left.qualifiedBy clause.left.referenceName = true ∧
        right.qualifiedBy clause.right.referenceName = true ∨
      left.qualifiedBy clause.right.referenceName = true ∧
        right.qualifiedBy clause.left.referenceName = true)

end JoinClause

namespace Plan

variable {s : Store} {plan : Plan} {inputs : List JoinInput} {pool : List PendingJoin}

/-- The clauses of the plan may be met in any order. -/
structure Separable (plan : Plan) : Prop where
  compatible : plan.joins.Pairwise JoinClause.Compatible
  own : ∀ clause ∈ plan.joins, clause.kind.isOuter = true → clause.EquatesOwn

/-- A face of a pending clause starts at the entry that the clause names there. -/
lemma face_of_ofClause {clause : JoinClause} {link face : PendingJoin}
    (hof : PendingJoin.ofClause inputs clause = .ok link) (hface : face ∈ link.faces) :
    face.clause ∈ clause.faces ∧
      (JoinInput.atPosition inputs face.left).table.same face.clause.left = true := by
  obtain ⟨hleft, hright, rfl⟩ := JoinInput.ofClause_eq_ok hof
  rcases PendingJoin.mem_faces.mp hface with rfl | rfl
  · exact ⟨List.mem_cons_self, (JoinInput.indexOf_eq_ok hleft).2⟩
  · exact ⟨List.mem_cons_of_mem _ List.mem_cons_self, (JoinInput.indexOf_eq_ok hright).2⟩

/-- The pool of separable clauses is compatible. -/
lemma Separable.pool_compatible (separable : plan.Separable)
    (hpool : plan.joins.mapM (PendingJoin.ofClause inputs) = .ok pool) :
    pool.Pairwise PendingJoin.Compatible := by
  refine List.pairwise_iff_getElem.mpr fun i j hi hj hij => ?_
  obtain ⟨a, ha, hofA⟩ := source_of_getElem?_of_mapM hpool (List.getElem?_eq_getElem hi)
  obtain ⟨b, hb, hofB⟩ := source_of_getElem?_of_mapM hpool (List.getElem?_eq_getElem hj)
  obtain ⟨hlt, rfl⟩ := List.getElem?_eq_some_iff.mp ha
  obtain ⟨hlt', rfl⟩ := List.getElem?_eq_some_iff.mp hb
  have compatible := List.pairwise_iff_getElem.mp separable.compatible i j hlt hlt' hij
  intro a' ha' b' hb' meet
  obtain ⟨hfaceA, hentryA⟩ := face_of_ofClause hofA ha'
  obtain ⟨hfaceB, hentryB⟩ := face_of_ofClause hofB hb'
  rw [FromEntry.same, Name.same_comm, meet] at hentryA
  exact compatible a'.clause hfaceA b'.clause hfaceB (Name.same_trans hentryA hentryB)

/-- The outer clauses in the pool of separable clauses equate columns of their own two entries. -/
lemma Separable.outerOwn (separable : plan.Separable) {early : FromEntry → Option Expr}
    (gathered : plan.Gathered s early inputs) (bound : plan.Bound s)
    (hpool : plan.joins.mapM (PendingJoin.ofClause inputs) = .ok pool) : plan.OuterOwn pool := by
  intro link hlink houter
  obtain ⟨clause, hclause, hof⟩ := source_of_mem_of_mapM hpool hlink
  obtain ⟨hleft, hright, rfl⟩ := JoinInput.ofClause_eq_ok hof
  obtain ⟨on, l, r, hon, hequated, hsides⟩ := separable.own link.clause hclause houter
  have he : on ∈ plan.conditions :=
    List.mem_append_right _ (List.mem_filterMap.mpr ⟨link.clause, hclause, hon⟩)
  have hcolumns := Expr.columns_of_equated hequated
  obtain ⟨_, _, _, hdeclaresL⟩ := bound.resolved on he l (by simp [hcolumns])
  obtain ⟨_, _, _, hdeclaresR⟩ := bound.resolved on he r (by simp [hcolumns])
  -- the entries at the two positions go by the names that the clause has for them
  have named {ref : ColumnRef} {side : FromEntry} {position : Nat}
      (hposition : JoinInput.indexOf inputs side = .ok position)
      (hname : ref.qualifiedBy side.referenceName = true) :
      ref.qualifiedBy (FromEntry.atPosition plan.entries position).referenceName = true := by
    have hsame := (JoinInput.indexOf_eq_ok hposition).2
    rw [← gathered.entry_eq, FromEntry.same, Name.same_comm] at hsame
    unfold ColumnRef.qualifiedBy at hname ⊢
    rw [Option.any_eq_true] at hname ⊢
    obtain ⟨table, htable, hname⟩ := hname
    exact ⟨table, htable, Name.same_trans hname hsame⟩
  refine ⟨on, l, r, hon, hequated,
    ⟨by rw [hdeclaresL.index]; rfl, by rw [hdeclaresR.index]; rfl⟩, ?_⟩
  rcases hsides with ⟨hl, hr⟩ | ⟨hl, hr⟩
  · exact Or.inl ⟨named hleft hl, named hright hr⟩
  · exact Or.inr ⟨named hright hl, named hleft hr⟩

/-- The clauses lie between the same positions whatever the candidates are. -/
lemma ofClause_congr {inputs' : List JoinInput}
    (htables : inputs.map JoinInput.table = inputs'.map JoinInput.table) :
    PendingJoin.ofClause inputs = PendingJoin.ofClause inputs' := by
  have index (ref : FromEntry) : JoinInput.indexOf inputs ref = JoinInput.indexOf inputs' ref := by
    have hfind (tables : List JoinInput) : tables.findIdx? (·.table.same ref) =
        (tables.map JoinInput.table).findIdx? (·.same ref) := by
      rw [List.findIdx?_map]
      rfl
    rw [JoinInput.indexOf, JoinInput.indexOf, hfind, hfind, htables]
  funext clause
  rw [PendingJoin.ofClause, PendingJoin.ofClause, index, index]

end Plan

end RelQuery

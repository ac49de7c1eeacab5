import RelQuery.Proofs.Engine.Distinct
import RelQuery.Proofs.Engine.Members
import RelQuery.Proofs.Engine.Projected
import RelQuery.Proofs.Expr.Agreement
import RelQuery.Proofs.Group.Folding

/-!
# Rows as a bag

Grouping, HAVING, ORDER BY and DISTINCT are given the projected rows in the order in which the
tables happened to be joined.  The answer as a bag does not depend on that order.  Sorting and
removing duplicates never do.  Grouping might: a sum of reals is rounded in the order of its terms,
and a member that is neither an aggregate nor grouped has the value of the first row.  So the
members under grouping are taken to be free of reals, and to be those of which the engine knows that
they are grouped.
-/

namespace RelQuery

namespace Plan

variable {s : Store} {plan : Plan}

/-! ## Members on stored rows -/

/-- A column that is not declared REAL has no real for its value in stored rows. -/
lemma Bound.not_real_of_shownRows (bound : plan.Bound s) (sound : s.Sound) {σ : Choice (Nat × Row)}
    (valid : (s.space plan.entries).Valid σ) {ref : ColumnRef} (href : ref.ResolvedIn plan.tables)
    (htype : ref.columnType ≠ some .real) {mode : Coverage} {value : Value}
    (h : Expr.columnOutcome mode (FromEntry.shownRows plan.entries σ) ref =
      .ok (.determined value)) : value.isReal = false := by
  obtain ⟨b, hb, index, hdeclares⟩ := href
  obtain ⟨position, hposition, rfl⟩ := List.getElem_of_mem hb
  have hentry : FromEntry.atPosition plan.entries position = plan.tables[position].table := by
    simp [FromEntry.atPosition, entries, hposition]
  have hname :
      ref.qualifiedBy (FromEntry.atPosition plan.entries position).referenceName = true := by
    rw [hentry, hdeclares.qualifiedBy_iff]
    exact Name.same_refl _
  have hlocated : ref.index.isSome = true := by rw [hdeclares.index]; rfl
  unfold FromEntry.shownRows at h
  rw [bound.apart_entries.named.columnOutcome_eq (by rwa [entries, List.length_map]) hname
    hlocated] at h
  obtain ⟨found, hfound, hvalue⟩ := Result.map_eq_ok.mp h
  obtain rfl := Outcome.determined.inj hvalue
  cases hrow : σ position with
  | none =>
    rw [hrow] at hfound
    rw [← Except.ok.inj hfound]
    rfl
  | some row =>
    have hstored : row ∈ s.rowsOf plan.tables[position].table := by
      rw [← hentry]
      exact valid position row hrow
    rw [hrow, hentry] at hfound
    exact bound.not_real sound hb hdeclares hstored hfound htype

/-- Resolved expressions that agree have equal outcomes, where their literals have the same
signs. -/
lemma Bound.evaluate_eq_of_agrees (bound : plan.Bound s) {a b : Expr}
    (ha : a.ResolvedIn plan.tables) (hb : b.ResolvedIn plan.tables) (signs : a.SameSigns b)
    (h : a.agrees b = true) (mode : Coverage) (rows : List LogicalRow) :
    a.evaluate mode rows = b.evaluate mode rows :=
  Expr.evaluate_eq_of_agrees bound.apart ha hb (signs.literals_eq h) h mode rows

/-- What a member computes has the outcomes of the member, where one of them has exact literals. -/
lemma Bound.evaluate_eq_of_computes (bound : plan.Bound s) {a b : Expr}
    (ha : a.ResolvedIn plan.tables) (hb : b.ResolvedIn plan.tables)
    (hexact : a.ExactLiterals ∨ b.ExactLiterals) (h : Projection.Computes a b) (mode : Coverage)
    (rows : List LogicalRow) : a.evaluate mode rows = b.evaluate mode rows := by
  rcases h with rfl | hagrees
  · rfl
  · exact bound.evaluate_eq_of_agrees ha hb (Expr.sameSigns_of_exactLiterals hexact) hagrees mode
      rows

/-- Real-free members have no reals for their values on stored rows. -/
lemma Bound.noReal_of_evaluate (bound : plan.Bound s) (sound : s.Sound) {σ : Choice (Nat × Row)}
    (valid : (s.space plan.entries).Valid σ)
    (resolved : ∀ e ∈ plan.projection.members, e.ResolvedIn plan.tables)
    (realFree : ∀ e ∈ plan.projection.members, e.realFree = true) {mode : Coverage} {row : Row}
    (h : plan.projection.evaluate mode (FromEntry.shownRows plan.entries σ) = .ok row) :
    row.NoReal := by
  intro value hvalue
  obtain ⟨e, he, hmember⟩ := source_of_mem_of_mapM h hvalue
  unfold Projection.evaluateMember at hmember
  split at hmember
  · simp at hmember
  · rename_i found hfound
    obtain rfl := Except.ok.inj hmember
    exact Expr.not_real_of_evaluate (realFree e he) (fun ref href htype _ hcolumn =>
      bound.not_real_of_shownRows sound valid (resolved e he ref href) htype hcolumn) hfound
  · simp at hmember

/-- The value of a member in the row of all members. -/
lemma getD_of_evaluate {p : Projection} {mode : Coverage} {rows : List LogicalRow} {row : Row}
    (h : p.evaluate mode rows = .ok row) {position : Nat} {e : Expr}
    (he : p.members[position]? = some e) :
    e.evaluate mode rows = .ok (.determined (row.getD position .null)) := by
  obtain ⟨value, hvalue, hmember⟩ := getElem?_of_mapM h he
  rw [List.getD_eq_getElem?_getD, hvalue, Option.getD_some]
  unfold Projection.evaluateMember at hmember
  split at hmember
  · simp at hmember
  · rename_i found hfound
    rw [hfound, Except.ok.inj hmember]
  · simp at hmember

/-- A grouped member that is no aggregate has one value where the keys agree. -/
lemma Bound.getD_eq_of_agreeOn (bound : plan.Bound s) {query : Query} {groupBy : List Expr}
    (grouping : Query.Grouping query plan groupBy) (hgrouped : query.needsGrouping = true)
    (hhidden : query.projection.hidden = [])
    (realFree : ∀ e ∈ plan.projection.members, e.realFree = true) {mode : Coverage}
    {σ τ : Choice (Nat × Row)} {row other : Row}
    (hrow : plan.projection.evaluate mode (FromEntry.shownRows plan.entries σ) = .ok row)
    (hother : plan.projection.evaluate mode (FromEntry.shownRows plan.entries τ) = .ok other)
    (noReal : row.NoReal) (noReal' : other.NoReal) (agree : agreeOn plan.keys row other = true)
    {position : Nat} (hposition : plan.projection.aggregates[position]? = some none) :
    row.getD position .null = other.getD position .null := by
  rw [Projection.aggregates, List.getElem?_map, Option.map_eq_some_iff] at hposition
  obtain ⟨e, he, hnone⟩ := hposition
  have hmem := List.mem_of_getElem? he
  have hvalue := getD_of_evaluate hrow he
  have hvalue' := getD_of_evaluate hother he
  rcases grouping.members hgrouped hhidden e hmem with
    haggregate | ⟨-, ⟨key, hkey, hcomputes⟩ | hnoColumn⟩
  · simp [Expr.isPlainAggregate, hnone] at haggregate
  · -- the key that computes the member has a position, and the rows agree there
    obtain ⟨place, hplace, member, hmember, hcomputed⟩ :=
      exists_of_forall₂ grouping.keysComputed hkey
    have hmem' := List.mem_of_getElem? hmember
    have same (ρ : Choice (Nat × Row)) :
        member.evaluate mode (FromEntry.shownRows plan.entries ρ) =
          e.evaluate mode (FromEntry.shownRows plan.entries ρ) :=
      (bound.evaluate_eq_of_computes (grouping.resolved member hmem')
        (grouping.keysResolved key hkey)
        (Or.inl (Expr.exactLiterals_of_realFree (realFree member hmem'))) hcomputed mode _).trans
      (bound.evaluate_eq_of_computes (grouping.keysResolved key hkey) (grouping.resolved e hmem)
        (Or.inr (Expr.exactLiterals_of_realFree (realFree e hmem))) hcomputes mode _)
    have hkeyValue := getD_of_evaluate hrow hmember
    have hkeyValue' := getD_of_evaluate hother hmember
    rw [same, hvalue] at hkeyValue
    rw [same, hvalue'] at hkeyValue'
    rw [Outcome.determined.inj (Except.ok.inj hkeyValue),
      Outcome.determined.inj (Except.ok.inj hkeyValue')]
    exact (Value.alike_iff (noReal.getD place) (noReal'.getD place)).mp
      (List.all_eq_true.mp agree place hplace)
  · have hsame : e.evaluate mode (FromEntry.shownRows plan.entries σ) =
        e.evaluate mode (FromEntry.shownRows plan.entries τ) :=
      Expr.evaluate_congr fun ref href => by simp [hnoColumn] at href
    rw [hvalue, hvalue'] at hsame
    exact Outcome.determined.inj (Except.ok.inj hsame)

end Plan

/-! ## The phases after the projection -/

namespace Query

/-- Under grouping nothing depends on the order of rows: the query brings no hidden members, and no
member has reals in it. -/
structure FoldsExactly (s : Store) (query : Query) : Prop where
  hidden : query.projection.hidden = []
  realFree : ∀ plan, query.plan s.catalog = .ok plan →
    ∀ e ∈ plan.projection.members, e.realFree = true

end Query

namespace Plan

variable {s : Store} {plan : Plan} {rows rows' : List Row}

/-- Two orders of one bag of rows are arranged to one bag. -/
lemma perm_of_arrange (hrows : rows.Perm rows') {arranged arranged' : List Row}
    (h : plan.arrange rows = .ok arranged) (h' : plan.arrange rows' = .ok arranged') :
    arranged.Perm arranged' := by
  have sorted (rows : List Row) : (if plan.sortKeys.isEmpty then rows
      else OrderKey.sortRows plan.sortKeys rows).Perm rows := by
    split
    · exact List.Perm.refl rows
    · exact stableSort_perm _ rows
  have visible := ((sorted rows).trans (hrows.trans (sorted rows').symm)).map
    (·.take plan.projection.visible.length)
  unfold arrange at h h'
  dsimp only at h h'
  split at h
  · rename_i hdistinct
    rw [if_pos hdistinct] at h'
    exact perm_of_distinctRows visible h h'
  · rename_i hdistinct
    rw [if_neg hdistinct] at h'
    rw [← Except.ok.inj h, ← Except.ok.inj h']
    exact visible

/-- The rows of the members on two orders of one bag of choices are grouped to the same list. -/
lemma Bound.group_eq (bound : plan.Bound s) (sound : s.Sound) {query : Query}
    (hplan : query.plan s.catalog = .ok plan) (hneeds : query.needsGrouping = true)
    (folds : query.FoldsExactly s) {σs : List (Choice (Nat × Row))}
    (valid : ∀ σ ∈ σs, (s.space plan.entries).Valid σ)
    (projected : (σs.mapM fun σ => plan.projection.evaluate .prefilter
      (FromEntry.shownRows plan.entries σ)) = .ok rows)
    (hrows : rows.Perm rows') {watch watch' : Watch} {grouped grouped' : List Row}
    (h : plan.group watch rows = .ok grouped) (h' : plan.group watch' rows' = .ok grouped') :
    grouped = grouped' := by
  have planned := Query.planned_of_plan hplan
  obtain ⟨groupBy, grouping⟩ := planned.exists_grouping
  have free := folds.realFree plan hplan
  have hgrouped : plan.grouped = true := planned.grouped.trans hneeds
  rw [group, if_pos hgrouped] at h h'
  obtain ⟨found, hfound, h⟩ := Result.bind_eq_ok.mp h
  obtain ⟨found', hfound', h'⟩ := Result.bind_eq_ok.mp h'
  have source (row : Row) (hrow : row ∈ rows) : ∃ σ ∈ σs,
      plan.projection.evaluate .prefilter (FromEntry.shownRows plan.entries σ) = .ok row :=
    source_of_mem_of_mapM projected hrow
  have noReal : ∀ row ∈ rows, row.NoReal := by
    intro row hrow
    obtain ⟨σ, hσ, hevaluate⟩ := source row hrow
    exact bound.noReal_of_evaluate sound (valid σ hσ) grouping.resolved free hevaluate
  have noAvg : ∀ f ∈ plan.projection.aggregates, f ≠ some .avg := by
    intro f hf
    obtain ⟨e, he, rfl⟩ := List.mem_map.mp hf
    exact Expr.aggregate?_ne_avg (free e he)
  -- the groups come out the same, in the order of their keys
  obtain rfl : found = found' := by
    refine foldByKeys_eq_of_perm noAvg hrows noReal
      (fun position hposition row hrow other hother agree => ?_) hfound hfound'
    obtain ⟨σ, -, hσ⟩ := source row hrow
    obtain ⟨τ, -, hτ⟩ := source other hother
    exact bound.getD_eq_of_agreeOn grouping hneeds folds.hidden free hσ hτ
      (noReal row hrow) (noReal other hother) agree hposition
  exact Except.ok.inj (h.symm.trans h')

/-- The rows of the members on two orders of one bag of choices are grouped to one bag. -/
lemma Bound.perm_of_group (bound : plan.Bound s) (sound : s.Sound) {query : Query}
    (hplan : query.plan s.catalog = .ok plan)
    (folds : query.needsGrouping = true → query.FoldsExactly s) {σs : List (Choice (Nat × Row))}
    (valid : ∀ σ ∈ σs, (s.space plan.entries).Valid σ)
    (projected : (σs.mapM fun σ => plan.projection.evaluate .prefilter
      (FromEntry.shownRows plan.entries σ)) = .ok rows)
    (hrows : rows.Perm rows') {watch : Watch} {grouped grouped' : List Row}
    (h : plan.group watch rows = .ok grouped) (h' : plan.group watch rows' = .ok grouped') :
    grouped.Perm grouped' := by
  cases hneeds : query.needsGrouping with
  | true =>
    exact List.Perm.of_eq
      (bound.group_eq sound hplan hneeds (folds hneeds) valid projected hrows h h')
  | false =>
    have hgrouped : plan.grouped = false := (Query.planned_of_plan hplan).grouped.trans hneeds
    rw [group, hgrouped] at h h'
    rw [← Except.ok.inj h, ← Except.ok.inj h']
    exact hrows

end Plan

end RelQuery

import RelQuery.Engine.Run
import RelQuery.Proofs.Engine.Early

/-!
# Joined candidates

The engine joins the candidates by the clauses of the plan and keeps the tuples that WHERE accepts.
When the clauses are compatible, what it keeps are the choices of stored rows that fit the clauses
and that WHERE accepts, whatever rows the early predicates had removed before.
-/

namespace RelQuery.Plan

variable {s : Store} {plan : Plan} {early : FromEntry → Option Expr} {inputs : List JoinInput}

/-! ## Keys -/

/-- No matched clause equates a column that is declared REAL. -/
def KeysNotReal (plan : Plan) : Prop :=
  ∀ clause ∈ plan.joins, clause.kind ≠ .cross → ∀ on left right, clause.on = some on →
    on.equated? = some (left, right) →
      left.columnType ≠ some .real ∧ right.columnType ≠ some .real

/-- A stored value fits the declared type of its column. -/
lemma Bound.fits (bound : plan.Bound s) (sound : s.Sound) {b : BoundEntry} (hb : b ∈ plan.tables)
    {ref : ColumnRef} {index : Nat} (hdeclares : ColumnRef.Declares b index ref) {row : Nat × Row}
    (hrow : row ∈ s.rowsOf b.table) {value : Value}
    (hvalue : (b.table.named row).valueOf ref = .ok value) {type : ColumnType}
    (htype : ref.columnType = some type) : value.Fits type := by
  obtain ⟨t, ht, hdefinition⟩ := bound.stored b hb
  rw [Store.rowsOf_eq ht] at hrow
  have htyped := (sound t (Store.get_eq_ok ht).2).typed row hrow
  rw [hdefinition] at htyped
  obtain ⟨column, hcolumn, hrefers⟩ := hdeclares.declared
  obtain rfl : column.columnType = type := by
    rw [hrefers] at htype
    exact Option.some.inj htype
  simp only [StoredRow.valueOf, hdeclares.index, StoredRow.valueAt, Row.at] at hvalue
  split at hvalue
  · rename_i found hfound
    obtain rfl := Except.ok.inj hvalue
    obtain ⟨hlt, hget⟩ := List.getElem?_eq_some_iff.mp hcolumn
    obtain ⟨hlt', hget'⟩ := List.getElem?_eq_some_iff.mp hfound
    have := List.Forall₂.get htyped hlt hlt'
    simp only [List.get_eq_getElem, hget] at this
    rwa [← hget']
  · simp at hvalue

/-- A stored value of a column that is not declared REAL is no real. -/
lemma Bound.not_real (bound : plan.Bound s) (sound : s.Sound) {b : BoundEntry}
    (hb : b ∈ plan.tables) {ref : ColumnRef} {index : Nat}
    (hdeclares : ColumnRef.Declares b index ref) {row : Nat × Row}
    (hrow : row ∈ s.rowsOf b.table) {value : Value}
    (hvalue : (b.table.named row).valueOf ref = .ok value)
    (htype : ref.columnType ≠ some .real) : value.isReal = false := by
  obtain ⟨column, -, hrefers⟩ := hdeclares.declared
  have hcolumn : ref.columnType = some column.columnType := by rw [hrefers]; rfl
  have hfits := bound.fits sound hb hdeclares hrow hvalue hcolumn
  cases value with
  | real x =>
    rw [hcolumn, ← hfits .real rfl] at htype
    exact absurd rfl htype
  | _ => rfl

/-- Whatever is carried for an entry is qualified by it. -/
lemma qualifiedBy_of_carried {b : BoundEntry} {ref : ColumnRef}
    (h : ref ∈ plan.carriedColumns b) : ref.qualifiedBy b.referenceName = true := by
  by_cases hread : plan.readColumns b = []
  · have hfirst : plan.carriedColumns b =
        (b.definition.columns.head?.map (ColumnRef.declared b 0)).toList :=
      if_pos (List.isEmpty_iff.mpr hread)
    rw [hfirst, Option.mem_toList, Option.map_eq_some_iff] at h
    obtain ⟨column, -, rfl⟩ := h
    simp [ColumnRef.declared, ColumnRef.qualifiedBy]
  · obtain ⟨first, hfirst⟩ := List.exists_mem_of_ne_nil _ hread
    rw [carriedColumns_eq hfirst] at h
    exact (mem_readColumns h).2

/-- A column that agrees with one qualified by a name is qualified by it too. -/
lemma qualifiedBy_of_same {a b : ColumnRef} {name : String} (h : a.same b = true)
    (ha : a.qualifiedBy name = true) : b.qualifiedBy name = true := by
  unfold ColumnRef.same at h
  rw [Bool.and_eq_true] at h
  unfold ColumnRef.qualifiedBy at *
  cases hta : a.table <;> cases htb : b.table <;> simp_all [ColumnRef.sameTable]
  exact Name.same_trans (by rw [Name.same_comm]; exact h.1) ha

/-- Candidates hold no real in a column of a condition that is not declared REAL. -/
lemma Gathered.holdsNoReal (h : plan.Gathered s early inputs) (bound : plan.Bound s)
    (sound : s.Sound) {e : Expr} (he : e ∈ plan.conditions) {ref : ColumnRef}
    (href : ref ∈ e.columns) (htype : ref.columnType ≠ some .real) :
    ∀ t ∈ inputs, t.HoldsNoReal ref := by
  intro t ht candidate hcandidate value hvalue
  obtain ⟨position, hposition, rfl⟩ := List.getElem_of_mem ht
  obtain ⟨b, hb, -, gathers⟩ := h.at_position hposition
  have hinput : JoinInput.atPosition inputs position = inputs[position] := by
    simp [JoinInput.atPosition, hposition]
  rw [hinput] at gathers
  have hreference : inputs[position].referenceName = b.referenceName := by
    rw [JoinInput.referenceName, gathers.table]
    rfl
  -- the candidate carries the column, so the entry has it
  have hname : ref.qualifiedBy b.referenceName = true := by
    obtain ⟨place, hplace, -⟩ := Result.bind_eq_ok'.mp hvalue
    unfold carriedPosition at hplace
    split at hplace
    · rename_i found hfound
      obtain ⟨hlt, hsame, -⟩ := List.findIdx?_eq_some_iff_getElem.mp hfound
      have hcarried : inputs[position].columns[found] ∈ plan.carriedColumns b := by
        rw [← gathers.carried]
        exact List.getElem_mem hlt
      exact qualifiedBy_of_same hsame (qualifiedBy_of_carried hcarried)
    · simp at hplace
  obtain ⟨row, hrow, hcut⟩ : ∃ row ∈ s.rowsOf b.table,
      Store.cut (plan.carriedColumns b) (b.table.named row) = .ok candidate := by
    obtain ⟨index, hindex, rfl⟩ := List.getElem_of_mem hcandidate
    obtain ⟨found, hfound, hcut⟩ := gathers.exists_candidate hindex
    obtain rfl : inputs[position].rows[index] = found := by simpa [hindex] using hfound
    refine ⟨_, ?_, hcut⟩
    rw [← gathers.length_eq] at hindex
    have hmem : (s.kept (early b.table) b.table).getD index (0, []) ∈
        s.kept (early b.table) b.table := by simp [hindex]
    exact (List.mem_filter.mp hmem).1
  rw [hreference, gathers.carried, bound.valueOf_cut he href hname hcut] at hvalue
  obtain ⟨table, htable, i, hdeclares⟩ := bound.resolved e he ref href
  obtain rfl : table = b :=
    bound.apart.eq_of_same htable hb (hdeclares.qualifiedBy_iff.mp hname)
  exact bound.not_real sound htable hdeclares hrow hvalue htype

/-- The clauses of the plan are executed by keys without reals. -/
lemma Gathered.clausePlain (h : plan.Gathered s early inputs) (bound : plan.Bound s)
    (sound : s.Sound) (notReal : plan.KeysNotReal) :
    ∀ clause ∈ plan.joins, JoinInput.ClausePlain inputs clause := by
  intro clause hclause hkind on hon left right hequated
  have he : on ∈ plan.conditions :=
    List.mem_append_right _ (List.mem_filterMap.mpr ⟨clause, hclause, hon⟩)
  have hcolumns := Expr.columns_of_equated hequated
  have hleft : left ∈ on.columns := by simp [hcolumns]
  have hright : right ∈ on.columns := by simp [hcolumns]
  obtain ⟨hl, hr⟩ := notReal clause hclause hkind on left right hon hequated
  obtain ⟨_, _, _, hdeclares⟩ := bound.resolved on he left hleft
  obtain ⟨_, _, _, hdeclares'⟩ := bound.resolved on he right hright
  refine ⟨⟨by rw [hdeclares.index]; rfl, by rw [hdeclares'.index]; rfl⟩, fun t ht => ?_⟩
  exact ⟨h.holdsNoReal bound sound he hleft hl t ht, h.holdsNoReal bound sound he hright hr t ht⟩

/-! ## Clauses between entries -/

/-- The outer clauses of the pool equate columns of their own two entries. -/
def OuterOwn (plan : Plan) (pool : List PendingJoin) : Prop :=
  ∀ link ∈ pool, link.clause.kind.isOuter = true → RowSpace.EquatesOwn
    (fun position => (FromEntry.atPosition plan.entries position).referenceName) link

/-- The entry that a face may pad has no early predicate. -/
lemma Gathered.early_eq_none (h : plan.Gathered s early inputs) (spares : plan.Spares early)
    {pool : List PendingJoin}
    (hpool : plan.joins.mapM (PendingJoin.ofClause inputs) = .ok pool) :
    ∀ link ∈ pool, ∀ face ∈ link.faces, face.keepsLeft = true →
      face.right < inputs.length ∧
        early (FromEntry.atPosition plan.entries face.right) = none := by
  intro link hlink face hface hkeeps
  obtain ⟨clause, hclause, hof⟩ := source_of_mem_of_mapM hpool hlink
  obtain ⟨hleft, hright, rfl⟩ := JoinInput.ofClause_eq_ok hof
  obtain ⟨hltL, hsameL⟩ := JoinInput.indexOf_eq_ok hleft
  obtain ⟨hltR, hsameR⟩ := JoinInput.indexOf_eq_ok hright
  rw [FromEntry.same, Name.same_comm] at hsameL hsameR
  rw [h.entry_eq]
  rcases PendingJoin.mem_faces.mp hface with rfl | rfl
  · refine ⟨hltR, spares.padded face.clause hclause _ ?_⟩
    unfold PendingJoin.keepsLeft JoinKind.keepsLeft at hkeeps
    unfold pads
    cases hkind : face.clause.kind <;> simp_all [FromEntry.same]
  · rw [PendingJoin.keepsLeft_turned] at hkeeps
    refine ⟨hltL, spares.padded link.clause hclause _ ?_⟩
    unfold PendingJoin.keepsRight JoinKind.keepsRight at hkeeps
    unfold pads
    cases hkind : link.clause.kind <;> simp_all [FromEntry.same]

/-- The conditions of the pool are conditions of the plan. -/
lemma mem_conditions_of_pool {pool : List PendingJoin}
    (hpool : plan.joins.mapM (PendingJoin.ofClause inputs) = .ok pool) :
    ∀ link ∈ pool, ∀ on, link.clause.on = some on → on ∈ plan.conditions := by
  refine (JoinInput.forall_pool_iff hpool
    fun clause => ∀ on, clause.on = some on → on ∈ plan.conditions).mpr
    fun clause hclause on hon => ?_
  exact List.mem_append_right _ (List.mem_filterMap.mpr ⟨clause, hclause, hon⟩)

/-- The choices of stored rows that the tuples make. -/
def choices (s : Store) (plan : Plan) (early : FromEntry → Option Expr) (output : JoinedTuples) :
    List (Choice (Nat × Row)) :=
  output.choices.map (Choice.through (behind s plan early))

section Executed

variable {pool : List PendingJoin} {output : JoinedTuples}

/-- The choices of an execution take rows that the candidates have. -/
lemma valid_of_executed (executed : JoinInput.Executed inputs pool output) :
    ∀ c ∈ output.choices, (JoinInput.space inputs).Valid c := by
  obtain ⟨used, left, choices, grown, -, hchoices⟩ := executed.grown
  intro c hc
  rw [hchoices] at hc
  exact grown.valid c (List.mem_filter.mp hc).1

/-- An execution gives no choice of stored rows twice. -/
lemma Gathered.nodup_choices (h : plan.Gathered s early inputs) (sound : s.Sound)
    (executed : JoinInput.Executed inputs pool output) :
    (plan.choices s early output).Nodup := by
  have valid := valid_of_executed executed
  refine List.Nodup.map_on (fun c hc c' hc' heq => ?_) executed.nodup_choices
  exact (h.embeds sound).through_inj (valid c hc) (valid c' hc') heq

/-- An execution along compatible clauses gives the choices of stored rows that fit the clauses, of
those that WHERE accepts. -/
theorem Gathered.mem_choices_iff (h : plan.Gathered s early inputs) (bound : plan.Bound s)
    (sound : s.Sound) (spares : plan.Spares early)
    (hpool : plan.joins.mapM (PendingJoin.ofClause inputs) = .ok pool)
    (executed : JoinInput.Executed inputs pool output)
    (compatible : pool.Pairwise PendingJoin.Compatible) (own : plan.OuterOwn pool)
    {σ : Choice (Nat × Row)} (selected : plan.selects s σ = true) :
    σ ∈ plan.choices s early output ↔ (s.space plan.entries).Valid σ ∧
      σ.SupportedBy (List.range plan.entries.length) ∧
        (s.space plan.entries).Fits pool (List.range plan.entries.length) σ := by
  have embeds := h.embeds sound
  have hlocal : ∀ link ∈ pool, link.clause.kind.isOuter = true →
      (JoinInput.space inputs).Local link := by
    intro link hlink houter
    obtain ⟨hl, hr⟩ := JoinInput.known_of_pool hpool link hlink
    refine RowSpace.local_of_equatesOwn (h.namesApart bound).named hl hr ?_
    have hown := own link hlink houter
    simp only [h.entry_eq] at hown
    exact hown
  have reads : ∀ link ∈ pool, (JoinInput.space inputs).Reads (s.space plan.entries)
      (behind s plan early) link.clause.on := by
    intro link hlink
    exact h.reads bound (mem_conditions_of_pool hpool link hlink)
  have complete : ∀ link ∈ pool, ∀ face ∈ link.faces, face.keepsLeft = true →
      (JoinInput.space inputs).Complete (s.space plan.entries) (behind s plan early)
        face.right := by
    intro link hlink face hface hkeeps
    obtain ⟨hlt, hearly⟩ := h.early_eq_none spares hpool link hlink face hface hkeeps
    exact h.complete hlt hearly
  have same : ∀ table, table ∈ output.order ↔ table ∈ List.range plan.entries.length := by
    intro table
    rw [executed.covers.mem_iff, JoinInput.positions, h.length_eq]
  constructor
  · intro hσ
    obtain ⟨c, hc, rfl⟩ := List.mem_map.mp hσ
    obtain ⟨valid, supported, hfits⟩ := (executed.mem_choices_iff compatible hlocal).mp hc
    refine ⟨embeds.valid valid, ?_, ?_⟩
    · rw [Choice.supportedBy_through, h.length_eq]
      exact supported
    · exact ((embeds.fits_iff reads complete valid).mp hfits).congr_tables same
  · rintro ⟨valid, supported, hfits⟩
    obtain ⟨c, hvalid, rfl⟩ := RowSpace.exists_through fun position row hrow =>
      h.exists_source bound spares valid supported selected hrow
    refine List.mem_map.mpr ⟨c, (executed.mem_choices_iff compatible hlocal).mpr ⟨hvalid, ?_, ?_⟩,
      rfl⟩
    · rw [Choice.supportedBy_through, h.length_eq] at supported
      exact supported
    · have hback : ∀ table, table ∈ List.range plan.entries.length ↔ table ∈ output.order :=
        fun table => (same table).symm
      exact (embeds.fits_iff reads complete hvalid).mpr (hfits.congr_tables hback)

end Executed

/-! ## WHERE after the join -/

/-- Where all columns are resolved, evaluation on all entries does not depend on the mode. -/
lemma Bound.evaluate_mode (bound : plan.Bound s) {e : Expr} (he : e.ResolvedIn plan.tables)
    (mode mode' : Coverage) (σ : Choice (Nat × Row)) :
    e.evaluate mode (FromEntry.shownRows plan.entries σ) =
      e.evaluate mode' (FromEntry.shownRows plan.entries σ) := by
  refine Expr.evaluate_congr fun ref href => ?_
  obtain ⟨position, hposition, hname, hindex⟩ := exists_position (he ref href)
  unfold FromEntry.shownRows
  rw [bound.apart_entries.named.columnOutcome_eq hposition hname hindex,
    bound.apart_entries.named.columnOutcome_eq hposition hname hindex]

/-- Keeping the accepted tuples filters the choices. -/
lemma Gathered.choices_keepAccepted (h : plan.Gathered s early inputs) (bound : plan.Bound s)
    {pool : List PendingJoin} {output final : JoinedTuples}
    (executed : JoinInput.Executed inputs pool output) {e : Expr} (he : plan.selection = some e)
    (hfinal : (output.keepAccepted inputs e).result = .ok final) :
    final.order = output.order ∧ (∀ tuple ∈ final.tuples, tuple ∈ output.tuples) ∧
      plan.choices s early final = (plan.choices s early output).filter (plan.selects s) := by
  replace hfinal := Resolution.result_eq_ok.mp hfinal
  unfold JoinedTuples.keepAccepted at hfinal
  split at hfinal
  · rename_i kept hkept
    obtain rfl := Except.ok.inj hfinal
    obtain ⟨hall, rfl⟩ := filterResult_eq_ok.mp hkept
    refine ⟨rfl, fun tuple htuple => (List.mem_filter.mp htuple).1, ?_⟩
    have inside : output.order ⊆ JoinInput.positions inputs := executed.covers.subset
    have hreads : (JoinInput.space inputs).Reads (s.space plan.entries) (behind s plan early)
        (some e) := by
      refine h.reads bound fun e' he' => ?_
      obtain rfl := Option.some.inj he'
      exact List.mem_append_left _ (by simp [he])
    unfold choices JoinedTuples.choices
    rw [List.filter_map, List.filter_map]
    congr 2
    refine List.filter_congr fun tuple htuple => ?_
    -- the answer on the tuple is that on its choice, and on the rows behind it
    obtain ⟨passed, hpassed⟩ := hall tuple htuple
    have haccepts := JoinInput.accepts_of_acceptsTuple (h.namesApart bound) executed.nodup inside
      (executed.lengths tuple htuple) hpassed (τ := slotChoice output.order tuple) fun _ _ => rfl
    have hvalid := valid_of_executed executed (slotChoice output.order tuple)
      (List.mem_map.mpr ⟨tuple, htuple, rfl⟩)
    rw [hpassed, Result.holds_ok, Function.comp_apply, Function.comp_apply, selects, he,
      ← hreads _ hvalid]
    exact (congrArg Result.holds haccepts).symm
  · simp at hfinal

/-- With one table alone no clause is outer. -/
lemma not_outer_of_single {pool : List PendingJoin} {output : JoinedTuples}
    (executed : JoinInput.Executed inputs pool output) (hsingle : inputs.length ≤ 1) :
    ∀ link ∈ pool, link.clause.kind.isOuter = false := by
  obtain ⟨used, left, choices, grown, closed, -⟩ := executed.grown
  have hlength : output.order.length ≤ 1 := by
    rw [executed.covers.length_eq, JoinInput.positions, List.length_range]
    exact hsingle
  generalize output.order = order at grown closed hlength
  cases grown with
  | start table => exact fun link hlink => (closed link hlink).2.2
  | step grown _ _ _ _ _ =>
    have := List.length_pos_iff.mpr grown.joined_ne_nil
    rw [List.length_append, List.length_singleton] at hlength
    omega

/-- With one table alone every entry is given the WHERE predicate early. -/
lemma earlyPredicate_of_single {pool : List PendingJoin} {output : JoinedTuples}
    (hpool : plan.joins.mapM (PendingJoin.ofClause inputs) = .ok pool)
    (executed : JoinInput.Executed inputs pool output) (hsingle : inputs.length ≤ 1)
    (entry : FromEntry) : plan.earlyPredicate entry = plan.selection := by
  have hnone : plan.joins.any (pads · entry) = false := by
    rw [List.any_eq_false]
    intro clause hclause
    have hinner := (JoinInput.forall_pool_iff hpool fun clause => clause.kind.isOuter = false).mp
      (not_outer_of_single executed hsingle) clause hclause
    unfold pads
    cases hkind : clause.kind <;> simp_all [JoinKind.isOuter]
  unfold earlyPredicate
  rw [hnone]
  rfl

/-- What survives alone is accepted, when there is nothing else. -/
lemma Bound.accepts_of_survives (bound : plan.Bound s) {e : Expr}
    (hresolved : e.ResolvedIn plan.tables) {σ : Choice (Nat × Row)} {row : StoredRow}
    (hrows : FromEntry.shownRows plan.entries σ = [.stored row])
    (h : Store.survives e row = .ok true) :
    Result.holds (e.accepts (FromEntry.shownRows plan.entries σ)) = true := by
  rw [Result.holds_iff]
  unfold Expr.accepts
  rw [bound.evaluate_mode hresolved .full .prefilter, hrows]
  unfold Store.survives at h
  cases hearly : e.evaluate .prefilter [.stored row] with
  | error error =>
    rw [hearly] at h
    simp at h
  | ok outcome =>
    cases outcome with
    | determined value =>
      rw [hearly] at h
      exact h
    | undetermined =>
      -- on all entries nothing is left open
      rw [← hrows, bound.evaluate_mode hresolved .prefilter .full] at hearly
      obtain ⟨value, hvalue⟩ := Expr.determined_of_full hearly
      simp at hvalue

/-- With one table alone the early predicate has already selected the rows. -/
lemma Gathered.selects_of_single (h : plan.Gathered s plan.earlyPredicate inputs)
    (bound : plan.Bound s) {pool : List PendingJoin} {output : JoinedTuples}
    (hpool : plan.joins.mapM (PendingJoin.ofClause inputs) = .ok pool)
    (executed : JoinInput.Executed inputs pool output) (hsingle : inputs.length ≤ 1)
    {σ : Choice (Nat × Row)} (hσ : σ ∈ plan.choices s plan.earlyPredicate output) :
    plan.selects s σ = true := by
  unfold selects
  cases hselection : plan.selection with
  | none => rfl
  | some e =>
    obtain ⟨c, hc, rfl⟩ := List.mem_map.mp hσ
    have hvalid := valid_of_executed executed c hc
    -- the choice takes a row of the only table
    obtain ⟨position, hposition, hfilled⟩ : ∃ position ∈ output.order, c position ≠ none := by
      obtain ⟨used, left, choices, grown, -, hchoices⟩ := executed.grown
      rw [hchoices] at hc
      exact grown.inhabited c (List.mem_filter.mp hc).1
    obtain ⟨index, hindex⟩ := Option.ne_none_iff_exists'.mp hfilled
    have hlt : position < inputs.length := by
      rw [executed.covers.mem_iff, JoinInput.mem_positions] at hposition
      exact hposition
    obtain rfl : position = 0 := by omega
    obtain ⟨b, hb, hentry, gathers⟩ := h.at_position hlt
    have hearly := earlyPredicate_of_single hpool executed hsingle b.table
    rw [hselection] at hearly
    have hkept : (s.kept (some e) b.table).getD index (0, []) ∈ s.kept (some e) b.table := by
      have := List.mem_range.mp (hvalid 0 index hindex)
      rw [← gathers.length_eq, hearly] at this
      simp [this]
    have hrows : FromEntry.shownRows plan.entries (c.through (behind s plan plan.earlyPredicate)) =
        [.stored (b.table.named ((s.kept (some e) b.table).getD index (0, [])))] := by
      have hone : plan.entries.length = 1 := by
        rw [h.length_eq]
        omega
      simp [FromEntry.shownRows, hone, hentry, Choice.through, hindex, behind, hearly,
        FromEntry.shown]
    have hresolved : e.ResolvedIn plan.tables :=
      bound.resolved e (List.mem_append_left _ (by simp [hselection]))
    exact bound.accepts_of_survives hresolved hrows
      (Result.holds_iff.mp (List.mem_filter.mp hkept).2)

/-- The engine applies WHERE to the joined tuples unless there is one table alone. -/
lemma joinCandidates_eq_ok {watch : Watch} {interval : Nat} {final : JoinedTuples}
    (h : plan.joinCandidates watch interval inputs = .ok final) :
    ∃ output, joinTables inputs watch interval plan.joins = .ok output ∧
      ((∃ e, plan.selection = some e ∧ (output.keepAccepted inputs e).result = .ok final) ∨
        (final = output ∧ (plan.selection = none ∨ inputs.length ≤ 1))) := by
  unfold joinCandidates at h
  obtain ⟨output, hjoin, h⟩ := Result.bind_eq_ok.mp h
  refine ⟨output, hjoin, ?_⟩
  dsimp only at h
  split at h
  · rename_i e he
    split at h
    · obtain ⟨selected, hselected, h⟩ := Result.bind_eq_ok.mp h
      obtain ⟨_, -, h⟩ := Result.bind_eq_ok.mp h
      obtain rfl := Result.pure_eq_ok.mp h
      exact Or.inl ⟨e, he, hselected⟩
    · rename_i hsingle
      obtain ⟨kept, hkept, h⟩ := Result.bind_eq_ok.mp h
      obtain rfl := Except.ok.inj hkept
      obtain ⟨_, -, h⟩ := Result.bind_eq_ok.mp h
      exact Or.inr ⟨(Result.pure_eq_ok.mp h).symm, Or.inr (Nat.not_lt.mp hsingle)⟩
  · rename_i hnone
    obtain ⟨kept, hkept, h⟩ := Result.bind_eq_ok.mp h
    obtain rfl := Except.ok.inj hkept
    obtain ⟨_, -, h⟩ := Result.bind_eq_ok.mp h
    exact Or.inr ⟨(Result.pure_eq_ok.mp h).symm, Or.inl hnone⟩

/-- What the engine keeps of the joined candidates are the choices that WHERE accepts. -/
lemma Gathered.choices_joinCandidates (h : plan.Gathered s plan.earlyPredicate inputs)
    (bound : plan.Bound s) (sound : s.Sound) (notReal : plan.KeysNotReal) {watch : Watch}
    {interval : Nat} {final : JoinedTuples}
    (hfinal : plan.joinCandidates watch interval inputs = .ok final) :
    ∃ pool output, plan.joins.mapM (PendingJoin.ofClause inputs) = .ok pool ∧
      JoinInput.Executed inputs pool output ∧ final.order = output.order ∧
      (∀ tuple ∈ final.tuples, tuple ∈ output.tuples) ∧
      plan.choices s plan.earlyPredicate final =
        (plan.choices s plan.earlyPredicate output).filter (plan.selects s) := by
  obtain ⟨output, hjoin, hfinal⟩ := joinCandidates_eq_ok hfinal
  obtain ⟨pool, hpool, executed⟩ := JoinInput.executed_of_joinTables (h.namesApart bound)
    (h.clausePlain bound sound notReal) hjoin
  refine ⟨pool, output, hpool, executed, ?_⟩
  rcases hfinal with ⟨e, he, hkept⟩ | ⟨rfl, hnone | hsingle⟩
  · exact h.choices_keepAccepted bound executed he hkept
  · refine ⟨rfl, fun _ htuple => htuple, (List.filter_eq_self.mpr fun σ _ => ?_).symm⟩
    rw [selects, hnone]
    rfl
  · refine ⟨rfl, fun _ htuple => htuple, (List.filter_eq_self.mpr fun σ hσ => ?_).symm⟩
    exact h.selects_of_single bound hpool executed hsingle hσ

end RelQuery.Plan

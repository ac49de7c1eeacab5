import RelQuery.Proofs.Join.Sides

/-!
# Joins that are refused

A join is refused as unsupported for the shape of one of its conditions or for an outer clause that
closes a cycle.  The walk decides which clauses close a cycle independently of the numbers of rows,
so only the side from which a clause is seen depends on the data.  Hence clauses that equate no
column of their own tables with a column of a third one are refused for all contents of the tables
or for none.
-/

namespace RelQuery

open Result

/-! ## Clauses by the names of their tables -/

/-- The folded reference name, by which the entry is found. -/
def FromEntry.key (entry : FromEntry) : List Char :=
  Name.fold entry.referenceName

namespace JoinClause

/-- The tables of the clause by their names. -/
def ends (clause : JoinClause) : List Char × List Char :=
  (clause.left.key, clause.right.key)

/-- Clauses declared before it link the two tables of the clause already. -/
def Closes (before : List JoinClause) (clause : JoinClause) : Prop :=
  Linked (before.map ends) clause.left.key clause.right.key

end JoinClause

namespace JoinInput

variable {tables tables' : List JoinInput} {pending : PendingJoin}

/-! ## Names and positions -/

section Positions

variable {clauses : List JoinClause} {pool : List PendingJoin}

/-- The position of the first table with a folded name. -/
def positionOf (tables : List JoinInput) (key : List Char) : Nat :=
  (tables.findIdx? fun t => t.table.key == key).getD 0

/-- A reference means the first table with its folded name. -/
lemma positionOf_eq {ref : FromEntry} {position : Nat} (h : indexOf tables ref = .ok position) :
    positionOf tables ref.key = position := by
  unfold indexOf at h
  split at h
  · rename_i found hfound
    obtain rfl := Except.ok.inj h
    replace hfound : (tables.findIdx? fun t => t.table.key == ref.key) = some found := hfound
    rw [positionOf, hfound]
    rfl
  · simp at h

/-- The clauses of a pool have the positions of their tables. -/
lemma places_of_pool (hpool : clauses.mapM (PendingJoin.ofClause tables) = .ok pool) :
    ∀ pending ∈ pool, Places tables pending := by
  intro pending hpending
  obtain ⟨clause, -, hof⟩ := source_of_mem_of_mapM hpool hpending
  obtain ⟨hleft, hright, rfl⟩ := ofClause_eq_ok hof
  obtain ⟨hleftLt, hleftSame⟩ := indexOf_eq_ok hleft
  obtain ⟨hrightLt, hrightSame⟩ := indexOf_eq_ok hright
  exact ⟨hleftLt, hrightLt, hleftSame, hrightSame⟩

/-- The clauses of a pool are the declared ones in their order. -/
lemma map_clause_of_pool (hpool : clauses.mapM (PendingJoin.ofClause tables) = .ok pool) :
    pool.map PendingJoin.clause = clauses := by
  refine List.forall₂_eq_eq_eq ▸ List.forall₂_map_left_iff.mpr ?_
  exact (mapM_eq_ok.mp hpool).flip.imp fun pending clause hof => (ofClause_eq_ok hof).2.2

/-- A clause that closes a cycle by the names of the tables closes it by their positions. -/
lemma linked_of_closes (hpool : clauses.mapM (PendingJoin.ofClause tables) = .ok pool)
    {earlier later : List PendingJoin} {pending : PendingJoin}
    (hsplit : pool = earlier ++ pending :: later)
    (closes : pending.clause.Closes (earlier.map PendingJoin.clause)) :
    Linked (earlier.map PendingJoin.ends) pending.left pending.right := by
  have hends : ∀ link ∈ pool, positionOf tables link.clause.left.key = link.left ∧
      positionOf tables link.clause.right.key = link.right := by
    intro link hlink
    obtain ⟨clause, -, hof⟩ := source_of_mem_of_mapM hpool hlink
    obtain ⟨hleft, hright, rfl⟩ := ofClause_eq_ok hof
    exact ⟨positionOf_eq hleft, positionOf_eq hright⟩
  obtain ⟨hleft, hright⟩ := hends pending (by simp [hsplit])
  rw [← hleft, ← hright]
  refine closes.map (positionOf tables) fun x y hmem => ?_
  rw [List.map_map] at hmem
  obtain ⟨link, hlink, hxy⟩ := List.mem_map.mp hmem
  obtain ⟨rfl, rfl⟩ := Prod.mk.inj hxy
  obtain ⟨hl, hr⟩ := hends link (by simp [hsplit, hlink])
  rw [hl, hr]
  exact List.mem_map_of_mem hlink

end Positions

/-- What the references mean depends on the entries alone. -/
lemma ofClause_eq_of_tables (same : tables.map table = tables'.map table) (clause : JoinClause) :
    PendingJoin.ofClause tables clause = PendingJoin.ofClause tables' clause := by
  have hindex (ref : FromEntry) : indexOf tables ref = indexOf tables' ref := by
    have hfind : (tables.findIdx? fun t => t.table.same ref) =
        tables'.findIdx? fun t => t.table.same ref := by
      have h := congrArg (List.findIdx? fun entry : FromEntry => entry.same ref) same
      rwa [List.findIdx?_map, List.findIdx?_map] at h
    rw [indexOf, indexOf, hfind]
  rw [PendingJoin.ofClause, PendingJoin.ofClause, hindex, hindex]

/-- The tables at a position have the same entry. -/
lemma table_atPosition_of_tables (same : tables.map table = tables'.map table) (position : Nat) :
    (atPosition tables position).table = (atPosition tables' position).table := by
  have h := congrArg (List.getD · position vacant.table) same
  rwa [List.getD_map, List.getD_map] at h

/-- Whether the names of the tables differ depends on the entries alone. -/
lemma NamesApart.of_tables (same : tables.map table = tables'.map table)
    (apart : NamesApart tables') : NamesApart tables := by
  have h : (tables'.map table).Pairwise fun a b =>
      Name.same a.referenceName b.referenceName = false := List.pairwise_map.mpr apart
  rw [← same] at h
  exact List.pairwise_map.mp h

/-! ## Runs -/

/-- The clause was used as a step, and its condition was accepted. -/
def Taken (tables : List JoinInput) (pending : PendingJoin) : Prop :=
  ∃ order, pending.reaches order = true ∧ (∀ position ∈ order, position < tables.length) ∧
    (pending.clause.kind ≠ .cross → ∀ on, pending.clause.on = some on → ∃ key,
      EqualityKey.ofCondition tables order (pending.oriented order).1 on = .ok key)

/-- A clause that is turned around crosses when it does. -/
lemma kind_oriented_eq_cross {order : List Nat} :
    (pending.oriented order).2.kind = .cross ↔ pending.clause.kind = .cross := by
  unfold PendingJoin.oriented
  split
  · rfl
  · rw [JoinClause.turned]
    cases pending.clause.kind <;> simp [JoinKind.reversed]

/-- A step that succeeds has used its clause. -/
lemma taken_of_joinStep {output : JoinedTuples}
    (inside : ∀ position ∈ output.order, position < tables.length)
    (hreaches : pending.reaches output.order = true) {watch : Watch} {interval : Nat}
    {joined : List Tuple} (h : joinStep tables watch interval (pending.oriented output.order).1
      (pending.oriented output.order).2 output = .ok joined) : Taken tables pending := by
  obtain ⟨-, -, -, -, hsame⟩ := oriented_of_reaches hreaches
  refine ⟨output.order, hreaches, inside, fun hkind on hon => ?_⟩
  unfold joinStep at h
  split at h
  · rename_i hcross
    exact absurd (kind_oriented_eq_cross.mp hcross) hkind
  · rw [hsame, hon] at h
    obtain ⟨key, hkey, -⟩ := bind_eq_ok.mp h
    exact ⟨key, hkey⟩

/-- A step is refused for its condition. -/
lemma refused_of_joinStep {watch : Watch} {interval newTable : Nat} {clause : JoinClause}
    {output : JoinedTuples} {cause : UnsupportedJoin}
    (h : joinStep tables watch interval newTable clause output =
      .error (.unsupportedJoin cause)) :
    clause.kind ≠ .cross ∧ ∃ on, clause.on = some on ∧
      EqualityKey.ofCondition tables output.order newTable on =
        .error (.unsupportedJoin cause) := by
  unfold joinStep at h
  split at h
  · exact absurd h (crossStep_ne_error rfl _ _ _ _ _ _)
  · rename_i kind hcross
    refine ⟨fun hkind => hcross hkind, ?_⟩
    split at h
    · simp at h
    · rename_i on hon
      refine ⟨on, hon, ?_⟩
      by_contra hkey
      exact bind_ne_error hkey (fun key _ => matchStep_ne_error rfl _ _ _ _ _ _ _) h

/-- A walk is underway and stands to its pool as the steps that succeeded left it. -/
structure Standing (tables : List JoinInput) (pool left : List PendingJoin)
    (output : JoinedTuples) : Prop where
  underway : Underway tables pool left output
  stands : PendingJoin.Stands (Taken tables) output.order [] pool left

section Standing

variable {pool left : List PendingJoin} {output : JoinedTuples} {watch : Watch} {interval : Nat}
  {cause : UnsupportedJoin}

/-- The walk stands at its start. -/
lemma standing_start {start : Nat} (hstart : start < tables.length) (pool : List PendingJoin) :
    Standing tables pool pool (startOutput tables start) where
  underway := underway_start hstart pool
  stands := .start (Taken tables) start [] pool

/-- A step keeps the walk standing. -/
lemma Standing.step (standing : Standing tables pool left output)
    (known : ∀ link ∈ pool, link.left < tables.length ∧ link.right < tables.length)
    (hfound : left.find? (·.reaches output.order) = some pending) {joined : List Tuple}
    (h : joinStep tables watch interval (pending.oriented output.order).1
      (pending.oriented output.order).2 output = .ok joined) :
    Standing tables pool (left.eraseP (·.reaches output.order))
      ⟨output.order ++ [(pending.oriented output.order).1], joined⟩ where
  underway := standing.underway.step known hfound h
  stands := standing.stands.step (fun _ hmem => absurd hmem List.not_mem_nil) hfound
    (taken_of_joinStep standing.underway.inside (perm_of_find? hfound).1 h)

/-- A walk is refused at one of its steps. -/
lemma Standing.exists_refused (standing : Standing tables pool left output)
    (known : ∀ link ∈ pool, link.left < tables.length ∧ link.right < tables.length)
    {remaining : Nat}
    (h : walk tables watch interval remaining left output = .error (.unsupportedJoin cause)) :
    ∃ left output pending, Standing tables pool left output ∧
      left.find? (·.reaches output.order) = some pending ∧
      joinStep tables watch interval (pending.oriented output.order).1
        (pending.oriented output.order).2 output = .error (.unsupportedJoin cause) := by
  induction remaining generalizing left output with
  | zero => simp [RelQuery.walk] at h
  | succ remaining ih =>
    by_contra hnone
    push Not at hnone
    refine absurd h ?_
    rw [RelQuery.walk]
    refine bind_ne_error ((runtimeOnly_poll watch _).ne_error rfl) fun _ _ => ?_
    split
    · simp
    · rename_i pending hfound
      refine bind_ne_error (hnone _ _ _ standing hfound) fun joined hjoined hrest => ?_
      obtain ⟨left, output, pending, hstanding, hpending, hstep⟩ :=
        ih (standing.step known hfound hjoined) hrest
      exact hnone _ _ _ hstanding hpending hstep

/-- A clause left over is refused only if it is outer. -/
lemma closeCycle_ne_error {order : List Nat} {tuples : List Tuple} {clause : JoinClause}
    (inner : clause.kind.isOuter = false) :
    closeCycle tables order tuples clause ≠ .error (.unsupportedJoin cause) := by
  rw [closeCycle, if_neg (by simp [inner])]
  split
  · exact filterResult_ne_error fun tuple _ => acceptsTuple_ne_error rfl _ _ _
  · split <;> simp

/-- Clauses left over are refused only if one of them is outer. -/
lemma exists_outer_of_closeCycles {order : List Nat} {left : List PendingJoin}
    {tuples : List Tuple}
    (h : left.foldlM (fun tuples pending => closeCycle tables order tuples pending.clause) tuples =
      .error (.unsupportedJoin cause)) : ∃ pending ∈ left, pending.clause.kind.isOuter = true := by
  by_contra hinner
  push Not at hinner
  exact foldlM_ne_error (R := fun _ => True) trivial
    (fun _ _ pending hpending => closeCycle_ne_error (by simpa using hinner pending hpending))
    (fun _ _ _ _ _ _ => trivial) h

/-- A walk that ended stands with all tables joined. -/
lemma standing_of_walk {start : Nat} (hstart : start < tables.length)
    (known : ∀ link ∈ pool, link.left < tables.length ∧ link.right < tables.length)
    {leftover : List PendingJoin} {walked : JoinedTuples}
    (h : walk tables watch interval (tables.length - 1) pool (startOutput tables start) =
      .ok (leftover, walked)) :
    Standing tables pool leftover walked ∧
      ∀ position < tables.length, position ∈ walked.order := by
  obtain ⟨standing, hlength⟩ := walk_induction (P := Standing tables pool)
    (fun _ _ _ _ standing hfound hjoined => standing.step known hfound hjoined)
    (standing_start hstart pool) h
  refine ⟨standing, fun position hposition => ?_⟩
  have hperm := standing.underway.perm_range (by
    rw [hlength, startOutput, List.length_singleton]
    omega)
  exact hperm.mem_iff.mpr (List.mem_range.mpr hposition)

/-- A join is refused at a step that no earlier clause makes superfluous, or for an outer clause
whose tables earlier clauses link. -/
lemma exists_refused_of_joinTables {clauses : List JoinClause}
    (h : joinTables tables watch interval clauses = .error (.unsupportedJoin cause))
    (hpool : clauses.mapM (PendingJoin.ofClause tables) = .ok pool) :
    ∃ earlier pending later, pool = earlier ++ pending :: later ∧
      ((¬ Linked (earlier.map PendingJoin.ends) pending.left pending.right ∧
          pending.clause.kind ≠ .cross ∧ ∃ order on, pending.reaches order = true ∧
            pending.clause.on = some on ∧
            EqualityKey.ofCondition tables order (pending.oriented order).1 on =
              .error (.unsupportedJoin cause)) ∨
        (Linked (earlier.map PendingJoin.ends) pending.left pending.right ∧
          pending.clause.kind.isOuter = true)) := by
  have known := known_of_pool hpool
  unfold joinTables at h
  split at h
  · simp at h
  rename_i start hstart
  have hlt : start < tables.length := (List.findIdx?_eq_some_iff_getElem.mp hstart).1
  rw [hpool] at h
  cases hwalk : walk tables watch interval (tables.length - 1) pool (startOutput tables start) with
  | error error =>
    simp only [bind, Except.bind, hwalk] at h
    rw [Except.error.inj h] at hwalk
    obtain ⟨left, output, pending, standing, hfound, hstep⟩ :=
      (standing_start hlt pool).exists_refused known hwalk
    obtain ⟨hkind, on, hon, hrefused⟩ := refused_of_joinStep hstep
    obtain ⟨hreaches, -⟩ := perm_of_find? hfound
    obtain ⟨-, -, -, -, hsame⟩ := oriented_of_reaches hreaches
    obtain ⟨earlier, later, hsplit, unlinked⟩ :=
      standing.stands.exists_of_find? (fun _ hmem => absurd hmem List.not_mem_nil) hfound
    exact ⟨earlier, pending, later, hsplit, Or.inl ⟨unlinked, mt kind_oriented_eq_cross.mpr hkind,
      output.order, on, hreaches, hsame ▸ hon, hrefused⟩⟩
  | ok reached =>
    obtain ⟨leftover, walked⟩ := reached
    obtain ⟨standing, hall⟩ := standing_of_walk hlt known hwalk
    simp only [bind, Except.bind, hwalk] at h
    obtain ⟨pending, hpending, houter⟩ : ∃ pending ∈ leftover,
        pending.clause.kind.isOuter = true := by
      split at h
      · rename_i error herror
        rw [Except.error.inj h] at herror
        exact exists_outer_of_closeCycles herror
      · simp [pure, Except.pure] at h
    have hmem := standing.underway.pending hpending
    obtain ⟨earlier, later, hsplit, linked⟩ := standing.stands.exists_of_mem hpending
      (hall _ (known pending hmem).1) (hall _ (known pending hmem).2)
    exact ⟨earlier, pending, later, hsplit, Or.inr ⟨linked, houter⟩⟩

/-- No two tables of a join that succeeds have the same name: no clause leads to the second one. -/
lemma apart_of_joinTables {clauses : List JoinClause}
    (h : joinTables tables watch interval clauses = .ok output) : NamesApart tables := by
  obtain ⟨start, pool, left, walked, -, hpool, reached, hperm, -, -⟩ :=
    exists_reached_of_joinTables h
  refine List.pairwise_iff_getElem.mpr fun first second hfirst hsecond hlt => ?_
  by_contra hsame
  have hat {position : Nat} (h : position < tables.length) :
      atPosition tables position = tables[position] := by simp [atPosition, h]
  rw [← hat hfirst, ← hat hsecond] at hsame
  replace hsame : Name.same (atPosition tables first).referenceName
      (atPosition tables second).referenceName = true := by simpa using hsame
  have hjoined {position : Nat} (h : position < tables.length) : position ∈ walked.order :=
    hperm.mem_iff.mpr (List.mem_range.mpr h)
  obtain ⟨pending, hpending, hreaches⟩ := reached.linked [second]
    ⟨second, hjoined hsecond, List.mem_singleton.mpr rfl⟩
    ⟨first, hjoined hfirst, fun hmem => by
      rw [List.mem_singleton.mp hmem] at hlt
      exact Nat.lt_irrefl _ hlt⟩
  -- a reference with that name means the first of the two tables
  have hindex (ref : FromEntry) (href : indexOf tables ref = .ok second) : False := by
    unfold indexOf at href
    split at href
    · rename_i found hfound
      obtain rfl := Except.ok.inj href
      obtain ⟨hlt', hname, hbefore⟩ := List.findIdx?_eq_some_iff_getElem.mp hfound
      refine hbefore first hlt (Name.same_trans ?_ hname)
      rwa [hat hfirst, hat hsecond] at hsame
    · simp at href
  obtain ⟨clause, -, hof⟩ := source_of_mem_of_mapM hpool hpending
  obtain ⟨hleft, hright, -⟩ := ofClause_eq_ok hof
  have hone : ¬(pending.left = second ↔ pending.right = second) := by
    simpa [PendingJoin.reaches] using hreaches
  by_cases hend : pending.left = second
  · exact hindex _ (hend ▸ hleft)
  · refine hindex clause.right ?_
    have : pending.right = second := by
      by_contra hright
      exact hone (iff_of_false hend hright)
    rwa [this] at hright

/-- A join that succeeds has used every clause whose tables earlier clauses do not link, and has no
outer clause among the others. -/
lemma taken_or_inner_of_joinTables {clauses : List JoinClause}
    (h : joinTables tables watch interval clauses = .ok output)
    (hpool : clauses.mapM (PendingJoin.ofClause tables) = .ok pool)
    {earlier later : List PendingJoin} (hsplit : pool = earlier ++ pending :: later) :
    (¬ Linked (earlier.map PendingJoin.ends) pending.left pending.right ∧ Taken tables pending) ∨
      (Linked (earlier.map PendingJoin.ends) pending.left pending.right ∧
        pending.clause.kind.isOuter = false) := by
  have apart := apart_of_joinTables h
  obtain ⟨start, pool', leftover, walked, -, hlt, hpool', hwalk, hkept, -⟩ := joinTables_eq_ok h
  obtain rfl : pool' = pool := Except.ok.inj (hpool'.symm.trans hpool)
  have known := known_of_pool hpool
  obtain ⟨standing, hall⟩ := standing_of_walk hlt known hwalk
  have hmem : pending ∈ pool' := by simp [hsplit]
  obtain ⟨hleft, hright⟩ := known pending hmem
  have stands := standing.stands
  rw [hsplit] at stands
  refine (stands.used_or_left (hall _ hleft) (hall _ hright)).imp_right fun ⟨linked, hpending⟩ => ?_
  refine ⟨linked, ?_⟩
  obtain ⟨hinner, -⟩ := closeCycles_eq_ok apart standing.underway.nodup
    (fun position hposition => mem_positions.mpr (standing.underway.inside position hposition))
    (fun tuple htuple => (standing.underway.fits tuple htuple).length_eq.symm) hkept
  exact hinner pending hpending

end Standing

/-- **Acceptance does not depend on the data.**  A join that is refused as unsupported for one
content of its tables succeeds for no other, if no clause that closes no cycle equates a column of
one of its tables with a column of a third table. -/
theorem joinTables_unsupported {tables tables' : List JoinInput} {clauses : List JoinClause}
    {watch watch' : Watch} {interval interval' : Nat} {cause : UnsupportedJoin}
    (same : tables.map table = tables'.map table)
    (keeps : ∀ before clause after, clauses = before ++ clause :: after → clause.kind ≠ .cross →
      ¬ clause.Closes before → clause.KeepsToItself)
    (refused : joinTables tables watch interval clauses = .error (.unsupportedJoin cause)) :
    ∀ output, joinTables tables' watch' interval' clauses ≠ .ok output := by
  intro output accepted
  obtain ⟨-, pool, -, -, -, -, hpool', -, -, -⟩ := joinTables_eq_ok accepted
  have hpool : clauses.mapM (PendingJoin.ofClause tables) = .ok pool := by
    rw [← hpool']
    exact mapM_congr fun clause _ => ofClause_eq_of_tables same clause
  obtain ⟨earlier, pending, later, hsplit, hrefused⟩ := exists_refused_of_joinTables refused hpool
  obtain ⟨unlinked, hkind, order, on, hreaches, hon, hkey⟩ | ⟨linked, houter⟩ := hrefused
  · obtain ⟨-, taken⟩ | ⟨linked, -⟩ := taken_or_inner_of_joinTables accepted hpool' hsplit
    · obtain ⟨order', hreaches', inside', haccepted⟩ := taken
      obtain ⟨key, hkey'⟩ := haccepted hkind on hon
      have hmem : pending ∈ pool := by simp [hsplit]
      have hclauses : clauses = earlier.map PendingJoin.clause ++
          pending.clause :: later.map PendingJoin.clause := by
        rw [← map_clause_of_pool hpool, hsplit, List.map_append, List.map_cons]
      have hkeeps := keeps _ pending.clause _ hclauses hkind
        fun closes => unlinked (linked_of_closes hpool hsplit closes)
      have apart := apart_of_joinTables accepted
      have across := equatesAcross_of_accepted apart (places_of_pool hpool' pending hmem) hkeeps
        hon inside' hreaches' hkey'
      have hname (position : Nat) : (atPosition tables' position).referenceName =
          (atPosition tables position).referenceName := by
        rw [referenceName, referenceName, table_atPosition_of_tables same]
      rw [hname, hname] at across
      exact not_refused_of_equatesAcross (apart.of_tables same)
        (places_of_pool hpool pending hmem) across hreaches cause hkey
    · exact unlinked linked
  · obtain ⟨unlinked, -⟩ | ⟨-, hinner⟩ := taken_or_inner_of_joinTables accepted hpool' hsplit
    · exact unlinked linked
    · rw [hinner] at houter
      exact absurd houter (by decide)

/-- A condition on the keys of the two tables of its clause keeps to itself. -/
lemma keepsToItself_keyClause (kind : JoinKind) (left right : String) :
    (keyClause kind left right).KeepsToItself := by
  intro on l r hon hequated
  obtain rfl := Option.some.inj hon
  obtain ⟨rfl, rfl⟩ := Prod.mk.inj (Option.some.inj hequated)
  exact iff_of_true (Or.inl (Name.same_refl left)) (Or.inr (Name.same_refl right))

/-- An outer clause that closes a triangle is refused from whichever table the walk starts. -/
theorem joinTables_unsupported_triangle :
    joinTables [keyTable "a" [1], keyTable "b" [1, 2], keyTable "c" [1, 2, 3]] .never 1
        [keyClause .inner "a" "b", keyClause .inner "b" "c", keyClause .left "c" "a"] =
      .error (.unsupportedJoin (.cycle .left ⟨"c", none⟩ ⟨"a", none⟩)) ∧
    ∀ output, joinTables [keyTable "a" [1, 2, 3], keyTable "b" [1, 2], keyTable "c" [1]] .never 1
        [keyClause .inner "a" "b", keyClause .inner "b" "c", keyClause .left "c" "a"] ≠
      .ok output := by
  have refused : joinTables [keyTable "a" [1], keyTable "b" [1, 2], keyTable "c" [1, 2, 3]] .never 1
      [keyClause .inner "a" "b", keyClause .inner "b" "c", keyClause .left "c" "a"] =
        .error (.unsupportedJoin (.cycle .left ⟨"c", none⟩ ⟨"a", none⟩)) := by cbv
  have same : [keyTable "a" [1], keyTable "b" [1, 2], keyTable "c" [1, 2, 3]].map table =
      [keyTable "a" [1, 2, 3], keyTable "b" [1, 2], keyTable "c" [1]].map table := rfl
  refine ⟨refused, joinTables_unsupported same (fun before clause after hsplit _ _ => ?_) refused⟩
  have hmem : clause ∈ [keyClause .inner "a" "b", keyClause .inner "b" "c",
      keyClause .left "c" "a"] := by simp [hsplit]
  simp only [List.mem_cons, List.not_mem_nil, or_false] at hmem
  rcases hmem with rfl | rfl | rfl <;> exact keepsToItself_keyClause _ _ _

/-- The clause between `b` and `c` equates columns of `a` and `c`: it is accepted when it brings in
`c` and refused when it brings in `b`, which the numbers of rows decide. -/
theorem not_forall_joinTables_unsupported :
    ¬ ∀ (tables tables' : List JoinInput) (clauses : List JoinClause) (interval : Nat)
      (cause : UnsupportedJoin), tables.map table = tables'.map table →
        tables.map columns = tables'.map columns →
        joinTables tables .never interval clauses = .error (.unsupportedJoin cause) →
          ∀ output, joinTables tables' .never interval clauses ≠ .ok output := by
  intro h
  have refused : joinTables [keyTable "a" [1, 2, 3], keyTable "b" [1, 2], keyTable "c" [1]] .never 1
      [keyClause .inner "a" "b", { keyClause .inner "b" "c" with on := some (keysEqual "a" "c") }] =
        .error (.unsupportedJoin (.condition (keysEqual "a" "c"))) := by cbv
  have accepted :
      joinTables [keyTable "a" [1], keyTable "b" [1, 2], keyTable "c" [1, 2, 3]] .never 1
        [keyClause .inner "a" "b",
          { keyClause .inner "b" "c" with on := some (keysEqual "a" "c") }] =
        .ok ⟨[0, 1, 2], [[some 0, some 0, some 0]]⟩ := by cbv
  exact h [keyTable "a" [1, 2, 3], keyTable "b" [1, 2], keyTable "c" [1]]
    [keyTable "a" [1], keyTable "b" [1, 2], keyTable "c" [1, 2, 3]] _ _ _ rfl rfl refused _ accepted

end JoinInput

end RelQuery

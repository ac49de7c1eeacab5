import Mathlib
import RelQuery.Proofs.Join.Walked

/-!
# Chains of joins

In a chain every clause joins the next table of the list to an earlier one.  Read as declared, a
chain means the textbook joins one after the other, starting from the first table.  The executor
starts from the smallest table and turns the clauses that it meets from the other side, which keeps
the meaning of a chain whose clauses are compatible, and of any chain when the first table is the
smallest.  A chain that follows a LEFT clause by an INNER one is not compatible, and its result does
depend on the numbers of rows.
-/

namespace RelQuery

/-! ## Joins in declared order -/

/-- The clause turned so that it leads to the given table. -/
def PendingJoin.leadingTo (table : Nat) (link : PendingJoin) : PendingJoin :=
  if link.right = table then link else link.turned

namespace RowSpace

variable {ι : Type} {space : RowSpace ι} {pool used left : List PendingJoin}
  {choices : List (Choice ι)}

/-- The textbook joins with the next tables in turn. -/
def inTurn (space : RowSpace ι) : Nat → List PendingJoin → List (Choice ι) → List (Choice ι)
  | _, [], choices => choices
  | next, link :: rest, choices =>
    space.inTurn (next + 1) rest (space.join (link.leadingTo next) choices)

/-- The clauses join the next tables in turn, each to an earlier one. -/
def InTurn (next : Nat) (links : List PendingJoin) : Prop :=
  ∀ (i : Nat) (link : PendingJoin), links[i]? = some link →
    (link.left < next + i ∧ link.right = next + i) ∨ (link.right < next + i ∧ link.left = next + i)

/-- The first clause leads from an earlier table to the next one. -/
lemma InTurn.head {next : Nat} {link : PendingJoin} {rest : List PendingJoin}
    (h : InTurn next (link :: rest)) :
    link.leadingTo next ∈ link.faces ∧ (link.leadingTo next).right = next ∧
      (link.leadingTo next).left < next := by
  unfold PendingJoin.leadingTo
  rcases h 0 link rfl with ⟨hleft, hright⟩ | ⟨hright, hleft⟩
  · rw [if_pos (by simpa using hright)]
    exact ⟨link.mem_faces_self, by simpa using hright, by simpa using hleft⟩
  · rw [if_neg (by omega)]
    exact ⟨link.turned_mem_faces, by simpa using hleft, by simpa using hright⟩

/-- With all tables before the next one joined, the first clause reaches the next one and is
oriented towards it. -/
lemma InTurn.oriented_head {next : Nat} {link : PendingJoin} {rest : List PendingJoin}
    (h : InTurn next (link :: rest)) :
    link.reaches (List.range next) = true ∧
      link.oriented (List.range next) = (next, (link.leadingTo next).clause) := by
  unfold PendingJoin.reaches PendingJoin.oriented PendingJoin.leadingTo
  rcases h 0 link rfl with ⟨hleft, hright⟩ | ⟨hright, hleft⟩
  · simp [hright, show link.left < next by omega]
  · simp [hleft, show link.right < next by omega, show link.right ≠ next by omega,
      PendingJoin.turned]

/-- The other clauses join the tables after the next. -/
lemma InTurn.tail {next : Nat} {link : PendingJoin} {rest : List PendingJoin}
    (h : InTurn next (link :: rest)) : InTurn (next + 1) rest := by
  intro i other hother
  have := h (i + 1) other (by simpa using hother)
  rwa [show next + (i + 1) = next + 1 + i by omega] at this

/-- A local condition is settled once both of its tables are joined. -/
lemma Local.settled {joined : List Nat} {link : PendingJoin} (hlocal : space.Local link)
    (inside : link.left ∈ joined) (choices : List (Choice ι)) :
    space.Settled joined link choices := by
  intro c _ row _ τ hτ
  apply hlocal.congr
  · rw [← hτ, Choice.within_of_mem (List.mem_append_left _ inside)]
  · rw [← hτ, Choice.within_of_mem (by simp)]

/-- Joining the tables in turn is a growth. -/
lemma Grows.inTurn (h : space.Grows pool (List.range next) used left choices)
    (hturn : InTurn next left) (hlocal : ∀ link ∈ left, space.Local link) :
    ∃ used', space.Grows pool (List.range (next + left.length)) used' []
      (space.inTurn next left choices) := by
  induction left generalizing next used choices with
  | nil => exact ⟨used, h⟩
  | cons link rest ih =>
    obtain ⟨hface, hright, hleft⟩ := hturn.head
    have inside : (link.leadingTo next).left ∈ List.range next := List.mem_range.mpr hleft
    have outside : (link.leadingTo next).right ∉ List.range next := by simp [hright]
    have settled := ((hlocal link List.mem_cons_self).of_mem_faces hface).settled inside choices
    have grown := h.step (List.Perm.refl _) hface inside outside settled
    rw [hright, ← List.range_succ] at grown
    obtain ⟨used', grown'⟩ :=
      ih grown hturn.tail fun other hother => hlocal other (List.mem_cons_of_mem _ hother)
    refine ⟨used', ?_⟩
    rw [List.length_cons, ← Nat.add_assoc, Nat.add_right_comm]
    exact grown'

end RowSpace

namespace JoinInput

variable {tables : List JoinInput}

/-- The meaning of a chain as it is declared: the textbook joins of its clauses, one after the
other, starting from the rows of the first table. -/
def declared (tables : List JoinInput) (pool : List PendingJoin) : List (Choice Nat) :=
  (space tables).inTurn 1 pool ((space tables).single 0)

/-- The clause relates the table at a position to an earlier one: it is no cross join, it names the
two tables, and its condition equates a column of either, located and without reals. -/
def RelatesToEarlier (tables : List JoinInput) (position : Nat) (clause : JoinClause) : Prop :=
  ∃ earlier < position, ∃ on left right,
    clause.kind ≠ .cross ∧ clause.on = some on ∧ on.equated? = some (left, right) ∧
    KeysPlain tables on ∧
    ((clause.left.same (atPosition tables earlier).table = true ∧
        clause.right.same (atPosition tables position).table = true) ∨
      (clause.left.same (atPosition tables position).table = true ∧
        clause.right.same (atPosition tables earlier).table = true)) ∧
    ((left.qualifiedBy (atPosition tables earlier).referenceName = true ∧
        right.qualifiedBy (atPosition tables position).referenceName = true) ∨
      (left.qualifiedBy (atPosition tables position).referenceName = true ∧
        right.qualifiedBy (atPosition tables earlier).referenceName = true))

/-- There is one clause for every table but the first, and it relates the table to an earlier
one. -/
structure Chain (tables : List JoinInput) (clauses : List JoinClause) : Prop where
  length : tables.length = clauses.length + 1
  related : ∀ (i : Nat) (clause : JoinClause), clauses[i]? = some clause →
    RelatesToEarlier tables (i + 1) clause

/-- A clause that relates a table to an earlier one leads from one to the other, and its condition
equates columns of its own two tables. -/
lemma NamesApart.link_of_relates (apart : NamesApart tables) {position : Nat}
    (hposition : position < tables.length) {clause : JoinClause}
    (relates : RelatesToEarlier tables position clause) {link : PendingJoin}
    (hlink : PendingJoin.ofClause tables clause = .ok link) :
    ((link.left < position ∧ link.right = position) ∨
        (link.right < position ∧ link.left = position)) ∧
      RowSpace.EquatesOwn (fun table => (atPosition tables table).referenceName) link ∧
      ClausePlain tables link.clause := by
  obtain ⟨earlier, hearlier, on, l, r, -, hon, hequated, plain, hsides, hcolumns⟩ := relates
  obtain ⟨hleft, hright, rfl⟩ := ofClause_eq_ok hlink
  have hlt : earlier < tables.length := by omega
  refine ⟨?_, ⟨on, l, r, hon, hequated, (plain l r hequated).1, ?_⟩, ?_⟩
  · rcases hsides with ⟨hl, hr⟩ | ⟨hl, hr⟩
    · rw [apart.indexOf_eq hleft hlt hl, apart.indexOf_eq hright hposition hr]
      exact Or.inl ⟨hearlier, rfl⟩
    · rw [apart.indexOf_eq hleft hposition hl, apart.indexOf_eq hright hlt hr]
      exact Or.inr ⟨hearlier, rfl⟩
  · rcases hsides with ⟨hl, hr⟩ | ⟨hl, hr⟩
    · rw [apart.indexOf_eq hleft hlt hl, apart.indexOf_eq hright hposition hr]
      exact hcolumns
    · rw [apart.indexOf_eq hleft hposition hl, apart.indexOf_eq hright hlt hr]
      exact hcolumns.symm
  · intro _ on' hon'
    obtain rfl : on = on' := by simpa [hon] using hon'
    exact plain

/-- The pool of a chain: its clauses join the tables in turn, with local conditions on columns
without reals. -/
structure ChainPool (tables : List JoinInput) (pool : List PendingJoin) : Prop where
  inTurn : RowSpace.InTurn 1 pool
  length : pool.length + 1 = tables.length
  isLocal : ∀ link ∈ pool, (space tables).Local link
  plain : ∀ link ∈ pool, ClausePlain tables link.clause

/-- The clauses of a chain have such a pool. -/
lemma Chain.chainPool (apart : NamesApart tables) {clauses : List JoinClause}
    (chain : Chain tables clauses) {pool : List PendingJoin}
    (hpool : clauses.mapM (PendingJoin.ofClause tables) = .ok pool) : ChainPool tables pool := by
  have known := known_of_pool hpool
  -- every link comes from the clause at its position
  have facts : ∀ (i : Nat) (link : PendingJoin), pool[i]? = some link →
      ((link.left < i + 1 ∧ link.right = i + 1) ∨ (link.right < i + 1 ∧ link.left = i + 1)) ∧
        RowSpace.EquatesOwn (fun table => (atPosition tables table).referenceName) link ∧
        ClausePlain tables link.clause := by
    intro i link hlink
    obtain ⟨clause, hclause, hof⟩ := source_of_getElem?_of_mapM hpool hlink
    have hposition : i + 1 < tables.length := by
      obtain ⟨hlt, -⟩ := List.getElem?_eq_some_iff.mp hclause
      rw [chain.length]
      omega
    exact apart.link_of_relates hposition (chain.related i clause hclause) hof
  refine ⟨fun i link hlink => ?_, ?_, fun link hlink => ?_, fun link hlink => ?_⟩
  · simpa [Nat.add_comm 1 i] using (facts i link hlink).1
  · rw [length_of_mapM hpool, chain.length]
  · obtain ⟨i, hi⟩ := List.mem_iff_getElem?.mp hlink
    exact RowSpace.local_of_equatesOwn apart.named (known link hlink).1 (known link hlink).2
      (facts i link hi).2.1
  · obtain ⟨i, hi⟩ := List.mem_iff_getElem?.mp hlink
    exact (facts i link hi).2.2

/-- A walk whose next clauses lead to the next tables in turn follows them. -/
lemma walk_inTurn (apart : NamesApart tables) {watch : Watch} {interval : Nat} :
    ∀ {left : List PendingJoin} {next : Nat} (output : JoinedTuples), 0 < next →
      output.order = List.range next →
      (∀ tuple ∈ output.tuples, tuple.length = output.order.length) →
      RowSpace.InTurn next left → next + left.length = tables.length →
      (∀ link ∈ left, ClausePlain tables link.clause) →
      ∀ {leftover : List PendingJoin} {final : JoinedTuples},
        walk tables watch interval left.length left output = .ok (leftover, final) →
          leftover = [] ∧ final.choices = (space tables).inTurn next left output.choices := by
  intro left
  induction left with
  | nil =>
    intro next output _ _ _ _ _ _ leftover final h
    obtain ⟨rfl, rfl⟩ := Prod.mk.inj (Except.ok.inj h)
    exact ⟨rfl, rfl⟩
  | cons link rest ih =>
    intro next output hpos horder hlengths hturn hcount plain leftover final h
    rw [List.length_cons, walk] at h
    obtain ⟨-, -, h⟩ := Result.bind_eq_ok.mp h
    -- the step is along the first clause, to the next table
    obtain ⟨hreaches, horiented⟩ := horder ▸ hturn.oriented_head
    simp only [List.find?_cons_of_pos hreaches, List.eraseP_cons_of_pos hreaches, horiented] at h
    obtain ⟨joined, hjoined, h⟩ := Result.bind_eq_ok.mp h
    obtain ⟨hface, hright, hleft⟩ := hturn.head
    have hplain : ClausePlain tables (link.leadingTo next).clause :=
      PendingJoin.of_mem_faces hface ClausePlain.turned (plain link List.mem_cons_self)
    have placed : Placed tables output.order (link.leadingTo next).right output.tuples := by
      rw [List.length_cons] at hcount
      refine ⟨horder ▸ List.nodup_range, ?_, ?_, by omega, hlengths⟩
      · intro table htable
        rw [horder, List.mem_range] at htable
        rw [mem_positions]
        omega
      · rw [horder, hright]
        simp
    have joins : JoinsAs tables output.order (link.leadingTo next) output.tuples joined :=
      joinsAs_of_joinStep apart hplain placed (by rwa [hright])
    have hchoices := joins.choices
    have hlength := joins.lengths
    rw [hright] at hchoices hlength
    obtain ⟨rfl, hfinal⟩ := ih ⟨output.order ++ [next], joined⟩ (Nat.succ_pos next)
      (by rw [List.range_succ, horder]) hlength hturn.tail
      (by rw [List.length_cons] at hcount; omega)
      (fun other hother => plain other (List.mem_cons_of_mem _ hother)) h
    refine ⟨rfl, ?_⟩
    rw [hfinal, RowSpace.inTurn]
    congr 1

/-- The executor gives a chain its declared meaning, as a bag, when the first table is the smallest
or the clauses are compatible. -/
theorem joinTables_perm_declared (apart : NamesApart tables) {clauses : List JoinClause}
    (chain : Chain tables clauses) {watch : Watch} {interval : Nat} {output : JoinedTuples}
    (h : joinTables tables watch interval clauses = .ok output) :
    ∃ pool, clauses.mapM (PendingJoin.ofClause tables) = .ok pool ∧
      (smallest? tables = some 0 ∨ pool.Pairwise PendingJoin.Compatible →
        output.choices.Perm (declared tables pool)) := by
  have plain : ∀ clause ∈ clauses, ClausePlain tables clause := by
    intro clause hclause _ on hon
    obtain ⟨i, hi⟩ := List.mem_iff_getElem?.mp hclause
    obtain ⟨_, _, on', _, _, -, hon', -, hplain, -⟩ := chain.related i clause hi
    obtain rfl : on' = on := by simpa [hon'] using hon
    exact hplain
  obtain ⟨pool, hpool, executed⟩ := executed_of_joinTables apart plain h
  have chainPool := chain.chainPool apart hpool
  refine ⟨pool, hpool, ?_⟩
  rintro (hstart | hcompatible)
  · -- the walk follows the declared order, and no clause is left over
    unfold joinTables at h
    rw [hstart] at h
    obtain ⟨pool', hpool', h⟩ := Result.bind_eq_ok.mp h
    obtain rfl : pool = pool' := Except.ok.inj (hpool.symm.trans hpool')
    obtain ⟨⟨leftover, walked⟩, hwalk, h⟩ := Result.bind_eq_ok.mp h
    obtain ⟨kept, hkept, h⟩ := Result.bind_eq_ok.mp h
    obtain rfl := Result.pure_eq_ok.mp h
    rw [← chainPool.length, Nat.add_sub_cancel] at hwalk
    obtain ⟨rfl, hchoices⟩ := walk_inTurn apart (startOutput tables 0) Nat.one_pos rfl
      (by simp [startOutput]) chainPool.inTurn (by rw [← chainPool.length, Nat.add_comm])
      chainPool.plain hwalk
    obtain rfl := Except.ok.inj hkept
    have hsingle : (startOutput tables 0).choices = (space tables).single 0 := by
      unfold JoinedTuples.choices startOutput RowSpace.single
      rw [List.map_map]
      rfl
    rw [hsingle] at hchoices
    exact List.Perm.of_eq hchoices
  · -- both the walk and the declared order are growths of the same pool
    obtain ⟨used, left, choices, grown, closed, hchoices⟩ := executed.grown
    have start : (space tables).Grows pool (List.range 1) [] pool ((space tables).single 0) :=
      RowSpace.Grows.start 0
    obtain ⟨used', grown'⟩ := start.inTurn chainPool.inTurn chainPool.isLocal
    have hcovers : output.order.Perm (List.range (1 + pool.length)) := by
      rw [Nat.add_comm, chainPool.length]
      exact executed.covers
    have hperm := grown.perm_remaining grown' (nodup_rows tables) hcovers closed
      (by simp [RowSpace.Closed]) hcompatible fun link hlink _ => chainPool.isLocal link hlink
    rw [← hchoices] at hperm
    simpa [RowSpace.remaining, declared] using hperm

/-! ## Chains of small tables -/

/-- A table without reals holds none in any column. -/
lemma holdsNoReal_of_values {t : JoinInput}
    (h : ∀ row ∈ t.rows, ∀ value ∈ row.values, value.isReal = false) (ref : ColumnRef) :
    t.HoldsNoReal ref := by
  intro row hrow value hvalue
  obtain ⟨place, -, hplace⟩ := Result.bind_eq_ok'.mp hvalue
  exact h row hrow value (List.mem_of_getElem? (valueAt_candidate_eq_ok.mp hplace))

/-- A table named `a`, `b` or the like with one INTEGER column. -/
def keyTable (name : String) (keys : List Int64) : JoinInput where
  table := { name, label := none }
  columns := [{ name := "k", table := some name, columnType := some .integer, index := some 0 }]
  rows := keys.zipIdx.map fun key => ⟨key.2, [.integer key.1]⟩

/-- The condition that the columns of two such tables are equal. -/
def keysEqual (left right : String) : Expr :=
  .binary (.comparison .eq)
    (.column { name := "k", table := some left, columnType := some .integer, index := some 0 } none)
    (.column { name := "k", table := some right, columnType := some .integer, index := some 0 } none)
    none

/-- The clause with this condition. -/
def keyClause (kind : JoinKind) (left right : String) : JoinClause where
  left := { name := left, label := none }
  right := { name := right, label := none }
  kind := kind
  on := some (keysEqual left right)

/-- No such table holds a real. -/
lemma keysPlain_of_keyTables (tables : List JoinInput)
    (h : ∀ t ∈ tables, ∃ name keys, t = keyTable name keys) (left right : String) :
    KeysPlain tables (keysEqual left right) := by
  have hreal : ∀ t ∈ tables, ∀ ref, t.HoldsNoReal ref := by
    intro t ht
    obtain ⟨name, keys, rfl⟩ := h t ht
    refine holdsNoReal_of_values fun row hrow value hvalue => ?_
    obtain ⟨key, -, rfl⟩ := List.mem_map.mp hrow
    rw [List.mem_singleton.mp hvalue]
    rfl
  intro l r hequated
  obtain ⟨rfl, rfl⟩ := Prod.mk.inj (Option.some.inj hequated)
  exact ⟨⟨rfl, rfl⟩, fun t ht => ⟨hreal t ht _, hreal t ht _⟩⟩

/-- Three such tables that are chained by two clauses. -/
lemma chain_of_keyTables (kind kind' : JoinKind) (hkind : kind ≠ .cross) (hkind' : kind' ≠ .cross)
    (first second third : List Int64) :
    NamesApart [keyTable "a" first, keyTable "b" second, keyTable "c" third] ∧
      Chain [keyTable "a" first, keyTable "b" second, keyTable "c" third]
        [keyClause kind "a" "b", keyClause kind' "b" "c"] := by
  have ab : Name.same "a" "b" = false := by decide +kernel
  have ac : Name.same "a" "c" = false := by decide +kernel
  have bc : Name.same "b" "c" = false := by decide +kernel
  have plain := fun left right => keysPlain_of_keyTables
    [keyTable "a" first, keyTable "b" second, keyTable "c" third] (by
      intro t ht
      simp only [List.mem_cons, List.not_mem_nil, or_false] at ht
      rcases ht with rfl | rfl | rfl <;> exact ⟨_, _, rfl⟩) left right
  constructor
  · simp [NamesApart, referenceName, keyTable, FromEntry.referenceName, ab, ac, bc]
  · refine ⟨rfl, fun i clause hclause => ?_⟩
    rcases i with _ | _ | i
    · obtain rfl := Option.some.inj hclause
      refine ⟨0, by omega, _, _, _, hkind, rfl, rfl, plain "a" "b", Or.inl ?_, Or.inl ?_⟩
      · exact ⟨Name.same_refl "a", Name.same_refl "b"⟩
      · exact ⟨Name.same_refl "a", Name.same_refl "b"⟩
    · obtain rfl := Option.some.inj hclause
      refine ⟨1, by omega, _, _, _, hkind', rfl, rfl, plain "b" "c", Or.inl ?_, Or.inl ?_⟩
      · exact ⟨Name.same_refl "b", Name.same_refl "c"⟩
      · exact ⟨Name.same_refl "b", Name.same_refl "c"⟩
    · simp at hclause

/-- Compatible clauses with the smallest table last: the executor walks the chain backwards. -/
theorem joinTables_perm_declared_backwards : ∃ output pool,
    joinTables [keyTable "a" [1, 2], keyTable "b" [1, 3], keyTable "c" [3]] .never 1
      [keyClause .inner "a" "b", keyClause .left "b" "c"] = .ok output ∧
    output.order = [2, 1, 0] ∧
    output.choices.Perm
      (declared [keyTable "a" [1, 2], keyTable "b" [1, 3], keyTable "c" [3]] pool) := by
  have chained := chain_of_keyTables .inner .left (by decide) (by decide)
    [1, 2] [1, 3] [3]
  have ran : joinTables [keyTable "a" [1, 2], keyTable "b" [1, 3], keyTable "c" [3]] .never 1
      [keyClause .inner "a" "b", keyClause .left "b" "c"] =
        .ok ⟨[2, 1, 0], [[none, some 0, some 0]]⟩ := by cbv
  obtain ⟨pool, hpool, hperm⟩ := joinTables_perm_declared chained.1 chained.2 ran
  refine ⟨_, pool, ran, rfl, hperm (Or.inr ?_)⟩
  have : [keyClause .inner "a" "b", keyClause .left "b" "c"].mapM (PendingJoin.ofClause
      [keyTable "a" [1, 2], keyTable "b" [1, 3], keyTable "c" [3]]) =
        .ok [⟨0, 1, keyClause .inner "a" "b"⟩, ⟨1, 2, keyClause .left "b" "c"⟩] := by cbv
  rw [← Except.ok.inj (this.symm.trans hpool)]
  decide

/-- The meaning of a chain may depend on the numbers of rows: after a LEFT and an INNER clause an
empty last table leaves nothing, but the executor, which starts from it, ends with the row that the
LEFT clause keeps. -/
theorem not_forall_perm_declared : ¬∀ (tables : List JoinInput) (clauses : List JoinClause)
    (interval : Nat) (output : JoinedTuples), NamesApart tables → Chain tables clauses →
      joinTables tables .never interval clauses = .ok output →
        ∃ pool, clauses.mapM (PendingJoin.ofClause tables) = .ok pool ∧
          output.choices.Perm (declared tables pool) := by
  intro h
  have chained := chain_of_keyTables .left .inner (by decide) (by decide)
    [1] [1] []
  obtain ⟨pool, hpool, hperm⟩ := h _ _ 1 ⟨[2, 1, 0], [[none, none, some 0]]⟩ chained.1 chained.2
    (by cbv)
  have positions : [keyClause .left "a" "b", keyClause .inner "b" "c"].mapM (PendingJoin.ofClause
      [keyTable "a" [1], keyTable "b" [1], keyTable "c" []]) =
        .ok [⟨0, 1, keyClause .left "a" "b"⟩, ⟨1, 2, keyClause .inner "b" "c"⟩] := by cbv
  obtain rfl := Except.ok.inj (positions.symm.trans hpool)
  have hlength := hperm.length_eq
  have nothing : (declared [keyTable "a" [1], keyTable "b" [1], keyTable "c" []]
      [⟨0, 1, keyClause .left "a" "b"⟩, ⟨1, 2, keyClause .inner "b" "c"⟩]).length = 0 := by
    decide +kernel
  rw [nothing] at hlength
  exact absurd hlength (by decide)

/-- Compatibility is exact for two clauses in a row: where the executor gives the declared meaning
whatever the tables hold, the clauses are compatible. -/
theorem compatible_of_forall_perm {kind kind' : JoinKind} (hkind : kind ≠ .cross)
    (hkind' : kind' ≠ .cross)
    (h : ∀ (first second third : List Int64) (output : JoinedTuples),
      joinTables [keyTable "a" first, keyTable "b" second, keyTable "c" third] .never 1
        [keyClause kind "a" "b", keyClause kind' "b" "c"] = .ok output →
      output.choices.Perm (declared [keyTable "a" first, keyTable "b" second, keyTable "c" third]
        [⟨0, 1, keyClause kind "a" "b"⟩, ⟨1, 2, keyClause kind' "b" "c"⟩])) :
    PendingJoin.Compatible ⟨0, 1, keyClause kind "a" "b"⟩ ⟨1, 2, keyClause kind' "b" "c"⟩ := by
  by_contra hnot
  have count : ∀ first second third order tuples,
      joinTables [keyTable "a" first, keyTable "b" second, keyTable "c" third] .never 1
        [keyClause kind "a" "b", keyClause kind' "b" "c"] = .ok ⟨order, tuples⟩ →
      tuples.length = (declared [keyTable "a" first, keyTable "b" second, keyTable "c" third]
        [⟨0, 1, keyClause kind "a" "b"⟩, ⟨1, 2, keyClause kind' "b" "c"⟩]).length := by
    intro first second third order tuples ran
    rw [← (h first second third _ ran).length_eq, JoinedTuples.choices, List.length_map]
  -- an empty last table, or a last table whose only partners have no partner themselves
  have empty := count [1] [1] []
  have lonely := count [3, 3] [1, 1] [1]
  clear h count
  cases kind with
  | cross => exact hkind rfl
  | inner =>
    cases kind' with
    | cross => exact hkind' rfl
    | inner | left => exact hnot (by decide)
    | right | full => exact absurd (lonely [2, 1, 0] [] (by cbv)) (by decide +kernel)
  | left =>
    cases kind' with
    | cross => exact hkind' rfl
    | left => exact hnot (by decide)
    | inner | right =>
      exact absurd (empty [2, 1, 0] [[none, none, some 0]] (by cbv)) (by decide +kernel)
    | full =>
      exact absurd (lonely [2, 1, 0] [[none, none, some 0], [none, none, some 1]] (by cbv))
        (by decide +kernel)
  | right =>
    cases kind' with
    | cross => exact hkind' rfl
    | inner | left | right | full => exact hnot (by decide)
  | full =>
    cases kind' with
    | cross => exact hkind' rfl
    | left | full => exact hnot (by decide)
    | inner | right =>
      exact absurd (empty [2, 1, 0] [[none, none, some 0]] (by cbv)) (by decide +kernel)

end JoinInput

end RelQuery

import Mathlib
import RelQuery.Proofs.Engine.Reference

/-!
# Queries over two tables

Two tables with one clause that equates a column of either mean the textbook join of their stored
rows: the pairs with equal keys, and the unmatched rows of a preserved side, each once and with the
other table padded.  The engine comes to the same bag of rows whichever side the clause names first,
whichever table is the smaller one, and whatever WHERE has left out early.
-/

namespace RelQuery

/-! ## Textbook pairs -/

namespace JoinKind

section Pairs

variable {α β : Type} {kind : JoinKind} {matching : α → β → Bool} {lefts : List α}
  {rights : List β}

/-- The pairs that match. -/
def matchedPairs (matching : α → β → Bool) (lefts : List α) (rights : List β) :
    List (Option α × Option β) :=
  lefts.flatMap fun l => (rights.filter (matching l)).map fun r => (some l, some r)

/-- The unmatched members of the left side, when it is preserved. -/
def leftAlone (kind : JoinKind) (matching : α → β → Bool) (lefts : List α) (rights : List β) :
    List (Option α × Option β) :=
  if kind.keepsLeft then
    (lefts.filter fun l => !rights.any (matching l)).map fun l => (some l, none)
  else []

/-- The unmatched members of the right side, when it is preserved. -/
def rightAlone (kind : JoinKind) (matching : α → β → Bool) (lefts : List α) (rights : List β) :
    List (Option α × Option β) :=
  if kind.keepsRight then
    (rights.filter fun r => !lefts.any (matching · r)).map fun r => (none, some r)
  else []

/-- The pairs of a textbook join: those that match, and the unmatched members of a preserved side,
each once and alone. -/
def pairs (kind : JoinKind) (matching : α → β → Bool) (lefts : List α) (rights : List β) :
    List (Option α × Option β) :=
  matchedPairs matching lefts rights ++
    (kind.leftAlone matching lefts rights ++ kind.rightAlone matching lefts rights)

/-- The members of a pair that matches. -/
lemma mem_matchedPairs {p : Option α × Option β} : p ∈ matchedPairs matching lefts rights ↔
    ∃ l ∈ lefts, ∃ r ∈ rights, matching l r = true ∧ p = (some l, some r) := by
  unfold matchedPairs
  constructor
  · intro h
    obtain ⟨l, hl, h⟩ := List.mem_flatMap.mp h
    obtain ⟨r, hr, rfl⟩ := List.mem_map.mp h
    obtain ⟨hr, hmatching⟩ := List.mem_filter.mp hr
    exact ⟨l, hl, r, hr, hmatching, rfl⟩
  · rintro ⟨l, hl, r, hr, hmatching, rfl⟩
    exact List.mem_flatMap.mpr ⟨l, hl,
      List.mem_map.mpr ⟨r, List.mem_filter.mpr ⟨hr, hmatching⟩, rfl⟩⟩

/-- The unmatched left members. -/
lemma mem_leftAlone {p : Option α × Option β} : p ∈ kind.leftAlone matching lefts rights ↔
    ∃ l ∈ lefts, kind.keepsLeft = true ∧ (∀ r ∈ rights, matching l r = false) ∧
      p = (some l, none) := by
  unfold leftAlone
  constructor
  · intro h
    split at h
    · rename_i hkeeps
      obtain ⟨l, hl, rfl⟩ := List.mem_map.mp h
      obtain ⟨hl, hnone⟩ := List.mem_filter.mp hl
      exact ⟨l, hl, hkeeps, by simpa using hnone, rfl⟩
    · simp at h
  · rintro ⟨l, hl, hkeeps, hnone, rfl⟩
    rw [if_pos hkeeps]
    exact List.mem_map.mpr ⟨l, List.mem_filter.mpr ⟨hl, by simpa using hnone⟩, rfl⟩

/-- The unmatched right members. -/
lemma mem_rightAlone {p : Option α × Option β} : p ∈ kind.rightAlone matching lefts rights ↔
    ∃ r ∈ rights, kind.keepsRight = true ∧ (∀ l ∈ lefts, matching l r = false) ∧
      p = (none, some r) := by
  unfold rightAlone
  constructor
  · intro h
    split at h
    · rename_i hkeeps
      obtain ⟨r, hr, rfl⟩ := List.mem_map.mp h
      obtain ⟨hr, hnone⟩ := List.mem_filter.mp hr
      exact ⟨r, hr, hkeeps, by simpa using hnone, rfl⟩
    · simp at h
  · rintro ⟨r, hr, hkeeps, hnone, rfl⟩
    rw [if_pos hkeeps]
    exact List.mem_map.mpr ⟨r, List.mem_filter.mpr ⟨hr, by simpa using hnone⟩, rfl⟩

/-- A pair with both members is a match. -/
lemma mem_pairs_both {l : α} {r : β} : (some l, some r) ∈ kind.pairs matching lefts rights ↔
    l ∈ lefts ∧ r ∈ rights ∧ matching l r = true := by
  simp [pairs, mem_matchedPairs, mem_leftAlone, mem_rightAlone]

/-- A left member alone is unmatched and preserved. -/
lemma mem_pairs_left {l : α} : (some l, none) ∈ kind.pairs matching lefts rights ↔
    l ∈ lefts ∧ kind.keepsLeft = true ∧ ∀ r ∈ rights, matching l r = false := by
  simp [pairs, mem_matchedPairs, mem_leftAlone, mem_rightAlone]

/-- A right member alone is unmatched and preserved. -/
lemma mem_pairs_right {r : β} : (none, some r) ∈ kind.pairs matching lefts rights ↔
    r ∈ rights ∧ kind.keepsRight = true ∧ ∀ l ∈ lefts, matching l r = false := by
  simp [pairs, mem_matchedPairs, mem_leftAlone, mem_rightAlone]

/-- No pair is without members. -/
lemma not_mem_pairs_none : (none, none) ∉ kind.pairs matching lefts rights := by
  simp [pairs, mem_matchedPairs, mem_leftAlone, mem_rightAlone]

/-- The members of a pair come from the two sides. -/
lemma mem_of_mem_pairs {p : Option α × Option β} (h : p ∈ kind.pairs matching lefts rights) :
    (∀ l, p.1 = some l → l ∈ lefts) ∧ ∀ r, p.2 = some r → r ∈ rights := by
  rcases List.mem_append.mp h with h | h
  · obtain ⟨l, hl, r, hr, -, rfl⟩ := mem_matchedPairs.mp h
    simp [hl, hr]
  · rcases List.mem_append.mp h with h | h
    · obtain ⟨l, hl, -, -, rfl⟩ := mem_leftAlone.mp h
      simp [hl]
    · obtain ⟨r, hr, -, -, rfl⟩ := mem_rightAlone.mp h
      simp [hr]

/-- No pair occurs twice. -/
lemma nodup_pairs (hl : lefts.Nodup) (hr : rights.Nodup) :
    (kind.pairs matching lefts rights).Nodup := by
  have matched : (matchedPairs matching lefts rights).Nodup := by
    rw [matchedPairs, List.nodup_flatMap]
    refine ⟨fun l _ => (hr.filter _).map fun a b hab => by simpa using hab, hl.imp ?_⟩
    intro a b hab pair hpair hpair'
    obtain ⟨r, -, rfl⟩ := List.mem_map.mp hpair
    obtain ⟨r', -, heq⟩ := List.mem_map.mp hpair'
    exact hab (Option.some.inj (Prod.mk.inj heq).1).symm
  have left : (kind.leftAlone matching lefts rights).Nodup := by
    unfold leftAlone
    split
    · exact (hl.filter _).map fun a b hab => by simpa using hab
    · exact List.nodup_nil
  have right : (kind.rightAlone matching lefts rights).Nodup := by
    unfold rightAlone
    split
    · exact (hr.filter _).map fun a b hab => by simpa using hab
    · exact List.nodup_nil
  -- the three parts differ in the members that their pairs have
  refine matched.append (left.append right ?_) ?_
  · intro p hp hp'
    obtain ⟨l, -, -, -, rfl⟩ := mem_leftAlone.mp hp
    obtain ⟨r, -, -, -, heq⟩ := mem_rightAlone.mp hp'
    simp at heq
  · intro p hp hp'
    obtain ⟨l, -, r, -, -, rfl⟩ := mem_matchedPairs.mp hp
    rcases List.mem_append.mp hp' with hp' | hp'
    · obtain ⟨l', -, -, -, heq⟩ := mem_leftAlone.mp hp'
      simp at heq
    · obtain ⟨r', -, -, -, heq⟩ := mem_rightAlone.mp hp'
      simp at heq

end Pairs

end JoinKind

/-! ## One clause between two tables -/

/-- The choice that takes the members of a pair from the first two tables. -/
def Choice.ofPair {ι : Type} (p : Option ι × Option ι) : Choice ι :=
  Function.update (Function.update Choice.none 0 p.1) 1 p.2

/-- A pair takes no row beyond the first two tables. -/
lemma Choice.ofPair_add_two {ι : Type} (p : Option ι × Option ι) (table : Nat) :
    Choice.ofPair p (table + 2) = Option.none := rfl

namespace RowSpace

variable {ι : Type} {space : RowSpace ι} {link : PendingJoin} {matching : ι → ι → Bool}

/-- The condition tells of two rows whether they match. -/
def DecidedBy (space : RowSpace ι) (link : PendingJoin) (matching : ι → ι → Bool) : Prop :=
  ∀ (σ : Choice ι) (l r : ι), l ∈ space.rows link.left → r ∈ space.rows link.right →
    σ link.left = some l → σ link.right = some r →
      space.accepts link.clause.on σ = matching l r

/-- A left row is alone when it matches no right row. -/
lemma DecidedBy.alone_iff (decided : space.DecidedBy link matching)
    (hne : link.left ≠ link.right) {σ : Choice ι} (valid : space.Valid σ) {l : ι}
    (hl : σ link.left = some l) :
    space.Alone link σ ↔ ∀ r ∈ space.rows link.right, matching l r = false := by
  refine forall₂_congr fun r hr => ?_
  rw [decided _ l r (valid _ l hl) hr (by rwa [Function.update_of_ne hne])
    (Function.update_self ..)]

/-- A right row is alone when no left row matches it. -/
lemma DecidedBy.alone_turned_iff (decided : space.DecidedBy link matching)
    (hne : link.left ≠ link.right) {σ : Choice ι} (valid : space.Valid σ) {r : ι}
    (hr : σ link.right = some r) :
    space.Alone link.turned σ ↔ ∀ l ∈ space.rows link.left, matching l r = false := by
  refine forall₂_congr fun l hl => ?_
  have haccepts := decided (Function.update σ link.left (some l)) l r hl (valid _ r hr)
    (Function.update_self ..) (by rwa [Function.update_of_ne hne.symm])
  simp only [PendingJoin.right_turned, PendingJoin.on_turned, haccepts]

/-- The pairs of the textbook join are the choices that the clause is content with. -/
lemma DecidedBy.mem_pairs_iff (decided : space.DecidedBy link matching)
    (hne : link.left ≠ link.right) {σ : Choice ι} (valid : space.Valid σ) :
    (σ link.left, σ link.right) ∈
        link.clause.kind.pairs matching (space.rows link.left) (space.rows link.right) ↔
      (σ link.left ≠ none ∨ σ link.right ≠ none) ∧ space.Respects link σ := by
  cases hl : σ link.left with
  | none =>
    cases hr : σ link.right with
    | none => simp [JoinKind.not_mem_pairs_none]
    | some r =>
      rw [JoinKind.mem_pairs_right, ← decided.alone_turned_iff hne valid hr]
      constructor
      · rintro ⟨-, hkeeps, halone⟩
        exact ⟨Or.inr (by simp), fun h => absurd hl h, fun h => absurd hl h,
          fun _ _ => ⟨hkeeps, halone⟩⟩
      · rintro ⟨-, -, -, hright⟩
        obtain ⟨hkeeps, halone⟩ := hright hl (by simp [hr])
        exact ⟨valid _ r hr, hkeeps, halone⟩
  | some l =>
    cases hr : σ link.right with
    | none =>
      rw [JoinKind.mem_pairs_left, ← decided.alone_iff hne valid hl]
      constructor
      · rintro ⟨-, hkeeps, halone⟩
        exact ⟨Or.inl (by simp), fun _ h => absurd hr h, fun _ _ => ⟨hkeeps, halone⟩,
          fun _ h => absurd hr h⟩
      · rintro ⟨-, -, hleft, -⟩
        obtain ⟨hkeeps, halone⟩ := hleft (by simp [hl]) hr
        exact ⟨valid _ l hl, hkeeps, halone⟩
    | some r =>
      rw [JoinKind.mem_pairs_both, ← decided σ l r (valid _ l hl) (valid _ r hr) hl hr]
      constructor
      · rintro ⟨-, -, haccepts⟩
        exact ⟨Or.inl (by simp), fun _ _ => haccepts, fun _ h => by simp [hr] at h,
          fun h => by simp [hl] at h⟩
      · rintro ⟨-, both, -, -⟩
        exact ⟨valid _ l hl, valid _ r hr, both (by simp [hl]) (by simp [hr])⟩

end RowSpace

/-! ## Keys -/

/-- Two stored rows agree in a column of either: the values are equal and not NULL. -/
def keysAgree (i j : Nat) (l r : Nat × Row) : Bool :=
  decide (l.2.getD i .null ≠ .null ∧ l.2.getD i .null = r.2.getD j .null)

/-- The reference is that of the column at a position of an entry, and not declared REAL. -/
structure ColumnRef.KeyOf (entry : FromEntry) (index : Nat) (ref : ColumnRef) : Prop where
  named : ref.qualifiedBy entry.referenceName = true
  located : ref.index = some index
  notReal : ref.columnType ≠ some .real

/-- The condition equates a column of one entry with a column of another. -/
def Expr.EquatesKeys (first second : FromEntry) (i j : Nat) (on : Expr) : Prop :=
  ∃ left right, on.equated? = some (left, right) ∧
    (left.KeyOf first i ∧ right.KeyOf second j ∨ left.KeyOf second j ∧ right.KeyOf first i)

/-- A key of a stored row is the value at its position, and no real. -/
lemma Plan.Bound.columnOutcome_key {s : Store} {plan : Plan} (bound : plan.Bound s)
    (sound : s.Sound) {e : Expr} (he : e ∈ plan.conditions) {ref : ColumnRef} (href : ref ∈ e.columns)
    {position index : Nat} (hposition : position < plan.entries.length)
    (key : ref.KeyOf (FromEntry.atPosition plan.entries position) index) {σ : Choice (Nat × Row)}
    {row : Nat × Row} (hrow : σ position = some row)
    (hstored : row ∈ s.rowsOf (FromEntry.atPosition plan.entries position)) :
    Expr.columnOutcome .full (FromEntry.shownRows plan.entries σ) ref =
        .ok (.determined (row.2.getD index .null)) ∧ (row.2.getD index .null).isReal = false := by
  obtain ⟨b, hb, i, hdeclares⟩ := bound.resolved e he ref href
  obtain rfl : i = index := Option.some.inj (hdeclares.index.symm.trans key.located)
  -- the table that declares the column is that of the entry
  have hentry : FromEntry.atPosition plan.entries position = b.table := by
    obtain ⟨p, hp, rfl⟩ := List.getElem_of_mem hb
    have hentry : FromEntry.atPosition plan.entries p = plan.tables[p].table := by
      simp [FromEntry.atPosition, Plan.entries, hp]
    rw [← hentry]
    refine congrArg _ (bound.apart_entries.eq_of_same hposition
      (by rwa [Plan.entries, List.length_map]) ?_)
    rw [Name.same_comm, hentry]
    exact hdeclares.qualifiedBy_iff.mp key.named
  have hvalue : (b.table.named row).valueOf ref = .ok (row.2.getD i .null) := by
    obtain ⟨t, ht, hdefinition⟩ := bound.stored b hb
    rw [hentry, Store.rowsOf_eq ht] at hstored
    have htyped := (sound t (Store.get_eq_ok ht).2).typed row hstored
    obtain ⟨column, hcolumn, -⟩ := hdeclares.declared
    rw [← hdefinition] at hcolumn
    have hlt : i < row.2.length := by
      rw [← List.Forall₂.length_eq htyped]
      exact (List.getElem?_eq_some_iff.mp hcolumn).1
    simp [StoredRow.valueOf, hdeclares.index, StoredRow.valueAt, Row.at, FromEntry.named, hlt]
  constructor
  · unfold FromEntry.shownRows
    rw [bound.apart_entries.named.columnOutcome_eq hposition key.named
      (by rw [key.located]; rfl), hrow, hentry]
    simp only [FromEntry.shown, LogicalRow.valueOf, hvalue]
    rfl
  · rw [hentry] at hstored
    exact bound.not_real sound hb hdeclares hstored hvalue key.notReal

/-- Where a condition equates keys, it tells of stored rows whether their keys agree. -/
lemma Plan.Bound.accepts_of_equatesKeys {s : Store} {plan : Plan} (bound : plan.Bound s)
    (sound : s.Sound) {on : Expr} (hon : on ∈ plan.conditions) {p q i j : Nat}
    (hp : p < plan.entries.length) (hq : q < plan.entries.length)
    (equates : on.EquatesKeys (FromEntry.atPosition plan.entries p)
      (FromEntry.atPosition plan.entries q) i j) {σ : Choice (Nat × Row)} {l r : Nat × Row}
    (hl : l ∈ s.rowsOf (FromEntry.atPosition plan.entries p))
    (hr : r ∈ s.rowsOf (FromEntry.atPosition plan.entries q)) (hσl : σ p = some l)
    (hσr : σ q = some r) : (s.space plan.entries).accepts (some on) σ = keysAgree i j l r := by
  obtain ⟨left, right, hequated, hkeys⟩ := equates
  have hcolumns := Expr.columns_of_equated hequated
  have hleft : left ∈ on.columns := by simp [hcolumns]
  have hright : right ∈ on.columns := by simp [hcolumns]
  rw [Store.accepts_space, Bool.eq_iff_iff, keysAgree, decide_eq_true_iff]
  rcases hkeys with ⟨keyL, keyR⟩ | ⟨keyL, keyR⟩
  · obtain ⟨hlv, hlreal⟩ := bound.columnOutcome_key sound hon hleft hp keyL hσl hl
    obtain ⟨hrv, hrreal⟩ := bound.columnOutcome_key sound hon hright hq keyR hσr hr
    rw [Expr.holds_accepts_of_equated hequated hlv hrv, Value.equal_iff hlreal hrreal, and_comm,
      Value.isNull_eq_false]
  · obtain ⟨hlv, hlreal⟩ := bound.columnOutcome_key sound hon hleft hq keyL hσr hr
    obtain ⟨hrv, hrreal⟩ := bound.columnOutcome_key sound hon hright hp keyR hσl hl
    rw [Expr.holds_accepts_of_equated hequated hlv hrv, Value.equal_comm,
      Value.equal_iff hrreal hlreal, and_comm, Value.isNull_eq_false]

/-! ## The engine -/

/-- The kind of a clause as it is seen from one of its entries. -/
def JoinClause.kindFrom (clause : JoinClause) (first : FromEntry) : JoinKind :=
  if clause.left.same first then clause.kind else clause.kind.reversed

/-- The textbook join of the stored rows of two entries, as logical rows. -/
def Store.pairs (s : Store) (kind : JoinKind) (first second : FromEntry) (i j : Nat) :
    List (List LogicalRow) :=
  (kind.pairs (keysAgree i j) (s.rowsOf first) (s.rowsOf second)).map fun pair =>
    [first.shown pair.1, second.shown pair.2]

namespace Query

/-- The query joins two entries by one clause that names both, and whose condition equates, once it
is resolved, a column of one with a column of the other. -/
structure JoinsPair (s : Store) (query : Query) (first second : FromEntry) (clause : JoinClause)
    (i j : Nat) : Prop where
  tables : query.tables = [first, second]
  joins : query.joins = [clause]
  kind : clause.kind ≠ .cross
  sides : clause.left.same first = true ∧ clause.right.same second = true ∨
    clause.left.same second = true ∧ clause.right.same first = true
  keys : ∀ tables resolved, query.tables.mapM (bindTable s.catalog) = .ok tables →
    resolveClause tables clause = .ok resolved →
      ∃ on, resolved.on = some on ∧ on.EquatesKeys first second i j

/-- A link between the first two tables, seen from the first one: its kind is the given one, and its
condition equates keys. -/
structure FacesPair (first second : FromEntry) (kind : JoinKind) (i j : Nat)
    (link face : PendingJoin) (on : Expr) : Prop where
  facing : face ∈ link.faces
  left : face.left = 0
  right : face.right = 1
  kind : face.clause.kind = kind
  condition : face.clause.on = some on
  equates : on.EquatesKeys first second i j

/-- The link is its face or the other one. -/
lemma FacesPair.link_eq {first second : FromEntry} {kind : JoinKind} {i j : Nat}
    {link face : PendingJoin} {on : Expr} (faces : FacesPair first second kind i j link face on) :
    link = face ∨ link = face.turned := by
  have hfacing := PendingJoin.mem_faces_comm.mp faces.facing
  simpa [PendingJoin.faces] using hfacing

/-- The condition of the link equates columns of its own two tables. -/
lemma FacesPair.equatesOwn {first second : FromEntry} {kind : JoinKind} {i j : Nat}
    {link face : PendingJoin} {on : Expr} (faces : FacesPair first second kind i j link face on)
    {names : Nat → String} (hfirst : names 0 = first.referenceName)
    (hsecond : names 1 = second.referenceName) : RowSpace.EquatesOwn names link := by
  obtain ⟨left, right, hequated, hkeys⟩ := faces.equates
  have hlocated : left.index.isSome = true ∧ right.index.isSome = true := by
    rcases hkeys with ⟨keyL, keyR⟩ | ⟨keyL, keyR⟩ <;> simp [keyL.located, keyR.located]
  have hsides : left.qualifiedBy (names 0) = true ∧ right.qualifiedBy (names 1) = true ∨
      left.qualifiedBy (names 1) = true ∧ right.qualifiedBy (names 0) = true := by
    rw [hfirst, hsecond]
    exact hkeys.imp (fun keys => ⟨keys.1.named, keys.2.named⟩)
      fun keys => ⟨keys.1.named, keys.2.named⟩
  rcases faces.link_eq with rfl | rfl
  · refine ⟨on, left, right, faces.condition, hequated, hlocated, ?_⟩
    rw [faces.left, faces.right]
    exact hsides
  · refine ⟨on, left, right, faces.condition, hequated, hlocated, ?_⟩
    rw [PendingJoin.left_turned, PendingJoin.right_turned, faces.left, faces.right]
    exact hsides.symm

section JoinsPair

variable {s : Store} {query : Query} {plan : Plan} {first second : FromEntry} {clause : JoinClause}
  {i j : Nat}

/-- The only clause of the plan. -/
lemma JoinsPair.exists_resolved (joins : query.JoinsPair s first second clause i j)
    (planned : Planned s.catalog query plan) :
    ∃ resolved on, plan.joins = [resolved] ∧ resolved.left = clause.left ∧
      resolved.right = clause.right ∧ resolved.kind = clause.kind ∧ resolved.on = some on ∧
        on.EquatesKeys first second i j := by
  have hjoins := planned.joins
  rw [joins.joins] at hjoins
  obtain ⟨resolved, hresolved, hplan⟩ := eq_singleton_of_mapM hjoins
  obtain ⟨on, hon, equates⟩ := joins.keys plan.tables resolved planned.tables hresolved
  obtain ⟨hleft, hright, hkind, -⟩ := resolveClause_eq_ok hresolved
  exact ⟨resolved, on, hplan, hleft, hright, hkind, hon, equates⟩

/-- No key of the clause is declared REAL. -/
lemma JoinsPair.keysNotReal (joins : query.JoinsPair s first second clause i j) :
    query.KeysNotReal s := by
  intro plan hplan clause' hclause' _ on left right hon hequated
  obtain ⟨resolved, on', hjoins, -, -, -, hon', left', right', hequated', keys⟩ :=
    joins.exists_resolved (planned_of_plan hplan)
  rw [hjoins, List.mem_singleton] at hclause'
  obtain rfl : on' = on := by
    rw [hclause', hon'] at hon
    exact Option.some.inj hon
  obtain ⟨rfl, rfl⟩ := Prod.mk.inj (Option.some.inj (hequated'.symm.trans hequated))
  rcases keys with ⟨keyL, keyR⟩ | ⟨keyL, keyR⟩
  · exact ⟨keyL.notReal, keyR.notReal⟩
  · exact ⟨keyL.notReal, keyR.notReal⟩

/-- The only link of a run, seen from the first entry. -/
lemma JoinsPair.exists_face (joins : query.JoinsPair s first second clause i j)
    (planned : Planned s.catalog query plan) (bound : plan.Bound s) {inputs : List JoinInput}
    (gathered : plan.Gathered s plan.earlyPredicate inputs) {pool : List PendingJoin}
    (hpool : plan.joins.mapM (PendingJoin.ofClause inputs) = .ok pool) :
    ∃ link face on, pool = [link] ∧
      FacesPair first second (clause.kindFrom first) i j link face on := by
  obtain ⟨resolved, on, hjoins, hleft, hright, hkind, hon, equates⟩ :=
    joins.exists_resolved planned
  rw [hjoins] at hpool
  obtain ⟨link, hlink, rfl⟩ := eq_singleton_of_mapM hpool
  obtain ⟨hl, hr, rfl⟩ := JoinInput.ofClause_eq_ok hlink
  rw [hleft] at hl
  rw [hright] at hr
  -- the inputs are those of the two entries
  have hentries : plan.entries = [first, second] :=
    (Plan.entries_of_planned planned).trans joins.tables
  have hlength : inputs.length = 2 := by rw [← gathered.length_eq, hentries]; rfl
  have hfirst : (JoinInput.atPosition inputs 0).table = first := by
    rw [← gathered.entry_eq, hentries]
    rfl
  have hsecond : (JoinInput.atPosition inputs 1).table = second := by
    rw [← gathered.entry_eq, hentries]
    rfl
  have apart := gathered.namesApart bound
  have at_first : ∀ {side : FromEntry} {position : Nat},
      JoinInput.indexOf inputs side = .ok position → side.same first = true → position = 0 :=
    fun h hsame => apart.indexOf_eq h (by omega) (by rwa [hfirst])
  have at_second : ∀ {side : FromEntry} {position : Nat},
      JoinInput.indexOf inputs side = .ok position → side.same second = true → position = 1 :=
    fun h hsame => apart.indexOf_eq h (by omega) (by rwa [hsecond])
  rcases joins.sides with ⟨hfrom, hto⟩ | ⟨hfrom, hto⟩
  · refine ⟨link, link, on, rfl, link.mem_faces_self, at_first hl hfrom, at_second hr hto, ?_, hon,
      equates⟩
    rw [JoinClause.kindFrom, if_pos hfrom, hkind]
  · have hother : clause.left.same first = false := by
      by_contra hsame
      have := at_first hl (by simpa using hsame)
      rw [at_second hl hfrom] at this
      exact absurd this (by simp)
    refine ⟨link, link.turned, on, rfl, link.turned_mem_faces, at_first hr hto, at_second hl hfrom,
      ?_, hon, equates⟩
    rw [JoinClause.kindFrom, hother, ← hkind]
    rfl

/-- Along a link that equates keys the choices that fit are the pairs of the textbook join. -/
lemma FacesPair.fits_iff {kind : JoinKind} {link face : PendingJoin} {on : Expr}
    (faces : FacesPair first second kind i j link face on) (bound : plan.Bound s) (sound : s.Sound)
    (hentries : plan.entries = [first, second]) (hcondition : on ∈ plan.conditions)
    {σ : Choice (Nat × Row)} (valid : (s.space plan.entries).Valid σ) :
    (s.space plan.entries).Fits [link] (List.range plan.entries.length) σ ↔
      (σ 0, σ 1) ∈ kind.pairs (keysAgree i j) (s.rowsOf first) (s.rowsOf second) := by
  have hfirst : FromEntry.atPosition plan.entries 0 = first := by rw [hentries]; rfl
  have hsecond : FromEntry.atPosition plan.entries 1 = second := by rw [hentries]; rfl
  have hlength : plan.entries.length = 2 := by rw [hentries]; rfl
  have decided : (s.space plan.entries).DecidedBy face (keysAgree i j) := by
    intro σ l r hl hr hσl hσr
    rw [faces.left] at hl hσl
    rw [faces.right] at hr hσr
    rw [faces.condition]
    refine bound.accepts_of_equatesKeys sound hcondition (p := 0) (q := 1) (by omega) (by omega) ?_
      hl hr hσl hσr
    rw [hfirst, hsecond]
    exact faces.equates
  have hpairs := decided.mem_pairs_iff (by rw [faces.left, faces.right]; decide) valid
  have hrows : (s.space plan.entries).rows 0 = s.rowsOf first := by rw [← hfirst]; rfl
  have hrows' : (s.space plan.entries).rows 1 = s.rowsOf second := by rw [← hsecond]; rfl
  rw [faces.left, faces.right, faces.kind, hrows, hrows'] at hpairs
  -- the link has the same ends as its face
  have ends : ∀ table, table ∈ List.range plan.entries.length ↔
      table = link.left ∨ table = link.right := by
    intro table
    rw [List.mem_range, hlength]
    rcases faces.link_eq with rfl | rfl
    · rw [faces.left, faces.right]
      omega
    · rw [PendingJoin.left_turned, PendingJoin.right_turned, faces.left, faces.right]
      omega
  have hfilled : (σ link.left ≠ none ∨ σ link.right ≠ none) ↔ (σ 0 ≠ none ∨ σ 1 ≠ none) := by
    rcases faces.link_eq with rfl | rfl
    · rw [faces.left, faces.right]
    · rw [PendingJoin.left_turned, PendingJoin.right_turned, faces.left, faces.right, or_comm]
  rw [RowSpace.fits_single_iff ends, hpairs, hfilled, RowSpace.respects_of_mem_faces faces.facing]

end JoinsPair

/-- An unarranged query over two tables with one clause that equates keys gives, when it is
answered, the rows of the textbook join as a bag. -/
theorem execute_perm_pairs {s : Store} (reachable : s.Reachable) {query : Query}
    (unarranged : query.Unarranged) {first second : FromEntry} {clause : JoinClause} {i j : Nat}
    (joins : query.JoinsPair s first second clause i j) {watch : Watch} {interval session : Nat}
    {locks : LockTable} {answer : Answer}
    (h : (query.execute s.catalog watch interval session locks).1 = .ok answer) :
    ∃ result,
      query.resultOf s (fun _ => s.pairs (clause.kindFrom first) first second i j) = .ok result ∧
        answer.rows.Perm result := by
  have sound := reachable.sound
  obtain ⟨plan, planned, bound, inputs, pool, output, final, rows, ran⟩ :=
    exists_ran_of_execute sound joins.keysNotReal h
  obtain ⟨link, face, on, rfl, faces⟩ := joins.exists_face planned bound ran.gathered ran.pooled
  have hentries : plan.entries = [first, second] :=
    (Plan.entries_of_planned planned).trans joins.tables
  have hcondition : on ∈ plan.conditions := by
    refine Plan.mem_conditions_of_pool ran.pooled link (List.mem_singleton_self link) on ?_
    rcases faces.link_eq with rfl | rfl
    · exact faces.condition
    · exact faces.condition
  have own : plan.OuterOwn [link] := by
    intro link' hlink' _
    rw [List.mem_singleton.mp hlink', hentries]
    exact faces.equatesOwn rfl rfl
  have hshown : ∀ σ : Choice (Nat × Row),
      FromEntry.shownRows plan.entries σ = [first.shown (σ 0), second.shown (σ 1)] := by
    intro σ
    rw [hentries]
    rfl
  have nodup : (s.pairs (clause.kindFrom first) first second i j).Nodup := by
    refine List.Nodup.map (fun p p' heq => ?_)
      (JoinKind.nodup_pairs (sound.nodup_rowsOf first) (sound.nodup_rowsOf second))
    obtain ⟨hl, hr⟩ := List.cons.inj heq
    exact Prod.ext (first.shown_inj hl) (second.shown_inj (List.cons.inj hr).1)
  refine exists_resultOf_of_fits sound planned bound unarranged ran (List.pairwise_singleton _ _)
    own nodup fun shown => ?_
  rw [Store.pairs, List.mem_map]
  constructor
  · rintro ⟨p, hp, rfl⟩
    have valid : (s.space plan.entries).Valid (.ofPair p) := by
      obtain ⟨hl, hr⟩ := JoinKind.mem_of_mem_pairs hp
      intro position row hrow
      change row ∈ s.rowsOf (FromEntry.atPosition plan.entries position)
      rw [hentries]
      rcases position with _ | _ | position
      · exact hl row hrow
      · exact hr row hrow
      · rw [Choice.ofPair_add_two] at hrow
        simp at hrow
    have supported : Choice.SupportedBy (List.range plan.entries.length) (.ofPair p) := by
      intro position hposition
      rw [hentries, List.mem_range] at hposition
      rcases position with _ | _ | position
      · simp at hposition
      · simp at hposition
      · exact Choice.ofPair_add_two p position
    have fits := (faces.fits_iff bound sound hentries hcondition valid).mpr hp
    exact ⟨.ofPair p, valid, supported, fits, hshown _⟩
  · rintro ⟨σ, valid, -, fits, rfl⟩
    have hpair := (faces.fits_iff bound sound hentries hcondition valid).mp fits
    exact ⟨(σ 0, σ 1), hpair, (hshown σ).symm⟩

/-- A FULL clause that names its sides backwards, with a row on either side that has no partner and
a condition that looks at the padding. -/
theorem execute_perm_pairs_full : ∃ (s : Store) (query : Query) (clause : JoinClause)
    (answer : Answer) (result : List Row), s.Reachable ∧
      (query.execute s.catalog .never 1 0 .empty).1 = .ok answer ∧
      answer.rows = [[.integer 1, .integer 6], [.integer 1, .integer 6], [.null, .integer 7]] ∧
      query.JoinsPair s ⟨"a", none⟩ ⟨"b", none⟩ clause 0 0 ∧
      query.resultOf s (fun _ =>
        s.pairs (clause.kindFrom ⟨"a", none⟩) ⟨"a", none⟩ ⟨"b", none⟩ 0 0) = .ok result ∧
      answer.rows.Perm result := by
  let s : Store :=
    ⟨[.ofIntegers "a" ["k"] [[1], [1], [2]], .ofIntegers "b" ["k", "x"] [[1, 6], [3, 7]]]⟩
  let clause : JoinClause := .between "b" "a" .full (.equates (.written "b" "k") (.written "a" "k"))
  let query := selecting [.written "a" "k", .written "b" "x"] ["a", "b"] [clause]
    (some (.binary (.logical .or)
      (.binary (.comparison .lt) (.written "a" "k") (.literal (.integer 2) none) none)
      (.binary (.comparison .lt) (.written "b" "x") (.literal (.integer 8) none) none) none))
  have reachable : s.Reachable := Store.Reachable.empty.requests
    (Store.Request.fill "a" ["k"] [[1], [1], [2]] ++
      Store.Request.fill "b" ["k", "x"] [[1, 6], [3, 7]]) (by cbv)
  have ran : (query.execute s.catalog .never 1 0 .empty).1 = .ok ⟨["k", "x"],
      [[.integer 1, .integer 6], [.integer 1, .integer 6], [.null, .integer 7]]⟩ := by
    rw [execute_of_unwritten (by decide) (by decide)]
    cbv
  have joins : query.JoinsPair s ⟨"a", none⟩ ⟨"b", none⟩ clause 0 0 := by
    refine ⟨rfl, rfl, by decide, Or.inr (by decide), fun tables resolved htables hresolved => ?_⟩
    have hbound : query.tables.mapM (bindTable s.catalog) =
        .ok [⟨⟨"a", none⟩, ⟨"a", [⟨"k", .integer⟩]⟩⟩,
          ⟨⟨"b", none⟩, ⟨"b", [⟨"k", .integer⟩, ⟨"x", .integer⟩]⟩⟩] := by cbv
    obtain rfl := Except.ok.inj (hbound.symm.trans htables)
    have hon : resolveClause [⟨⟨"a", none⟩, ⟨"a", [⟨"k", .integer⟩]⟩⟩,
          ⟨⟨"b", none⟩, ⟨"b", [⟨"k", .integer⟩, ⟨"x", .integer⟩]⟩⟩] clause =
        .ok { clause with on := some (.equates (.column ⟨"k", some "b", some .integer, some 0⟩ none)
          (.column ⟨"k", some "a", some .integer, some 0⟩ none)) } := by cbv
    obtain rfl := Except.ok.inj (hon.symm.trans hresolved)
    exact ⟨_, rfl, _, _, rfl, Or.inr ⟨⟨by decide, rfl, by decide⟩, ⟨by decide, rfl, by decide⟩⟩⟩
  obtain ⟨result, hresult, hperm⟩ := execute_perm_pairs reachable
    (unarranged_selecting (by decide)) joins ran
  exact ⟨s, query, clause, _, result, reachable, ran, rfl, joins, hresult, hperm⟩

end Query

end RelQuery

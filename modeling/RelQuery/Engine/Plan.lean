import RelQuery.Expr.Folding
import RelQuery.Group.Having
import RelQuery.Sorting
import RelQuery.Store.Catalog

/-!
# Query plans

A plan is a query whose names are resolved against the catalog.  Its projection ends in the hidden
members that grouping, HAVING and ORDER BY need, and keys are positions of the projection.
-/

namespace RelQuery

/-- A resolved query. -/
structure Plan where
  tables : List BoundEntry
  projection : Projection
  distinct : Bool
  /-- The WHERE predicate, with its constant parts folded. -/
  selection : Option Expr
  joins : List JoinClause
  grouped : Bool
  /-- The positions to group by. -/
  keys : List Nat
  /-- The HAVING predicate over grouped rows. -/
  having : Option Expr
  sortKeys : List OrderKey
  deriving DecidableEq

namespace Query

/-! ### Structure -/

/-- The first entry whose reference name an earlier entry has. -/
def duplicate? (seen : List FromEntry) : List FromEntry → Option FromEntry
  | [] => none
  | table :: rest => if seen.any (·.same table) then some table else duplicate? (table :: seen) rest

/-- The first side of a clause that names none of the tables. -/
def unknownSide? (tables : List FromEntry) (clause : JoinClause) : Option FromEntry :=
  [clause.left, clause.right].find? fun side => !tables.any (·.same side)

/-- The query selects something from different tables, and its joins name these. -/
def checkEntries (query : Query) : Result Unit :=
  if query.projection.isEmpty then .error (.fault .emptyProjection)
  else if query.tables.isEmpty then .error (.fault .noTables)
  else
    match duplicate? [] query.tables with
    | some table => .error (.duplicateTable table.referenceName)
    | none =>
      match query.joins.findSome? (unknownSide? query.tables) with
      | some side => .error (.tableNotFound side.referenceName)
      | none => .ok ()

/-! ### Resolution of the clauses -/

/-- The entry with the definition that the catalog has of it. -/
def bindTable (catalog : Catalog) (table : FromEntry) : Result BoundEntry :=
  ((catalog.definition table).inPlace (.table table)).map fun definition => ⟨table, definition⟩

/-- Fails on an aggregate where none may stand. -/
def refuseAggregate (clause : Clause) (e : Expr) : Result Unit :=
  if e.hasAggregate then .error (.invalidAggregate (.inClause e clause)) else .ok ()

/-- An expression of a clause that may hold no aggregate, resolved. -/
def resolvePlain (tables : List BoundEntry) (clause : Clause) (e : Expr) : Result Expr := do
  let resolved ← (e.resolve tables).result
  refuseAggregate clause resolved
  return resolved

/-- The WHERE predicate, resolved and folded. -/
def resolveSelection (tables : List BoundEntry) : Option Expr → Result (Option Expr)
  | none => .ok none
  | some predicate => do
    let resolved ← resolvePlain tables .selection predicate
    return some (← resolved.foldConstants)

/-- A join clause with its condition resolved. -/
def resolveClause (tables : List BoundEntry) (clause : JoinClause) : Result JoinClause :=
  match clause.on with
  | none => .ok clause
  | some on => (resolvePlain tables .joinCondition on).map fun on => { clause with on := some on }

/-- The HAVING predicate, resolved. -/
def resolveHaving (tables : List BoundEntry) : Option Expr → Result (Option Expr)
  | none => .ok none
  | some predicate => (predicate.resolve tables).result.map some

/-! ### Grouping -/

/-- Under grouping a member is an aggregate of a plain argument, agrees with a GROUP BY expression,
or reads no column. -/
def checkMember (groupBy : List Expr) (e : Expr) : Result Unit :=
  if e.hasAggregate then
    if e.aggregate?.isSome && !e.argument?.any Expr.hasAggregate then .ok ()
    else .error (.invalidAggregate (.member e))
  else if groupBy.any (·.agrees e) || e.columns.isEmpty then .ok ()
  else .error (.ungroupedColumn e.outputName)

/-- Checks every member of a list. -/
def checkMembers (groupBy : List Expr) : List Expr → Result Unit
  | [] => .ok ()
  | e :: rest => do
    checkMember groupBy e
    checkMembers groupBy rest

/-- The positions of the GROUP BY expressions, with the projection that has them. -/
def groupKeys (p : Projection) : List Expr → List Nat × Projection
  | [] => ([], p)
  | e :: rest =>
    let (position, p) := p.positionOf e
    let (positions, p) := groupKeys p rest
    (position :: positions, p)

/-- The HAVING predicate over grouped rows, with the projection that computes what it reads. -/
def planHaving (p : Projection) : Option Expr → Result (Option Expr × Projection)
  | none => .ok (none, p)
  | some predicate =>
    match groupedPredicate predicate p with
    | (.ok overGroups, p) => .ok (some overGroups, p)
    | (.error error, _) => .error error

/-! ### Order -/

/-- The visible member that an unqualified name means as an output name. -/
def namedMember (p : Projection) (e : Expr) : Result (Option Nat) :=
  match e with
  | .column ref _ => if ref.table.isNone then p.namedPosition ref.name else .ok none
  | _ => .ok none

/-- The position to sort by for one expression, with the projection that has it. -/
def sortPosition (tables : List BoundEntry) (groupBy : List Expr) (grouped : Bool) (p : Projection)
    (e : Expr) : Result (Nat × Projection) := do
  match ← namedMember p e with
  | some position => return (position, p)
  | none =>
    let resolved ← (e.resolve tables).result
    match p.agreeing? resolved with
    | some position => return (position, p)
    | none =>
      if grouped then checkMember groupBy resolved
      else refuseAggregate .orderBy resolved
      return (p.length, p.appendHidden resolved)

/-- The sort keys, with the projection that has them. -/
def planOrder (tables : List BoundEntry) (groupBy : List Expr) (grouped : Bool) (p : Projection) :
    List SortTerm → Result (List OrderKey × Projection)
  | [] => .ok ([], p)
  | term :: rest => do
    let (position, p) ← sortPosition tables groupBy grouped p term.expr
    let (keys, p) ← planOrder tables groupBy grouped p rest
    return (⟨position, term.ascending⟩ :: keys, p)

/-- The plan of a query. -/
def plan (catalog : Catalog) (query : Query) : Result Plan := do
  let tables ← query.tables.mapM (bindTable catalog)
  let projection ← (query.projection.resolve tables).result
  let selection ← resolveSelection tables query.selection
  let joins ← query.joins.mapM (resolveClause tables)
  let groupBy ← query.groupBy.mapM (resolvePlain tables .groupBy)
  let having ← resolveHaving tables query.having
  if query.needsGrouping then checkMembers groupBy projection.visible
  let (keys, projection) := groupKeys projection groupBy
  let (having, projection) ← planHaving projection having
  let (sortKeys, projection) ← planOrder tables groupBy query.needsGrouping projection query.orderBy
  return {
    tables, projection, selection, joins, keys, having, sortKeys
    distinct := query.distinct
    grouped := query.needsGrouping }

end Query

end RelQuery

import RelQuery.Function
import RelQuery.Operator
import RelQuery.FromEntry

/-!
# Expressions

An expression is a literal, a column, an operation on two operands, a negation, or a function with
or without argument.  Every node may carry an alias, its label, which names the output column and
has no part in the meaning.
-/

namespace RelQuery

/-- An expression tree. -/
inductive Expr where
  | literal (value : Value) (label : Option String)
  | column (ref : ColumnRef) (label : Option String)
  | binary (op : BinaryOp) (left right : Expr) (label : Option String)
  | negate (operand : Expr) (label : Option String)
  | call (f : Function) (arg : Expr) (label : Option String)
  | bareCall (f : Function) (label : Option String)
  deriving DecidableEq

namespace Expr

/-- The alias of the top node. -/
def label : Expr → Option String
  | literal _ label | column _ label | binary _ _ _ label | negate _ label | call _ _ label
  | bareCall _ label => label

/-- The expression under another alias, or under none. -/
def withLabel (label : Option String) : Expr → Expr
  | literal value _ => literal value label
  | column ref _ => column ref label
  | binary op left right _ => binary op left right label
  | negate operand _ => negate operand label
  | call f arg _ => call f arg label
  | bareCall f _ => bareCall f label

/-! ### Text -/

/-- A text literal between quotes, with every quote inside it doubled. -/
def quoted (s : String) : String :=
  "'" ++ String.ofList (s.toList.flatMap fun c => if c = '\x27' then [c, c] else [c]) ++ "'"

/-- The text of an operand, in parentheses if it is an operation itself. -/
def enclose (operand : Expr) (text : String) : String :=
  match operand with
  | binary .. => "(" ++ text ++ ")"
  | _ => text

/-- The text that shows the expression.  Aliases do not appear in it. -/
def render : Expr → String
  | literal (.text s) _ => quoted s
  | literal value _ => value.render
  | column ref _ => ref.render
  | binary op left right _ =>
    enclose left left.render ++ " " ++ op.symbol ++ " " ++ enclose right right.render
  | negate operand _ => "-" ++ enclose operand operand.render
  | call f arg _ => f.name ++ "(" ++ arg.render ++ ")"
  | bareCall f _ => f.name ++ "()"

/-- The name of the output column: the alias, else the bare column name, else the text. -/
def outputName (e : Expr) : String :=
  match e.label with
  | some label => label
  | none =>
    match e with
    | column ref _ => ref.name
    | _ => e.render

/-! ### Parts -/

/-- The left operand of an operation. -/
def left? : Expr → Option Expr
  | binary _ left _ _ => some left
  | _ => none

/-- The right operand of an operation. -/
def right? : Expr → Option Expr
  | binary _ _ right _ => some right
  | _ => none

/-- The value of a literal. -/
def literal? : Expr → Option Value
  | literal value _ => some value
  | _ => none

/-- The reference of a column. -/
def column? : Expr → Option ColumnRef
  | column ref _ => some ref
  | _ => none

/-- The function of a function node. -/
def function? : Expr → Option Function
  | call f _ _ | bareCall f _ => some f
  | _ => none

/-- The argument of a function node. -/
def argument? : Expr → Option Expr
  | call _ arg _ => some arg
  | _ => none

/-- The aggregate that the top node computes. -/
def aggregate? (e : Expr) : Option Aggregate :=
  e.function?.bind Function.aggregate?

/-- An aggregate occurs in the expression. -/
def hasAggregate : Expr → Bool
  | literal .. | column .. => false
  | binary _ left right _ => left.hasAggregate || right.hasAggregate
  | negate operand _ => operand.hasAggregate
  | call f arg _ => f.isAggregate || arg.hasAggregate
  | bareCall f _ => f.isAggregate

/-- The column references of the expression, from left to right. -/
def columns : Expr → List ColumnRef
  | literal .. | bareCall .. => []
  | column ref _ => [ref]
  | binary _ left right _ => left.columns ++ right.columns
  | negate operand _ => operand.columns
  | call _ arg _ => arg.columns

/-- Appends those references that agree with no reference seen before. -/
def addNew (seen : List ColumnRef) (found : List ColumnRef) : List ColumnRef :=
  found.foldl (fun seen ref => if seen.any (·.same ref) then seen else seen ++ [ref]) seen

/-- The references qualified by one of the tables, each once; all of them when no table is given. -/
def columnsOf (e : Expr) (tables : List String) : List ColumnRef :=
  addNew [] (e.columns.filter fun ref => tables.isEmpty || tables.any ref.qualifiedBy)

/-! ### Comparison of trees -/

/-- The two expressions compute the same thing from the same columns.  Aliases are ignored, columns
are compared by name and qualifier, literals as numbers where they are reals. -/
def agrees : Expr → Expr → Bool
  | literal a _, literal b _ => a.same b
  | column a _, column b _ => a.same b
  | binary opA leftA rightA _, binary opB leftB rightB _ =>
    opA == opB && leftA.agrees leftB && rightA.agrees rightB
  | negate a _, negate b _ => a.agrees b
  | call f a _, call g b _ => f == g && a.agrees b
  | bareCall f _, bareCall g _ => f == g
  | _, _ => false

/-- The two trees are alike in every part, literals again compared as numbers where they are
reals. -/
def identical : Expr → Expr → Bool
  | literal a labelA, literal b labelB => a.same b && labelA == labelB
  | column a labelA, column b labelB => a == b && labelA == labelB
  | binary opA leftA rightA labelA, binary opB leftB rightB labelB =>
    opA == opB && leftA.identical leftB && rightA.identical rightB && labelA == labelB
  | negate a labelA, negate b labelB => a.identical b && labelA == labelB
  | call f a labelA, call g b labelB => f == g && a.identical b && labelA == labelB
  | bareCall f labelA, bareCall g labelB => f == g && labelA == labelB
  | _, _ => false

@[simp] theorem label_withLabel (label : Option String) (e : Expr) :
    (e.withLabel label).label = label := by
  cases e <;> rfl

@[simp] theorem withLabel_label (e : Expr) : e.withLabel e.label = e := by
  cases e <;> rfl

end Expr

end RelQuery

/-!
# Kinds of joins
-/

namespace RelQuery

/-- What a join does with rows that have no partner. -/
inductive JoinKind where
  | cross
  | inner
  | left
  | right
  | full
  deriving DecidableEq

namespace JoinKind

/-- The keyword of the kind. -/
def name : JoinKind → String
  | cross => "CROSS"
  | inner => "INNER"
  | left => "LEFT"
  | right => "RIGHT"
  | full => "FULL"

/-- Rows without a partner are kept on at least one side. -/
def isOuter (kind : JoinKind) : Bool :=
  kind == left || kind == right || kind == full

/-- Rows of the left side without a partner are kept. -/
def keepsLeft (kind : JoinKind) : Bool :=
  kind == left || kind == full

/-- Rows of the right side without a partner are kept. -/
def keepsRight (kind : JoinKind) : Bool :=
  kind == right || kind == full

/-- The same join with its sides exchanged. -/
def reversed : JoinKind → JoinKind
  | left => right
  | right => left
  | kind => kind

@[simp] theorem reversed_reversed (kind : JoinKind) : kind.reversed.reversed = kind := by
  cases kind <;> rfl

@[simp] theorem isOuter_reversed (kind : JoinKind) : kind.reversed.isOuter = kind.isOuter := by
  cases kind <;> rfl

theorem keepsLeft_reversed (kind : JoinKind) : kind.reversed.keepsLeft = kind.keepsRight := by
  cases kind <;> rfl

end JoinKind

end RelQuery

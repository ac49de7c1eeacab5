import RelQuery.Proofs.Expr.RealFree
import RelQuery.Proofs.Value.Ranks

/-!
# Expressions that agree

Agreement ignores aliases, takes columns of one name and qualifier for the same column, and compares
literals as numbers.  Aliases have no part in an outcome, and resolved columns of one name and
qualifier are one column, so of two resolved expressions that agree only the literals can differ,
and these only in the sign of a zero.  Where the literals are the same values the two expressions
are the same tree under other aliases, and have the same outcomes.
-/

namespace RelQuery.Expr

variable {tables : List BoundEntry} {a b : Expr}

/-! ## Aliases -/

/-- The expression without its aliases. -/
def unlabelled : Expr → Expr
  | literal value _ => literal value none
  | column ref _ => column ref none
  | binary op left right _ => binary op left.unlabelled right.unlabelled none
  | negate operand _ => negate operand.unlabelled none
  | call f arg _ => call f arg.unlabelled none
  | bareCall f _ => bareCall f none

/-- Aliases have no part in the outcome. -/
@[simp] lemma evaluate_unlabelled (mode : Coverage) (rows : List LogicalRow) (e : Expr) :
    e.unlabelled.evaluate mode rows = e.evaluate mode rows := by
  induction e with
  | literal value label => rfl
  | column ref label => rfl
  | binary op left right label ihLeft ihRight =>
    rw [unlabelled, evaluate, evaluate, ihLeft, ihRight]
  | negate operand label ih => rw [unlabelled, evaluate, evaluate, ih]
  | call f arg label ih => rw [unlabelled, evaluate, evaluate, ih]
  | bareCall f label => rfl

/-! ## Agreement by the constructors -/

/-- The expressions have one shape, with the same operations and functions, and agree in their
literals and columns. -/
inductive Agree : Expr → Expr → Prop
  | literal {v w : Value} (label label' : Option String) (same : v.same w = true) :
      Agree (literal v label) (literal w label')
  | column {ref other : ColumnRef} (label label' : Option String) (same : ref.same other = true) :
      Agree (column ref label) (column other label')
  | binary (op : BinaryOp) {left left' right right' : Expr} (label label' : Option String)
      (first : Agree left left') (second : Agree right right') :
      Agree (binary op left right label) (binary op left' right' label')
  | negate {operand operand' : Expr} (label label' : Option String)
      (inside : Agree operand operand') :
      Agree (negate operand label) (negate operand' label')
  | call (f : Function) {arg arg' : Expr} (label label' : Option String)
      (inside : Agree arg arg') : Agree (call f arg label) (call f arg' label')
  | bareCall (f : Function) (label label' : Option String) :
      Agree (bareCall f label) (bareCall f label')

/-- What passes the comparison of trees agrees part by part. -/
lemma agree_of_agrees (h : a.agrees b = true) : Agree a b := by
  fun_induction agrees a b with
  | case1 v label w label' => exact .literal label label' h
  | case2 ref label other label' => exact .column label label' h
  | case3 op left right label op' left' right' label' ihLeft ihRight =>
    simp only [Bool.and_eq_true, beq_iff_eq] at h
    obtain ⟨⟨rfl, hleft⟩, hright⟩ := h
    exact .binary op label label' (ihLeft hleft) (ihRight hright)
  | case4 operand label operand' label' ih => exact .negate label label' (ih h)
  | case5 f arg label f' arg' label' ih =>
    simp only [Bool.and_eq_true, beq_iff_eq] at h
    obtain ⟨rfl, harg⟩ := h
    exact .call f label label' (ih harg)
  | case6 f label f' label' =>
    obtain rfl := eq_of_beq h
    exact .bareCall f label label'
  | case7 => contradiction

/-! ## Literals -/

/-- The literals of expressions that agree are the same as numbers, one by one. -/
lemma Agree.same_literals (h : Agree a b) :
    List.Forall₂ (fun v w => v.same w = true) a.literals b.literals := by
  induction h with
  | literal label label' same => exact .cons same .nil
  | column label label' same => exact .nil
  | binary op label label' _ _ ihLeft ihRight => exact List.rel_append ihLeft ihRight
  | negate label label' _ ih => exact ih
  | call f label label' _ ih => exact ih
  | bareCall f label label' => exact .nil

/-- The literals of expressions that agree differ at most in the signs of zeros. -/
lemma Agree.unsigned_literals (h : Agree a b) :
    a.literals.map Value.unsigned = b.literals.map Value.unsigned := by
  rw [← List.forall₂_eq_eq_eq, List.forall₂_map_left_iff, List.forall₂_map_right_iff]
  exact h.same_literals.imp fun v w hsame => (Value.same_iff.mp hsame).2

/-- Expressions of the same signs that agree have the same literals. -/
lemma SameSigns.literals_eq (signs : a.SameSigns b) (h : a.agrees b = true) :
    a.literals = b.literals := by
  have hsame := (agree_of_agrees h).same_literals
  unfold SameSigns at signs
  generalize a.literals = l at signs hsame
  generalize b.literals = r at signs hsame
  induction hsame with
  | nil => rfl
  | @cons v w l r hvw _ ih =>
    rw [signs v List.mem_cons_self w List.mem_cons_self hvw,
      ih fun v' hv' w' hw' => signs v' (List.mem_cons_of_mem _ hv') w' (List.mem_cons_of_mem _ hw')]

/-! ## Trees -/

/-- Expressions that agree are the same up to aliases, where they have the same literals and columns
that agree are one column. -/
lemma Agree.unlabelled_eq (h : Agree a b) (hliterals : a.literals = b.literals)
    (hcolumns : ∀ ref ∈ a.columns, ∀ other ∈ b.columns, ref.same other = true → ref = other) :
    a.unlabelled = b.unlabelled := by
  induction h with
  | literal label label' same => rw [unlabelled, unlabelled, List.singleton_inj.mp hliterals]
  | @column ref other label label' same =>
    rw [unlabelled, unlabelled,
      hcolumns ref (List.mem_singleton_self _) other (List.mem_singleton_self _) same]
  | binary op label label' first second ihLeft ihRight =>
    -- as many literals stand on the left of both operations
    obtain ⟨hl, hr⟩ := List.append_inj hliterals first.same_literals.length_eq
    rw [unlabelled, unlabelled,
      ihLeft hl fun ref href other hother => hcolumns ref (List.mem_append_left _ href) other
        (List.mem_append_left _ hother),
      ihRight hr fun ref href other hother => hcolumns ref (List.mem_append_right _ href) other
        (List.mem_append_right _ hother)]
  | negate label label' _ ih => rw [unlabelled, unlabelled, ih hliterals hcolumns]
  | call f label label' _ ih => rw [unlabelled, unlabelled, ih hliterals hcolumns]
  | bareCall f label label' => rfl

/-- Resolved expressions that agree have equal outcomes, where they have the same literals. -/
lemma evaluate_eq_of_agrees (apart : BoundEntry.Apart tables) (ha : a.ResolvedIn tables)
    (hb : b.ResolvedIn tables) (hliterals : a.literals = b.literals) (h : a.agrees b = true)
    (mode : Coverage) (rows : List LogicalRow) : a.evaluate mode rows = b.evaluate mode rows := by
  have htree : a.unlabelled = b.unlabelled :=
    (agree_of_agrees h).unlabelled_eq hliterals fun ref href other hother =>
      (ha ref href).eq_of_same apart (hb other hother)
  rw [← evaluate_unlabelled, htree, evaluate_unlabelled]

/-- Of two expressions that are resolved in tables of different names and agree, the literals differ
at most in the signs of zeros, and where they do not, the expressions have the same outcome on all
rows in every mode. -/
theorem agreement_exact_up_to_signs (apart : BoundEntry.Apart tables) {written written' : Expr}
    (ha : written.resolve tables = .ok a) (hb : written'.resolve tables = .ok b)
    (h : a.agrees b = true) :
    a.literals.map Value.unsigned = b.literals.map Value.unsigned ∧
      (a.literals = b.literals →
        ∀ mode rows, a.evaluate mode rows = b.evaluate mode rows) :=
  ⟨(agree_of_agrees h).unsigned_literals, fun hliterals => evaluate_eq_of_agrees apart
    (resolvedIn_of_resolve ha) (resolvedIn_of_resolve hb) hliterals h⟩

/-- The column `k` of a table `t` times 2.5, once under the qualifier `T` and with an alias. -/
theorem agreement_of_qualified_product :
    let tables : List BoundEntry := [⟨⟨"t", none⟩, ⟨"t", [⟨"k", .integer⟩]⟩⟩]
    let times (ref : ColumnRef) (label : Option String) : Expr :=
      .binary (.arithmetic .multiply) (.column ref none)
        (.literal (.real ⟨0x4004000000000000⟩) none) label
    let found : ColumnRef := ⟨"k", some "t", some .integer, some 0⟩
    BoundEntry.Apart tables ∧
      resolve tables (times (.written none "K") none) = .ok (times found none) ∧
      resolve tables (times (.written (some "T") "k") (some "y")) = .ok (times found (some "y")) ∧
      (times found none).agrees (times found (some "y")) = true ∧
      ∀ mode rows, (times found none).evaluate mode rows =
        (times found (some "y")).evaluate mode rows := by
  intro tables times found
  have apart : BoundEntry.Apart tables := List.pairwise_singleton _ _
  have plain : resolve tables (times (.written none "K") none) = .ok (times found none) := rfl
  have named : resolve tables (times (.written (some "T") "k") (some "y")) =
      .ok (times found (some "y")) := rfl
  have agree : (times found none).agrees (times found (some "y")) = true := by decide
  exact ⟨apart, plain, named, agree, (agreement_exact_up_to_signs apart plain named agree).2 rfl⟩

/-- Not all resolved expressions that agree have equal outcomes: the two zeros agree. -/
theorem not_forall_evaluate_eq_of_agrees :
    ¬∀ (tables : List BoundEntry) (written written' a b : Expr), BoundEntry.Apart tables →
      written.resolve tables = .ok a → written'.resolve tables = .ok b → a.agrees b = true →
        ∀ mode rows, a.evaluate mode rows = b.evaluate mode rows := by
  intro h
  let zero : Expr := .literal (.real ⟨0⟩) none
  let opposite : Expr := .literal (.real ⟨0x8000000000000000⟩) none
  have hzeros := h [] zero opposite zero opposite List.Pairwise.nil rfl rfl (by decide) .full []
  exact absurd hzeros (by decide)

end RelQuery.Expr

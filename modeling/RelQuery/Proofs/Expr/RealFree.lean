import RelQuery.Proofs.Expr.Evaluation
import RelQuery.Proofs.Expr.Resolved
import RelQuery.Proofs.Value.Operations

/-!
# Expressions without reals

An expression without REAL literals, columns and conversions, and without averages, has no real for
its value.  Among its literals no two are zeros of different signs.
-/

namespace RelQuery.Expr

/-- Nothing in the expression is a real or makes one. -/
def realFree : Expr → Bool
  | literal value _ => !value.isReal
  | column ref _ => ref.columnType != some .real
  | binary _ left right _ => left.realFree && right.realFree
  | negate operand _ => operand.realFree
  | call f arg _ => f != .conversion .real && f != .aggregate .avg && arg.realFree
  | bareCall f _ => f != .aggregate .avg

/-- A real-free expression is no average. -/
lemma aggregate?_ne_avg {e : Expr} (h : e.realFree = true) : e.aggregate? ≠ some .avg := by
  unfold aggregate? function?
  cases e with
  | call f arg label =>
    simp only [realFree, Bool.and_eq_true, bne_iff_ne] at h
    cases f <;> simp_all [Function.aggregate?]
  | bareCall f label =>
    simp only [realFree, bne_iff_ne] at h
    cases f <;> simp_all [Function.aggregate?]
  | _ => simp

/-- The parts of a real-free expression are real-free. -/
lemma realFree_of_mem_parts {e : Expr} (h : e.realFree = true) :
    ∀ part ∈ e.parts, part.realFree = true := by
  refine forall_parts (fun op left right label h => ?_) (fun operand label h => h)
    (fun f arg label h => ?_) h
  · simpa [realFree] using h
  · simp only [realFree, Bool.and_eq_true] at h
    exact h.2

/-! ## Literals -/

/-- The literals of the expression, from left to right. -/
def literals : Expr → List Value
  | literal value _ => [value]
  | column .. | bareCall .. => []
  | binary _ left right _ => left.literals ++ right.literals
  | negate operand _ => operand.literals
  | call _ arg _ => arg.literals

/-- No literal of the expression is a real. -/
def ExactLiterals (e : Expr) : Prop :=
  ∀ value ∈ e.literals, value.isReal = false

instance (e : Expr) : Decidable e.ExactLiterals :=
  inferInstanceAs (Decidable (∀ value ∈ e.literals, value.isReal = false))

/-- The literals of both operands are exact when those of the operation are. -/
lemma exactLiterals_binary {op : BinaryOp} {left right : Expr} {label : Option String} :
    (binary op left right label).ExactLiterals ↔ left.ExactLiterals ∧ right.ExactLiterals := by
  simp only [ExactLiterals, literals, List.mem_append]
  exact ⟨fun h => ⟨fun value hvalue => h value (Or.inl hvalue),
    fun value hvalue => h value (Or.inr hvalue)⟩, fun h value hvalue => hvalue.elim (h.1 value)
      (h.2 value)⟩

/-- A real-free expression has exact literals. -/
lemma exactLiterals_of_realFree {e : Expr} (h : e.realFree = true) : e.ExactLiterals := by
  induction e with
  | literal value label => simpa [ExactLiterals, literals, realFree] using h
  | column ref label => simp [ExactLiterals, literals]
  | binary op left right label ihLeft ihRight =>
    rw [realFree, Bool.and_eq_true] at h
    exact exactLiterals_binary.mpr ⟨ihLeft h.1, ihRight h.2⟩
  | negate operand label ih => exact ih h
  | call f arg label ih =>
    simp only [realFree, Bool.and_eq_true] at h
    exact ih h.2
  | bareCall f label => simp [ExactLiterals, literals]

/-- The parts of an expression with exact literals have exact literals. -/
lemma ExactLiterals.of_mem_parts {e : Expr} (h : e.ExactLiterals) :
    ∀ part ∈ e.parts, part.ExactLiterals :=
  forall_parts (P := ExactLiterals) (fun _ _ _ _ h => exactLiterals_binary.mp h) (fun _ _ h => h)
    (fun _ _ _ h => h) h

/-- The literals of a part are literals of the expression. -/
lemma literals_subset_of_mem_parts (e : Expr) : ∀ part ∈ e.parts, part.literals ⊆ e.literals :=
  forall_parts (P := fun part => part.literals ⊆ e.literals)
    (fun _ _ _ _ h => ⟨fun _ hvalue => h (List.mem_append_left _ hvalue),
      fun _ hvalue => h (List.mem_append_right _ hvalue)⟩)
    (fun _ _ h => h) (fun _ _ _ h => h) (List.Subset.refl e.literals)

/-- Literals of the two expressions that are the same as numbers are the same values, so no two of
them are zeros of different signs. -/
def SameSigns (a b : Expr) : Prop :=
  ∀ v ∈ a.literals, ∀ w ∈ b.literals, v.same w = true → v = w

instance (a b : Expr) : Decidable (a.SameSigns b) :=
  inferInstanceAs (Decidable (∀ v ∈ a.literals, ∀ w ∈ b.literals, v.same w = true → v = w))

/-- Where the literals of one expression are exact there are no zeros of different signs. -/
lemma sameSigns_of_exactLiterals {a b : Expr} (h : a.ExactLiterals ∨ b.ExactLiterals) :
    a.SameSigns b :=
  fun v hv w hw => Value.eq_of_same (h.imp (fun exact => exact v hv) fun exact => exact w hw)

/-- Expressions with fewer literals have the same signs where the others have. -/
lemma SameSigns.mono {a a' b b' : Expr} (h : a.SameSigns b) (ha : a'.literals ⊆ a.literals)
    (hb : b'.literals ⊆ b.literals) : a'.SameSigns b' :=
  fun v hv w hw => h v (ha hv) w (hb hw)

/-- Resolution keeps the literals. -/
lemma literals_resolve {tables : List BoundEntry} {e resolved : Expr}
    (h : e.resolve tables = .ok resolved) : resolved.literals = e.literals := by
  induction e generalizing resolved with
  | literal value label => rw [← Except.ok.inj h]
  | column ref label =>
    obtain ⟨found, -, rfl⟩ := resolve_column_eq_ok.mp h
    rfl
  | binary op left right label ihLeft ihRight =>
    obtain ⟨l, r, hl, hr, rfl⟩ := resolve_binary_eq_ok.mp h
    rw [literals, literals, ihLeft hl, ihRight hr]
  | negate operand label ih =>
    obtain ⟨o, ho, rfl⟩ := resolve_negate_eq_ok.mp h
    rw [literals, literals, ih ho]
  | call f arg label ih =>
    obtain ⟨a, ha, rfl⟩ := resolve_call_eq_ok.mp h
    rw [literals, literals, ih ha]
  | bareCall f label =>
    obtain ⟨-, rfl⟩ := resolve_bareCall_eq_ok.mp h
    rfl

/-! ## Values -/

/-- The value on a row may be a real, as far as the types tell.  An aggregate has its argument for
its value on a row. -/
def realOnRow : Expr → Bool
  | literal value _ => value.isReal
  | column ref _ => ref.columnType == some .real
  | binary (.arithmetic _) left right _ => left.realOnRow || right.realOnRow
  | binary .. => false
  | negate operand _ => operand.realOnRow
  | call (.aggregate _) arg _ => arg.realOnRow
  | call (.conversion target) _ _ => target == .real
  | bareCall .. => false

/-- A real-free expression has no real on any row. -/
lemma realOnRow_of_realFree {e : Expr} (h : e.realFree = true) : e.realOnRow = false := by
  induction e with
  | literal value label => simpa [realFree, realOnRow] using h
  | column ref label => simpa [realFree, realOnRow] using h
  | binary op left right label ihLeft ihRight =>
    rw [realFree, Bool.and_eq_true] at h
    cases op with
    | arithmetic op => rw [realOnRow, ihLeft h.1, ihRight h.2]; rfl
    | _ => rfl
  | negate operand label ih => exact ih h
  | call f arg label ih =>
    simp only [realFree, Bool.and_eq_true, bne_iff_ne] at h
    cases f with
    | aggregate f => exact ih h.2
    | conversion target => simpa [realOnRow] using h.1.1
  | bareCall f label => rfl

/-- An operand that decides AND or OR alone is a truth value. -/
lemma not_real_of_decideAlone {op : LogicalOp} {known value : Value}
    (h : decideAlone op known = .ok (.determined value)) : value.isReal = false := by
  obtain ⟨truth, htruth, hvalue⟩ := Result.map_eq_ok.mp h
  split at hvalue
  · rename_i habsorbing
    obtain rfl := Outcome.determined.inj hvalue
    cases known with
    | real x => simp [Value.truth?] at htruth
    | _ => rfl
  · simp at hvalue

/-- No operation but arithmetic gives a real, and arithmetic gives none on outcomes that are not
real. -/
lemma not_real_of_combine {op : BinaryOp} {l r : Outcome}
    (operands : ∀ f, op = .arithmetic f → (∀ value, l = .determined value → value.isReal = false) ∧
      ∀ value, r = .determined value → value.isReal = false) {value : Value}
    (h : combine op l r = .ok (.determined value)) : value.isReal = false := by
  cases l with
  | determined known =>
    cases r with
    | determined other =>
      obtain ⟨result, hresult, hvalue⟩ := Result.map_eq_ok.mp h
      rw [← Outcome.determined.inj hvalue]
      refine Value.not_real_of_applyOp (fun f hf => ?_) hresult
      exact ⟨(operands f hf).1 known rfl, (operands f hf).2 other rfl⟩
    | undetermined =>
      cases op with
      | logical op => exact not_real_of_decideAlone h
      | _ => simp [combine] at h
  | undetermined =>
    cases r with
    | determined known =>
      cases op with
      | logical op => exact not_real_of_decideAlone h
      | _ => simp [combine] at h
    | undetermined => simp [combine] at h

/-- An expression that is not real by its types has no real for its value, where its columns have
none. -/
theorem not_real_of_realOnRow {mode : Coverage} {rows : List LogicalRow} {e : Expr}
    (htypes : e.realOnRow = false)
    (hcolumns : ∀ ref ∈ e.columns, ref.columnType ≠ some .real → ∀ value,
      columnOutcome mode rows ref = .ok (.determined value) → value.isReal = false) {value : Value}
    (h : e.evaluate mode rows = .ok (.determined value)) : value.isReal = false := by
  induction e generalizing value with
  | literal found label =>
    rw [← Outcome.determined.inj (Except.ok.inj h)]
    exact htypes
  | column ref label =>
    exact hcolumns ref (by simp [columns]) (by simpa [realOnRow] using htypes) value h
  | binary op left right label ihLeft ihRight =>
    obtain ⟨hl, hr⟩ := List.forall_mem_append.mp hcolumns
    obtain ⟨l, r, hleft, hright, hcombine⟩ := evaluate_binary_eq_ok.mp h
    refine not_real_of_combine (fun f hf => ?_) hcombine
    subst hf
    rw [realOnRow, Bool.or_eq_false_iff] at htypes
    exact ⟨fun v hv => ihLeft htypes.1 hl (hv ▸ hleft),
      fun v hv => ihRight htypes.2 hr (hv ▸ hright)⟩
  | negate operand label ih =>
    obtain ⟨o, hoperand, hnegate⟩ := evaluate_negate_eq_ok.mp h
    cases o with
    | undetermined => simp [negateOutcome] at hnegate
    | determined found =>
      obtain ⟨result, hresult, hvalue⟩ := Result.map_eq_ok.mp hnegate
      rw [← Outcome.determined.inj hvalue]
      exact Value.not_real_of_negate (ih htypes hcolumns hoperand) hresult
  | call f arg label ih =>
    obtain ⟨a, harg, hcall⟩ := evaluate_call_eq_ok.mp h
    cases a with
    | undetermined => simp [applyFunction] at hcall
    | determined found =>
      cases f with
      | aggregate f =>
        rw [← Outcome.determined.inj (Except.ok.inj hcall)]
        exact ih htypes hcolumns harg
      | conversion target =>
        obtain ⟨result, hresult, hvalue⟩ := Result.map_eq_ok.mp hcall
        rw [← Outcome.determined.inj hvalue]
        exact Value.not_real_of_convert (by simpa [realOnRow] using htypes) hresult
  | bareCall f label =>
    rw [evaluate, applyBare] at h
    split at h
    · rw [← Outcome.determined.inj (Except.ok.inj h)]
      rfl
    · simp at h

/-- A real-free expression has no real for its value, where its columns have none. -/
theorem not_real_of_evaluate {mode : Coverage} {rows : List LogicalRow} {e : Expr}
    (hfree : e.realFree = true)
    (hcolumns : ∀ ref ∈ e.columns, ref.columnType ≠ some .real → ∀ value,
      columnOutcome mode rows ref = .ok (.determined value) → value.isReal = false) {value : Value}
    (h : e.evaluate mode rows = .ok (.determined value)) : value.isReal = false :=
  not_real_of_realOnRow (realOnRow_of_realFree hfree) hcolumns h

end RelQuery.Expr

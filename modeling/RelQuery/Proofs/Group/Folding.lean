import Mathlib.Algebra.BigOperators.Group.List.Basic
import Mathlib.Algebra.Order.Ring.Int
import RelQuery.Proofs.Group.Runs
import RelQuery.Proofs.Value.Operations

/-!
# Folding a group

The rows of a group are folded member by member.  A count is the number of rows, a sum of integers
is exact as long as it succeeds, and an extreme is the one value that no other lies beyond; so
without averages and reals the value of a member does not depend on the order of the rows.
-/

namespace RelQuery

namespace MemberFold

/-! ## One member -/

/-- The value of one member folded over the values of a group. -/
def foldMember (aggregate : Option Aggregate) : List Value → Result Value
  | [] => close 0 (fresh aggregate)
  | first :: rest => do
    let start ← (fresh aggregate).step true first
    let acc ← rest.foldlM (fun acc value => acc.step false value) start
    close (rest.length + 1) acc

/-- A step keeps the aggregate. -/
lemma aggregate_of_step {acc acc' : MemberFold} {first : Bool} {value : Value}
    (h : acc.step first value = .ok acc') : acc'.aggregate = acc.aggregate := by
  unfold step at h
  split at h
  · rw [← Except.ok.inj h]
    split <;> rfl
  · split at h
    · rw [← Except.ok.inj h]
    · obtain ⟨found, -, rfl⟩ := Result.map_eq_ok.mp h
      rfl

/-- Steps keep the aggregate. -/
lemma aggregate_of_foldlM {values : List Value} {acc acc' : MemberFold}
    (h : values.foldlM (fun acc value => step acc false value) acc = .ok acc') :
    acc'.aggregate = acc.aggregate := by
  induction values generalizing acc with
  | nil =>
    rw [← Result.pure_eq_ok.mp h]
  | cons value rest ih =>
    rw [List.foldlM_cons] at h
    obtain ⟨next, hnext, h⟩ := Result.bind_eq_ok.mp h
    exact (ih h).trans (aggregate_of_step hnext)

/-- An aggregate does not look at which row is the first. -/
lemma step_first {acc : MemberFold} {f : Aggregate} (h : acc.aggregate = some f) (first : Bool)
    (value : Value) : acc.step first value = acc.step false value := by
  unfold step
  rw [h]

/-- An aggregate is folded over the values from the start. -/
lemma foldMember_some (f : Aggregate) (values : List Value) :
    foldMember (some f) values =
      (values.foldlM (fun acc value => step acc false value) (fresh (some f))).bind
        (close values.length) := by
  cases values with
  | nil => rfl
  | cons first rest =>
    rw [foldMember, step_first rfl, List.foldlM_cons]
    cases (fresh (some f)).step false first <;> rfl

/-- A member that is no aggregate keeps the first value. -/
lemma foldMember_none (first : Value) (rest : List Value) :
    foldMember none (first :: rest) = .ok first := by
  have skipped : ∀ (values : List Value) (acc : MemberFold), acc.aggregate = none →
      values.foldlM (fun acc value => step acc false value) acc = .ok acc := by
    intro values
    induction values with
    | nil => exact fun acc _ => rfl
    | cons value rest ih =>
      intro acc hacc
      have hstep : acc.step false value = .ok acc := by
        unfold step
        rw [hacc]
        rfl
      rw [List.foldlM_cons, hstep]
      exact ih acc hacc
  have hstart : (fresh none).step true first = .ok { fresh none with value := first } := rfl
  rw [foldMember, hstart]
  change (rest.foldlM (fun acc value => step acc false value)
    { fresh none with value := first }).bind (close (rest.length + 1)) = _
  rw [skipped rest _ rfl]
  rfl

/-- The accumulated value after one more value, which is skipped when it is NULL. -/
def afterValue (f : Aggregate) (so value : Value) : Result Value :=
  if value.isNull then .ok so else accumulate f so value

/-- A step of an aggregate accumulates the value, or fails as accumulating it does. -/
lemma map_value_step {acc : MemberFold} {f : Aggregate} (hacc : acc.aggregate = some f)
    (value : Value) :
    (acc.step false value).map MemberFold.value = afterValue f acc.value value := by
  unfold step afterValue
  rw [hacc]
  dsimp only
  split
  · rfl
  · cases accumulate f acc.value value <;> rfl

/-- After a step of an aggregate the value is accumulated. -/
lemma afterValue_of_step {acc acc' : MemberFold} {f : Aggregate} (hacc : acc.aggregate = some f)
    {value : Value} (h : acc.step false value = .ok acc') :
    afterValue f acc.value value = .ok acc'.value := by
  rw [← map_value_step hacc, h]
  rfl

/-- What one more value preserves holds of the values that were folded. -/
lemma invariant_of_foldlM {f : Aggregate} {P : List Value → Value → Prop}
    (hstep : ∀ seen so value next, P seen so → value.isReal = false →
      afterValue f so value = .ok next → P (seen ++ [value]) next)
    {values seen : List Value} (noReal : ∀ value ∈ values, value.isReal = false)
    {acc acc' : MemberFold} (hacc : acc.aggregate = some f) (hseen : P seen acc.value)
    (h : values.foldlM (fun acc value => step acc false value) acc = .ok acc') :
    P (seen ++ values) acc'.value := by
  induction values generalizing seen acc with
  | nil =>
    obtain rfl := Result.pure_eq_ok.mp h
    rwa [List.append_nil]
  | cons value rest ih =>
    rw [List.foldlM_cons] at h
    obtain ⟨next, hnext, h⟩ := Result.bind_eq_ok.mp h
    have hnew : P (seen ++ [value]) next.value :=
      hstep seen acc.value value next.value hseen (noReal value List.mem_cons_self)
        (afterValue_of_step hacc hnext)
    have := ih (fun v hv => noReal v (List.mem_cons_of_mem _ hv))
      ((aggregate_of_step hnext).trans hacc) hnew h
    rwa [List.append_assoc, List.singleton_append] at this

/-! ## Sums -/

/-- The integers among some values. -/
def integers (values : List Value) : List Int :=
  values.filterMap fun value =>
    match value with
    | .integer n => some n.toInt
    | _ => none

/-- The value is the sum of the integers, or NULL where there are none. -/
def IsSum (values : List Value) (sum : Value) : Prop :=
  (integers values = [] ∧ sum = .null) ∨
    (integers values ≠ [] ∧ ∃ n, sum = .integer n ∧ n.toInt = (integers values).sum)

/-- The integers of one more value. -/
lemma integers_concat_integer (seen : List Value) (n : Int64) :
    integers (seen ++ [.integer n]) = integers seen ++ [n.toInt] := by
  simp [integers]

/-- NULL adds no integer. -/
lemma integers_concat_null (seen : List Value) : integers (seen ++ [.null]) = integers seen := by
  simp [integers]

/-- One more value that is summed. -/
lemma IsSum.afterValue {seen : List Value} {so value next : Value} (hseen : IsSum seen so)
    (hvalue : value.isReal = false) (h : afterValue .sum so value = .ok next) :
    IsSum (seen ++ [value]) next := by
  cases value with
  | null =>
    obtain rfl := Except.ok.inj h
    rw [IsSum, integers_concat_null]
    exact hseen
  | integer m =>
    have hterm : addTerm so (.integer m) = .ok next := h
    right
    rw [integers_concat_integer]
    refine ⟨by simp, ?_⟩
    rcases hseen with ⟨hnone, rfl⟩ | ⟨-, n, rfl, hn⟩
    · rw [← Except.ok.inj hterm, hnone]
      exact ⟨m, rfl, by simp⟩
    · obtain ⟨found, rfl, hfound⟩ := Value.checked_eq_ok hterm
      exact ⟨found, rfl, by rw [hfound, hn, List.sum_append, List.sum_singleton]⟩
  | real x => simp [Value.isReal] at hvalue
  | text s => simp [MemberFold.afterValue, Value.isNull, accumulate, isSummable] at h
  | boolean b => simp [MemberFold.afterValue, Value.isNull, accumulate, isSummable] at h

/-- A bag of values has one sum. -/
lemma IsSum.eq_of_perm {values values' : List Value} (hvalues : values.Perm values')
    {a b : Value} (ha : IsSum values a) (hb : IsSum values' b) : a = b := by
  have hintegers : (integers values).Perm (integers values') := hvalues.filterMap _
  rcases ha with ⟨hnone, rfl⟩ | ⟨hsome, m, rfl, hm⟩
  · rcases hb with ⟨-, rfl⟩ | ⟨hsome, -⟩
    · rfl
    · exact absurd (List.Perm.nil_eq (hnone ▸ hintegers)).symm hsome
  · rcases hb with ⟨hnone, -⟩ | ⟨-, n, rfl, hn⟩
    · exact absurd (List.Perm.eq_nil (hnone ▸ hintegers)) hsome
    · rw [hintegers.sum_eq, ← hn, Int64.toInt_inj] at hm
      rw [hm]

/-! ## Extremes -/

/-- The value is one that no other lies beyond, on the wanted side, or NULL where there are only
NULLs. -/
def IsExtreme (wanted : Ordering) (values : List Value) (extreme : Value) : Prop :=
  (extreme = .null ∧ ∀ value ∈ values, value = .null) ∨
    (extreme ≠ .null ∧ extreme.isReal = false ∧ extreme ∈ values ∧
      ∀ value ∈ values, value ≠ .null → value.keyOrder extreme ≠ wanted)

/-- A value beyond another one has beyond it only what the other one has. -/
lemma not_beyond_of_beyond {wanted : Ordering} (hwanted : wanted = .lt ∨ wanted = .gt)
    {value extreme other : Value} (h : value.keyOrder extreme = wanted)
    (hother : other.keyOrder extreme ≠ wanted) : other.keyOrder value ≠ wanted := by
  intro hbeyond
  apply hother
  rcases hwanted with rfl | rfl
  · exact Std.TransCmp.lt_trans hbeyond h
  · exact Std.TransCmp.gt_trans hbeyond h

/-- The extreme stays when the new value is NULL or not beyond it. -/
lemma IsExtreme.keep {wanted : Ordering} {seen : List Value} {extreme value : Value}
    (h : IsExtreme wanted seen extreme)
    (hvalue : value ≠ .null → extreme ≠ .null ∧ value.keyOrder extreme ≠ wanted) :
    IsExtreme wanted (seen ++ [value]) extreme := by
  rcases h with ⟨rfl, hall⟩ | ⟨hne, hreal, hmem, hbeyond⟩
  · have hnull : value = .null := by
      by_contra hne
      exact (hvalue hne).1 rfl
    exact Or.inl ⟨rfl, List.forall_mem_append.mpr ⟨hall, List.forall_mem_singleton.mpr hnull⟩⟩
  · exact Or.inr ⟨hne, hreal, List.mem_append_left _ hmem, List.forall_mem_append.mpr
      ⟨hbeyond, List.forall_mem_singleton.mpr fun hsome => (hvalue hsome).2⟩⟩

/-- The new value is the extreme when no other value lies beyond it. -/
lemma isExtreme_append_self {wanted : Ordering} (hwanted : wanted = .lt ∨ wanted = .gt)
    {seen : List Value} {value : Value} (hnull : value ≠ .null) (hreal : value.isReal = false)
    (h : ∀ other ∈ seen, other ≠ .null → other.keyOrder value ≠ wanted) :
    IsExtreme wanted (seen ++ [value]) value := by
  have hself : value.keyOrder value ≠ wanted := by
    rw [Value.keyOrder_self]
    rcases hwanted with rfl | rfl <;> simp
  exact Or.inr ⟨hnull, hreal, List.mem_append_right _ (List.mem_singleton_self _),
    List.forall_mem_append.mpr ⟨h, List.forall_mem_singleton.mpr fun _ => hself⟩⟩

/-- One more value, of which the extreme is picked. -/
lemma IsExtreme.pick {wanted : Ordering} (hwanted : wanted = .lt ∨ wanted = .gt)
    {seen : List Value} {so value next : Value} (hseen : IsExtreme wanted seen so)
    (hvalue : value.isReal = false)
    (h : (if value.isNull then .ok so else pickExtreme wanted so value) = .ok next) :
    IsExtreme wanted (seen ++ [value]) next := by
  by_cases hnull : value = .null
  · subst hnull
    obtain rfl := Except.ok.inj h
    exact hseen.keep fun hne => absurd rfl hne
  · rw [if_neg (by rw [Value.isNull_eq_false.mpr hnull]; simp)] at h
    rcases id hseen with ⟨rfl, hall⟩ | ⟨hne, hreal, -, hbeyond⟩
    · obtain rfl := Except.ok.inj h
      exact isExtreme_append_self hwanted hnull hvalue
        fun other hother hsome => absurd (hall other hother) hsome
    · unfold pickExtreme at h
      rw [if_neg (by rw [Value.isNull_eq_false.mpr hne]; simp)] at h
      obtain ⟨order, horder, rfl⟩ := Result.map_eq_ok.mp h
      rw [Value.compare?_eq_ok hvalue hreal hnull hne horder]
      split
      · rename_i hbeyondOld
        exact isExtreme_append_self hwanted hnull hvalue fun other hother hsome =>
          not_beyond_of_beyond hwanted (Option.some.inj hbeyondOld) (hbeyond other hother hsome)
      · rename_i hnotBeyond
        exact hseen.keep fun _ => ⟨hne, fun heq => hnotBeyond (congrArg some heq)⟩

/-- A bag of values has one extreme. -/
lemma IsExtreme.eq_of_perm {wanted : Ordering} (hwanted : wanted = .lt ∨ wanted = .gt)
    {values values' : List Value} (hvalues : values.Perm values') {a b : Value}
    (ha : IsExtreme wanted values a) (hb : IsExtreme wanted values' b) : a = b := by
  rcases ha with ⟨rfl, hall⟩ | ⟨hneA, hrealA, hmemA, hbeyondA⟩
  · rcases hb with ⟨rfl, -⟩ | ⟨hneB, -, hmemB, -⟩
    · rfl
    · exact absurd (hall b (hvalues.mem_iff.mpr hmemB)) hneB
  · rcases hb with ⟨-, hall⟩ | ⟨hneB, hrealB, hmemB, hbeyondB⟩
    · exact absurd (hall a (hvalues.mem_iff.mp hmemA)) hneA
    · -- neither lies beyond the other
      have hba := hbeyondA b (hvalues.mem_iff.mpr hmemB) hneB
      have hab := hbeyondB a (hvalues.mem_iff.mp hmemA) hneA
      rw [Value.keyOrder_swap] at hba
      refine (Value.keyOrder_eq_iff hrealA hrealB).mp ?_
      rcases hwanted with rfl | rfl <;> cases h : a.keyOrder b <;> simp_all

/-! ## The order of the values -/

/-- What a sum or an extreme has accumulated from some values. -/
def Accumulates (f : Aggregate) (values : List Value) (so : Value) : Prop :=
  match f with
  | .sum => IsSum values so
  | .min => IsExtreme .lt values so
  | .max => IsExtreme .gt values so
  | .count | .avg => True

/-- The accumulated value of a fold. -/
lemma accumulates_of_foldlM {f : Aggregate} {values : List Value}
    (noReal : ∀ value ∈ values, value.isReal = false) {acc : MemberFold}
    (h : values.foldlM (fun acc value => step acc false value) (fresh (some f)) = .ok acc) :
    Accumulates f values acc.value := by
  have hstep : ∀ seen so value next, Accumulates f seen so → value.isReal = false →
      afterValue f so value = .ok next → Accumulates f (seen ++ [value]) next := by
    intro seen so value next hseen hvalue h
    cases f with
    | count => trivial
    | sum => exact IsSum.afterValue hseen hvalue h
    | avg => trivial
    | min => exact IsExtreme.pick (Or.inl rfl) hseen hvalue h
    | max => exact IsExtreme.pick (Or.inr rfl) hseen hvalue h
  have hstart : Accumulates f [] (fresh (some f)).value := by
    cases f with
    | count => trivial
    | sum => exact Or.inl ⟨rfl, rfl⟩
    | avg => trivial
    | min => exact Or.inl ⟨rfl, by simp⟩
    | max => exact Or.inl ⟨rfl, by simp⟩
  exact invariant_of_foldlM hstep noReal rfl hstart h

/-- Without averages and reals a member has the same value over two orders of one bag of values,
where a member that is no aggregate has one value alone. -/
theorem foldMember_eq_of_perm {aggregate : Option Aggregate} (havg : aggregate ≠ some .avg)
    {values values' : List Value} (hvalues : values.Perm values')
    (noReal : ∀ value ∈ values, value.isReal = false)
    (constant : aggregate = none → ∀ value ∈ values, ∀ other ∈ values, value = other)
    {a b : Value} (ha : foldMember aggregate values = .ok a)
    (hb : foldMember aggregate values' = .ok b) : a = b := by
  cases aggregate with
  | none =>
    cases values with
    | nil =>
      rw [← hvalues.nil_eq, ha] at hb
      exact Except.ok.inj hb
    | cons first rest =>
      cases values' with
      | nil => exact absurd hvalues.eq_nil (List.cons_ne_nil _ _)
      | cons first' rest' =>
        rw [foldMember_none] at ha hb
        rw [← Except.ok.inj ha, ← Except.ok.inj hb]
        exact constant rfl first List.mem_cons_self first' (hvalues.mem_iff.mpr List.mem_cons_self)
  | some f =>
    have noReal' : ∀ value ∈ values', value.isReal = false := fun value hvalue =>
      noReal value (hvalues.mem_iff.mpr hvalue)
    rw [foldMember_some] at ha hb
    obtain ⟨acc, hacc, ha⟩ := Result.bind_eq_ok'.mp ha
    obtain ⟨acc', hacc', hb⟩ := Result.bind_eq_ok'.mp hb
    have accumulated := accumulates_of_foldlM noReal hacc
    have accumulated' := accumulates_of_foldlM noReal' hacc'
    unfold close at ha hb
    rw [aggregate_of_foldlM hacc, fresh] at ha
    rw [aggregate_of_foldlM hacc', fresh] at hb
    cases f with
    | count =>
      rw [hvalues.length_eq] at ha
      exact Except.ok.inj (ha.symm.trans hb)
    | sum =>
      rw [← Except.ok.inj ha, ← Except.ok.inj hb]
      exact IsSum.eq_of_perm hvalues accumulated accumulated'
    | avg => exact absurd rfl havg
    | min =>
      rw [← Except.ok.inj ha, ← Except.ok.inj hb]
      exact IsExtreme.eq_of_perm (Or.inl rfl) hvalues accumulated accumulated'
    | max =>
      rw [← Except.ok.inj ha, ← Except.ok.inj hb]
      exact IsExtreme.eq_of_perm (Or.inr rfl) hvalues accumulated accumulated'

/-! ## Rows of members -/

/-- A step over a row is one step for every member. -/
lemma stepRow_eq_ok {first : Bool} {accs accs' : List MemberFold} {row : Row}
    (hlength : row.length = accs.length) (h : stepRow first accs row = .ok accs') :
    accs'.length = accs.length ∧ ∀ (j : Nat) (acc : MemberFold), accs[j]? = some acc →
      ∃ acc', accs'[j]? = some acc' ∧ acc.step first (row.getD j .null) = .ok acc' := by
  induction accs generalizing row accs' with
  | nil =>
    obtain rfl := List.length_eq_zero_iff.mp hlength
    obtain rfl := Except.ok.inj h
    simp
  | cons acc rest ih =>
    cases row with
    | nil => simp at hlength
    | cons value values =>
      rw [stepRow] at h
      obtain ⟨next, hnext, h⟩ := Result.bind_eq_ok.mp h
      obtain ⟨others, hothers, h⟩ := Result.bind_eq_ok.mp h
      obtain rfl := Result.pure_eq_ok.mp h
      obtain ⟨hsame, hsteps⟩ := ih (by simpa using hlength) hothers
      refine ⟨by simp [hsame], fun j found hfound => ?_⟩
      cases j with
      | zero =>
        obtain rfl : acc = found := by simpa using hfound
        exact ⟨next, rfl, hnext⟩
      | succ j => exact hsteps j found (by simpa using hfound)

/-- What a member is after a step over a row it is by its own step. -/
lemma exists_of_stepRow {first : Bool} {accs accs' : List MemberFold} {row : Row}
    (hlength : row.length = accs.length) (h : stepRow first accs row = .ok accs') {j : Nat}
    {acc' : MemberFold} (hacc' : accs'[j]? = some acc') :
    ∃ acc, accs[j]? = some acc ∧ acc.step first (row.getD j .null) = .ok acc' := by
  obtain ⟨hsame, hsteps⟩ := stepRow_eq_ok hlength h
  have hlt : j < accs.length := hsame ▸ (List.getElem?_eq_some_iff.mp hacc').1
  obtain ⟨found, hfound, hstep⟩ := hsteps j _ (List.getElem?_eq_getElem hlt)
  obtain rfl := Option.some.inj (hacc'.symm.trans hfound)
  exact ⟨_, List.getElem?_eq_getElem hlt, hstep⟩

/-- Folding rows folds every member over its values in the rows. -/
lemma foldRows_eq_ok {rows : List Row} {accs accs' : List MemberFold}
    (widths : ∀ row ∈ rows, row.length = accs.length)
    (h : rows.foldlM (stepRow false) accs = .ok accs') :
    accs'.length = accs.length ∧ ∀ (j : Nat) (acc : MemberFold), accs[j]? = some acc →
      ∃ acc', accs'[j]? = some acc' ∧
        (rows.map (·.getD j .null)).foldlM (fun acc value => step acc false value) acc =
          .ok acc' := by
  induction rows generalizing accs with
  | nil =>
    obtain rfl := Result.pure_eq_ok.mp h
    exact ⟨rfl, fun j acc hacc => ⟨acc, hacc, rfl⟩⟩
  | cons row rest ih =>
    rw [List.foldlM_cons] at h
    obtain ⟨next, hnext, h⟩ := Result.bind_eq_ok.mp h
    obtain ⟨hsame, hstep⟩ := stepRow_eq_ok (widths row List.mem_cons_self) hnext
    obtain ⟨hsame', hrest⟩ :=
      ih (fun other hother => by rw [hsame, widths other (List.mem_cons_of_mem _ hother)]) h
    refine ⟨hsame'.trans hsame, fun j acc hacc => ?_⟩
    obtain ⟨between, hbetween, hfirst⟩ := hstep j acc hacc
    obtain ⟨acc', hacc', hothers⟩ := hrest j between hbetween
    refine ⟨acc', hacc', ?_⟩
    rw [List.map_cons, List.foldlM_cons, hfirst]
    exact hothers

/-- What a member is after some rows it is by its own steps. -/
lemma exists_of_foldRows {rows : List Row} {accs accs' : List MemberFold}
    (widths : ∀ row ∈ rows, row.length = accs.length)
    (h : rows.foldlM (stepRow false) accs = .ok accs') {j : Nat} {acc' : MemberFold}
    (hacc' : accs'[j]? = some acc') :
    ∃ acc, accs[j]? = some acc ∧
      (rows.map (·.getD j .null)).foldlM (fun acc value => step acc false value) acc =
        .ok acc' := by
  obtain ⟨hsame, hfolds⟩ := foldRows_eq_ok widths h
  have hlt : j < accs.length := hsame ▸ (List.getElem?_eq_some_iff.mp hacc').1
  obtain ⟨found, hfound, hfold⟩ := hfolds j _ (List.getElem?_eq_getElem hlt)
  obtain rfl := Option.some.inj (hacc'.symm.trans hfound)
  exact ⟨_, List.getElem?_eq_getElem hlt, hfold⟩

/-- A step over a row fails where that of a member does. -/
lemma stepRow_eq_error {first : Bool} {accs : List MemberFold} {row : Row} {error : Error}
    (hlength : row.length = accs.length) (h : stepRow first accs row = .error error) :
    ∃ (j : Nat) (acc : MemberFold), accs[j]? = some acc ∧
      acc.step first (row.getD j .null) = .error error := by
  induction accs generalizing row with
  | nil => simp [stepRow] at h
  | cons acc rest ih =>
    cases row with
    | nil => simp at hlength
    | cons value values =>
      rw [stepRow] at h
      rcases Result.bind_eq_error.mp h with h | ⟨next, -, h⟩
      · exact ⟨0, acc, rfl, h⟩
      · rcases Result.bind_eq_error.mp h with h | ⟨others, -, h⟩
        · obtain ⟨j, found, hfound, hstep⟩ := ih (by simpa using hlength) h
          exact ⟨j + 1, found, hfound, hstep⟩
        · cases h

/-- Folding rows fails where folding a member over its values in the rows does. -/
lemma foldRows_eq_error {rows : List Row} {accs : List MemberFold} {error : Error}
    (widths : ∀ row ∈ rows, row.length = accs.length)
    (h : rows.foldlM (stepRow false) accs = .error error) :
    ∃ (j : Nat) (acc : MemberFold), accs[j]? = some acc ∧
      (rows.map (·.getD j .null)).foldlM (fun acc value => step acc false value) acc =
        .error error := by
  induction rows generalizing accs with
  | nil => cases h
  | cons row rest ih =>
    have hwidth := widths row List.mem_cons_self
    rw [List.foldlM_cons] at h
    rcases Result.bind_eq_error.mp h with h | ⟨next, hnext, h⟩
    · obtain ⟨j, acc, hacc, hstep⟩ := stepRow_eq_error hwidth h
      refine ⟨j, acc, hacc, ?_⟩
      rw [List.map_cons, List.foldlM_cons, hstep]
      rfl
    · have hsame := (stepRow_eq_ok hwidth hnext).1
      obtain ⟨j, acc', hacc', hrest⟩ :=
        ih (fun other hother => by rw [hsame, widths other (List.mem_cons_of_mem _ hother)]) h
      -- the member that fails later made its first step
      obtain ⟨acc, hacc, hfirst⟩ := exists_of_stepRow hwidth hnext hacc'
      refine ⟨j, acc, hacc, ?_⟩
      rw [List.map_cons, List.foldlM_cons, hfirst]
      exact hrest

end MemberFold

/-- The row of a group has for every member its value over the rows of the group. -/
theorem foldGroup_eq_ok {aggregates : List (Option Aggregate)} {rows : List Row} {found : Row}
    (hrows : rows ≠ []) (widths : ∀ row ∈ rows, row.length = aggregates.length)
    (h : foldGroup aggregates rows = .ok found) :
    found.length = aggregates.length ∧ ∀ j f, aggregates[j]? = some f → ∃ value,
      found[j]? = some value ∧ MemberFold.foldMember f (rows.map (·.getD j .null)) = .ok value := by
  cases rows with
  | nil => exact absurd rfl hrows
  | cons first rest =>
    rw [foldGroup] at h
    obtain ⟨start, hstart, h⟩ := Result.bind_eq_ok.mp h
    obtain ⟨accs, haccs, h⟩ := Result.bind_eq_ok.mp h
    obtain ⟨hsame, hstep⟩ := MemberFold.stepRow_eq_ok
      (by rw [List.length_map, widths first List.mem_cons_self]) hstart
    rw [List.length_map] at hsame
    obtain ⟨hsame', hsteps⟩ := MemberFold.foldRows_eq_ok
      (fun row hrow => by rw [hsame, widths row (List.mem_cons_of_mem _ hrow)]) haccs
    refine ⟨by rw [length_of_mapM h, hsame', hsame], fun j f hf => ?_⟩
    obtain ⟨acc, hacc, hfirst⟩ := hstep j (MemberFold.fresh f) (by simp [hf])
    obtain ⟨acc', hacc', hfolded⟩ := hsteps j acc hacc
    obtain ⟨value, hvalue, hclose⟩ := getElem?_of_mapM h hacc'
    refine ⟨value, hvalue, ?_⟩
    rw [List.map_cons, MemberFold.foldMember, hfirst]
    refine Result.bind_eq_ok.mpr ⟨acc, rfl, Result.bind_eq_ok.mpr ⟨acc', hfolded, ?_⟩⟩
    rwa [List.length_map]

/-- Folding a group fails where folding a member over the rows of the group does. -/
theorem foldGroup_eq_error {aggregates : List (Option Aggregate)} {rows : List Row} {error : Error}
    (widths : ∀ row ∈ rows, row.length = aggregates.length)
    (h : foldGroup aggregates rows = .error error) :
    ∃ j f, aggregates[j]? = some f ∧
      MemberFold.foldMember f (rows.map (·.getD j .null)) = .error error := by
  cases rows with
  | nil => cases h
  | cons first rest =>
    have hwidth : first.length = (aggregates.map MemberFold.fresh).length := by
      rw [List.length_map, widths first List.mem_cons_self]
    have fresh {j : Nat} {acc : MemberFold}
        (hacc : (aggregates.map MemberFold.fresh)[j]? = some acc) :
        ∃ f, aggregates[j]? = some f ∧ MemberFold.fresh f = acc := by
      rwa [List.getElem?_map, Option.map_eq_some_iff] at hacc
    rw [foldGroup] at h
    simp only [List.map_cons, MemberFold.foldMember]
    -- the first row, a later row, or closing a member failed
    rcases Result.bind_eq_error.mp h with h | ⟨start, hstart, h⟩
    · obtain ⟨j, acc, hacc, hstep⟩ := MemberFold.stepRow_eq_error hwidth h
      obtain ⟨f, hf, rfl⟩ := fresh hacc
      exact ⟨j, f, hf, Result.bind_eq_error.mpr (.inl hstep)⟩
    · have hrest : ∀ row ∈ rest, row.length = start.length := fun row hrow => by
        rw [(MemberFold.stepRow_eq_ok hwidth hstart).1, List.length_map,
          widths row (List.mem_cons_of_mem _ hrow)]
      rcases Result.bind_eq_error.mp h with h | ⟨accs, haccs, h⟩
      · obtain ⟨j, acc, hacc, hfold⟩ := MemberFold.foldRows_eq_error hrest h
        obtain ⟨_, hfresh, hstep⟩ := MemberFold.exists_of_stepRow hwidth hstart hacc
        obtain ⟨f, hf, rfl⟩ := fresh hfresh
        exact ⟨j, f, hf, Result.bind_eq_error.mpr
          (.inr ⟨acc, hstep, Result.bind_eq_error.mpr (.inl hfold)⟩)⟩
      · obtain ⟨acc', hmem, hclose⟩ := exists_error_of_mapM h
        obtain ⟨j, hacc'⟩ := List.mem_iff_getElem?.mp hmem
        obtain ⟨acc, hacc, hfold⟩ := MemberFold.exists_of_foldRows hrest haccs hacc'
        obtain ⟨_, hfresh, hstep⟩ := MemberFold.exists_of_stepRow hwidth hstart hacc
        obtain ⟨f, hf, rfl⟩ := fresh hfresh
        refine ⟨j, f, hf, Result.bind_eq_error.mpr (.inr ⟨acc, hstep,
          Result.bind_eq_error.mpr (.inr ⟨acc', hfold, ?_⟩)⟩)⟩
        rwa [List.length_map]

/-- Two orders of one group give the same row, where averages and reals are absent and the members
that are no aggregates have one value alone. -/
lemma foldGroup_eq_of_perm {aggregates : List (Option Aggregate)}
    (noAvg : ∀ f ∈ aggregates, f ≠ some .avg) {rows rows' : List Row} (hperm : rows.Perm rows')
    (hrows : rows ≠ []) (widths : ∀ row ∈ rows, row.length = aggregates.length)
    (noReal : ∀ row ∈ rows, row.NoReal)
    (constant : ∀ j, aggregates[j]? = some none → ∀ row ∈ rows, ∀ other ∈ rows,
      row.getD j .null = other.getD j .null)
    {found found' : Row} (h : foldGroup aggregates rows = .ok found)
    (h' : foldGroup aggregates rows' = .ok found') : found = found' := by
  have hrows' : rows' ≠ [] := fun hnil => hrows (by rw [hnil] at hperm; exact hperm.eq_nil)
  have widths' : ∀ row ∈ rows', row.length = aggregates.length := fun row hrow =>
    widths row (hperm.mem_iff.mpr hrow)
  obtain ⟨hlength, hfound⟩ := foldGroup_eq_ok hrows widths h
  obtain ⟨hlength', hfound'⟩ := foldGroup_eq_ok hrows' widths' h'
  refine List.ext_getElem? fun j => ?_
  cases haggregate : aggregates[j]? with
  | none =>
    rw [List.getElem?_eq_none_iff] at haggregate
    rw [List.getElem?_eq_none (by omega), List.getElem?_eq_none (by omega)]
  | some f =>
    obtain ⟨value, hvalue, hfold⟩ := hfound j f haggregate
    obtain ⟨value', hvalue', hfold'⟩ := hfound' j f haggregate
    have hnotReal : ∀ value ∈ rows.map (·.getD j .null), value.isReal = false := by
      intro value hmem
      obtain ⟨row, hrow, rfl⟩ := List.mem_map.mp hmem
      exact (noReal row hrow).getD j
    have hconstant : f = none → ∀ value ∈ rows.map (·.getD j .null),
        ∀ other ∈ rows.map (·.getD j .null), value = other := by
      rintro rfl value hmem other hmem'
      obtain ⟨row, hrow, rfl⟩ := List.mem_map.mp hmem
      obtain ⟨row', hrow', rfl⟩ := List.mem_map.mp hmem'
      exact constant j haggregate row hrow row' hrow'
    have hsame := MemberFold.foldMember_eq_of_perm (noAvg f (List.mem_of_getElem? haggregate))
      (hperm.map _) hnotReal hconstant hfold hfold'
    rw [hvalue, hvalue', hsame]

/-! ## Grouping -/

/-- Rows that pass the check of their shape are as wide as the projection. -/
lemma widths_of_checkShape {width : Nat} {keys : List Nat} {rows : List Row}
    (h : checkShape width keys rows = .ok ()) : ∀ row ∈ rows, row.length = width := by
  unfold checkShape at h
  split at h
  · simp at h
  · rename_i hnone
    intro row hrow
    simpa using List.find?_eq_none.mp hnone row hrow

/-- Sorting by the keys keeps the rows. -/
lemma mem_sortByKeys {keys : List Nat} {rows : List Row} {row : Row} :
    row ∈ sortByKeys keys rows ↔ row ∈ rows := by
  unfold sortByKeys
  split
  · rfl
  · exact mem_stableSort

/-- A successful grouping folds every group to a row. -/
lemma foldByKeys_eq_ok {p : Projection} {keys : List Nat} {watch : Watch} {rows found : List Row}
    (hrows : rows ≠ []) (h : foldByKeys p keys watch rows = .ok found) :
    (∀ row ∈ rows, row.length = p.length) ∧
      ((sortByKeys keys rows).splitBy (agreeOn keys)).mapM (foldGroup p.aggregates) =
        .ok found := by
  have hnonempty : rows.isEmpty = false := by simpa using hrows
  unfold foldByKeys at h
  dsimp only at h
  rw [hnonempty, if_neg (by simp)] at h
  obtain ⟨_, hshape, h⟩ := Result.bind_eq_ok.mp h
  obtain ⟨_, -, h⟩ := Result.bind_eq_ok.mp h
  refine ⟨widths_of_checkShape hshape, mapM_of_zipIdx h fun group index row hrow => ?_⟩
  obtain ⟨folded, hfolded, hrow⟩ := Result.bind_eq_ok.mp hrow
  obtain ⟨_, -, hrow⟩ := Result.bind_eq_ok.mp hrow
  rwa [← Result.pure_eq_ok.mp hrow]

/-- A grouping fails for the shape of its rows, for the deadline, or for the fold of a group. -/
lemma foldByKeys_eq_error {p : Projection} {keys : List Nat} {watch : Watch} {rows : List Row}
    {error : Error} (h : foldByKeys p keys watch rows = .error error) :
    checkShape p.length keys rows = .error error ∨
      (error = .timeout ∧ ∃ point, watch.tripped point = true) ∨
      ∃ group ∈ (sortByKeys keys rows).splitBy (agreeOn keys),
        (∀ row ∈ group, row.length = p.length) ∧ foldGroup p.aggregates group = .error error := by
  have timeout {point : Checkpoint} (hpoll : watch.poll point = .error error) :
      error = .timeout ∧ ∃ point, watch.tripped point = true := by
    unfold Watch.poll at hpoll
    split at hpoll
    · rename_i htripped
      exact ⟨(Except.error.inj hpoll).symm, point, htripped⟩
    · cases hpoll
  unfold foldByKeys at h
  dsimp only at h
  split at h
  · cases h
  · rcases Result.bind_eq_error.mp h with h | ⟨_, hshape, h⟩
    · exact .inl h
    · rcases Result.bind_eq_error.mp h with h | ⟨_, -, h⟩
      · exact .inr (.inl (timeout h))
      · obtain ⟨⟨group, index⟩, hgroup, h⟩ := exists_error_of_mapM h
        rcases Result.bind_eq_error.mp h with h | ⟨row, -, h⟩
        · have hgroup := List.fst_mem_of_mem_zipIdx hgroup
          exact .inr (.inr ⟨group, hgroup, fun row hrow => widths_of_checkShape hshape row
            (mem_sortByKeys.mp (mem_of_mem_run hgroup hrow)), h⟩)
        · rcases Result.bind_eq_error.mp h with h | ⟨_, -, h⟩
          · exact .inr (.inl (timeout h))
          · cases h

/-- The row of a group is as wide as the projection. -/
lemma length_of_foldByKeys {p : Projection} {keys : List Nat} {watch : Watch}
    {rows found : List Row} (h : foldByKeys p keys watch rows = .ok found) :
    ∀ row ∈ found, row.length = p.length := by
  intro row hrow
  by_cases hrows : rows = []
  · subst hrows
    rw [← Except.ok.inj h] at hrow
    split at hrow
    · rw [List.mem_singleton.mp hrow, emptyGroup, List.length_map, p.length_aggregates]
    · simp at hrow
  · obtain ⟨widths, hgroups⟩ := foldByKeys_eq_ok hrows h
    obtain ⟨group, hgroup, hfold⟩ := source_of_mem_of_mapM hgroups hrow
    refine ((foldGroup_eq_ok (List.ne_nil_of_mem_splitBy hgroup) (fun member hmember => ?_)
      hfold).1).trans p.length_aggregates
    rw [p.length_aggregates, widths member (mem_sortByKeys.mp (mem_of_mem_run hgroup hmember))]

/-- Without averages and reals, grouping gives the same rows for two orders of one bag, where a
member that is no aggregate has one value for rows that agree in the keys. -/
theorem foldByKeys_eq_of_perm {p : Projection} (noAvg : ∀ f ∈ p.aggregates, f ≠ some .avg)
    {keys : List Nat} {watch watch' : Watch} {rows rows' : List Row} (hperm : rows.Perm rows')
    (noReal : ∀ row ∈ rows, row.NoReal)
    (constant : ∀ j, p.aggregates[j]? = some none → ∀ row ∈ rows, ∀ other ∈ rows,
      agreeOn keys row other = true → row.getD j .null = other.getD j .null)
    {found found' : List Row} (h : foldByKeys p keys watch rows = .ok found)
    (h' : foldByKeys p keys watch' rows' = .ok found') : found = found' := by
  by_cases hrows : rows = []
  · subst hrows
    rw [← hperm.nil_eq] at h'
    exact Except.ok.inj (h.symm.trans h')
  · have hrows' : rows' ≠ [] := fun hnil => hrows (by rw [hnil] at hperm; exact hperm.eq_nil)
    obtain ⟨widths, hgroups⟩ := foldByKeys_eq_ok hrows h
    obtain ⟨-, hgroups'⟩ := foldByKeys_eq_ok hrows' h'
    have noRealAt : ∀ row ∈ rows, row.NoRealAt (OrderKey.ascendingAt keys) :=
      fun row hrow => (noReal row hrow).at _
    rw [groups_eq_classes noRealAt] at hgroups
    rw [groups_eq_classes fun row hrow => noRealAt row (hperm.mem_iff.mpr hrow)] at hgroups'
    refine mapM_eq_of_forall₂ (forall₂_perm_classes hperm) hgroups hgroups'
      fun group hgroup group' hsame row row' hrow hrow' => ?_
    have inside : ∀ row ∈ group, row ∈ rows := fun row => mem_of_mem_class hgroup
    refine foldGroup_eq_of_perm noAvg hsame (List.ne_nil_of_mem_splitBy hgroup)
      (fun row hrow => by rw [p.length_aggregates, widths row (inside row hrow)])
      (fun row hrow => noReal row (inside row hrow)) (fun j hj a ha b hb => ?_) hrow hrow'
    exact constant j hj a (inside a ha) b (inside b hb)
      (agreeOn_of_mem_class noRealAt hgroup ha hb)

end RelQuery

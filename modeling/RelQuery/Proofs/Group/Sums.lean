import Mathlib
import RelQuery.Proofs.Group.Classes
import RelQuery.Proofs.Value.Integers

/-!
# Sums of integers

The sum of a member over a group is accumulated row by row, and every intermediate sum is checked.
So the sum is exact where it is returned, and it overflows where the integers of some first rows
have a sum that does not fit, also when that of all rows fits.  Whether this happens depends on the
order of the rows: it happens in no order when the positive integers fit together and the negative
ones do, and it can be avoided by some order when the sum of all integers fits.
-/

namespace RelQuery

open Value (fitsInt64)

/-! ## Running sums -/

/-- What the value adds to a sum of integers: NULL adds nothing. -/
def Value.addend : Value → Int
  | integer n => n.toInt
  | _ => 0

/-- The first terms have a sum that fits, however many they are. -/
def RunningSumsFit (terms : List Int) : Prop :=
  ∀ n, fitsInt64 (terms.take n).sum = true

/-- The running sums of one more term. -/
lemma runningSumsFit_concat {terms : List Int} {term : Int} :
    RunningSumsFit (terms ++ [term]) ↔
      RunningSumsFit terms ∧ fitsInt64 (terms ++ [term]).sum = true := by
  constructor
  · intro h
    have hfirst (n : Nat) (hn : n ≤ terms.length) : fitsInt64 (terms.take n).sum = true := by
      rw [← List.take_append_of_le_length hn]
      exact h n
    refine ⟨fun n => ?_, ?_⟩
    · rcases le_total n terms.length with hn | hn
      · exact hfirst n hn
      · rw [List.take_of_length_le hn, ← terms.take_length]
        exact hfirst _ le_rfl
    · rw [← (terms ++ [term]).take_length]
      exact h _
  · rintro ⟨hterms, hall⟩ n
    rcases Nat.lt_or_ge terms.length n with hn | hn
    · rwa [List.take_of_length_le (by simpa using hn)]
    · rw [List.take_append_of_le_length hn]
      exact hterms n

namespace MemberFold

/-- The addends of some values have the sum of the integers among them. -/
lemma sum_addends (values : List Value) :
    (values.map Value.addend).sum = (integers values).sum := by
  induction values with
  | nil => rfl
  | cons value rest ih =>
    cases value with
    | integer n => exact congrArg (n.toInt + ·) ih
    | _ => exact (zero_add _).trans ih

/-- A sum that is a value fits. -/
lemma IsSum.fits {values : List Value} {total : Value} (h : IsSum values total) :
    fitsInt64 (values.map Value.addend).sum = true := by
  rw [sum_addends]
  rcases h with ⟨hnone, -⟩ | ⟨-, n, -, hn⟩
  · rw [hnone]
    rfl
  · exact Value.fitsInt64_iff.mpr ⟨n, hn⟩

/-- One more integer or NULL fails to be summed where the sum would not fit. -/
lemma IsSum.afterValue_eq_error {seen : List Value} {so value : Value} {error : Error}
    (hseen : IsSum seen so) (hvalue : value ≠ .null → ∃ n, value = .integer n)
    (h : MemberFold.afterValue .sum so value = .error error) :
    (∃ l r, error = .overflow (.operation l .add r)) ∧
      ¬fitsInt64 ((seen ++ [value]).map Value.addend).sum = true := by
  by_cases hnull : value = .null
  · subst hnull
    cases h
  · obtain ⟨m, rfl⟩ := hvalue hnull
    have hterm : addTerm so (.integer m) = .error error := h
    rcases hseen with ⟨-, rfl⟩ | ⟨-, n, rfl, hn⟩
    · cases hterm
    · obtain ⟨hcause, hlarge⟩ := Value.checked_eq_error_iff.mp hterm
      refine ⟨⟨n, m, hcause⟩, fun hfits => ?_⟩
      obtain ⟨word, hword⟩ := Value.fitsInt64_iff.mp hfits
      rw [sum_addends, integers_concat_integer, List.sum_append, List.sum_singleton, ← hn] at hword
      exact hlarge word hword

/-- One more integer or NULL is summed, or its sum with those before does not fit. -/
lemma step_sum {acc : MemberFold} (haggregate : acc.aggregate = some .sum) {seen : List Value}
    (hseen : IsSum seen acc.value) {value : Value}
    (hvalue : value ≠ .null → ∃ n, value = .integer n) :
    (∃ next, acc.step false value = .ok next ∧ IsSum (seen ++ [value]) next.value) ∨
    (∃ l r, acc.step false value = .error (.overflow (.operation l .add r)) ∧
      ¬fitsInt64 ((seen ++ [value]).map Value.addend).sum = true) := by
  cases hstep : acc.step false value with
  | ok next =>
    have hreal : value.isReal = false := by
      by_cases hnull : value = .null
      · rw [hnull]
        rfl
      · obtain ⟨n, rfl⟩ := hvalue hnull
        rfl
    exact .inl ⟨next, rfl, hseen.afterValue hreal (afterValue_of_step haggregate hstep)⟩
  | error error =>
    have hfailed : afterValue .sum acc.value value = .error error := by
      rw [← map_value_step haggregate, hstep]
      rfl
    obtain ⟨⟨l, r, rfl⟩, hlarge⟩ := hseen.afterValue_eq_error hvalue hfailed
    exact .inr ⟨l, r, rfl, hlarge⟩

/-- Integers are folded to their sum where the running sums fit, and overflow where they do not. -/
lemma foldlM_sum {values : List Value} (integral : Integral values) :
    (∃ acc, values.foldlM (fun acc value => step acc false value) (fresh (some .sum)) = .ok acc ∧
      IsSum values acc.value ∧ RunningSumsFit (values.map Value.addend)) ∨
    (∃ l r, values.foldlM (fun acc value => step acc false value) (fresh (some .sum)) =
      .error (.overflow (.operation l .add r)) ∧ ¬RunningSumsFit (values.map Value.addend)) := by
  induction values using List.reverseRecOn with
  | nil =>
    refine .inl ⟨fresh (some .sum), rfl, .inl ⟨rfl, rfl⟩, fun n => ?_⟩
    rw [List.map_nil, List.take_nil]
    rfl
  | append_singleton seen value ih =>
    have hnew : RunningSumsFit ((seen ++ [value]).map Value.addend) ↔
        RunningSumsFit (seen.map Value.addend) ∧
          fitsInt64 ((seen ++ [value]).map Value.addend).sum = true := by
      rw [List.map_append, List.map_singleton]
      exact runningSumsFit_concat
    rw [List.foldlM_append, hnew]
    rcases ih fun v hv => integral v (List.mem_append_left _ hv) with
      ⟨acc, hacc, hseen, hfit⟩ | ⟨l, r, hoverflow, hunfit⟩
    · rcases step_sum (aggregate_of_foldlM hacc) hseen (integral value (by simp)) with
        ⟨next, hstep, hsum⟩ | ⟨l, r, hstep, hlarge⟩
      · exact .inl ⟨next, Result.bind_eq_ok.mpr ⟨acc, hacc, Result.bind_eq_ok.mpr
          ⟨next, hstep, rfl⟩⟩, hsum, hfit, hsum.fits⟩
      · exact .inr ⟨l, r, Result.bind_eq_error.mpr (.inr ⟨acc, hacc, Result.bind_eq_error.mpr
          (.inl hstep)⟩), fun hboth => hlarge hboth.2⟩
    · -- the fold has stopped before the last value
      exact .inr ⟨l, r, Result.bind_eq_error.mpr (.inl hoverflow), fun hboth => hunfit hboth.1⟩

/-- The sum of a member that sums integers, or the overflow. -/
lemma foldMember_sum {values : List Value} (integral : Integral values) :
    (∃ total, foldMember (some .sum) values = .ok total ∧ IsSum values total ∧
      RunningSumsFit (values.map Value.addend)) ∨
    (∃ l r, foldMember (some .sum) values = .error (.overflow (.operation l .add r)) ∧
      ¬RunningSumsFit (values.map Value.addend)) := by
  rw [foldMember_some]
  rcases foldlM_sum integral with ⟨acc, hacc, hsum, hfit⟩ | ⟨l, r, hoverflow, hunfit⟩
  · refine .inl ⟨acc.value, ?_, hsum, hfit⟩
    have haggregate : acc.aggregate = some .sum := aggregate_of_foldlM hacc
    rw [hacc]
    change close values.length acc = .ok acc.value
    rw [close, haggregate]
  · refine .inr ⟨l, r, ?_, hunfit⟩
    rw [hoverflow]
    rfl

end MemberFold

/-! ## Orders -/

section Orders

variable {α : Type} {addend : α → Int} {l : List α}

/-- Where a sum fits before some terms and after them, it fits after one of them. -/
lemma exists_next_term (hl : l ≠ []) (haddend : ∀ a ∈ l, fitsInt64 (addend a) = true) {sum : Int}
    (hsum : fitsInt64 sum = true) (htotal : fitsInt64 (sum + (l.map addend).sum) = true) :
    ∃ a ∈ l, fitsInt64 (sum + addend a) = true := by
  obtain ⟨first, rest, rfl⟩ := List.exists_cons_of_ne_nil hl
  rw [List.map_cons, List.sum_cons] at htotal
  simp only [fitsInt64, Bool.and_eq_true, decide_eq_true_eq] at *
  rcases lt_or_ge sum 0 with hnegative | hnonneg
  · by_cases hup : ∃ a ∈ first :: rest, 0 ≤ addend a
    · obtain ⟨a, ha, hsign⟩ := hup
      have ha' := haddend a ha
      exact ⟨a, ha, by omega⟩
    · -- all terms are negative, so the sum falls to the total
      simp only [not_exists, not_and, not_le] at hup
      have hrest : (rest.map addend).sum ≤ 0 :=
        (List.sum_le_card_nsmul _ 0 (List.forall_mem_map.mpr fun a ha =>
          (hup a (List.mem_cons_of_mem _ ha)).le)).trans_eq (smul_zero _)
      have hfirst := hup first List.mem_cons_self
      exact ⟨first, List.mem_cons_self, by omega⟩
  · by_cases hdown : ∃ a ∈ first :: rest, addend a < 0
    · obtain ⟨a, ha, hsign⟩ := hdown
      have ha' := haddend a ha
      exact ⟨a, ha, by omega⟩
    · -- no term is negative, so the sum rises to the total
      simp only [not_exists, not_and, not_lt] at hdown
      have hrest : 0 ≤ (rest.map addend).sum := List.sum_nonneg (List.forall_mem_map.mpr
        fun a ha => hdown a (List.mem_cons_of_mem _ ha))
      have hfirst := hdown first List.mem_cons_self
      exact ⟨first, List.mem_cons_self, by omega⟩

/-- From a sum that fits to a total that fits some order leads through sums that fit. -/
lemma exists_order_from {sum : Int} (haddend : ∀ a ∈ l, fitsInt64 (addend a) = true)
    (hsum : fitsInt64 sum = true) (htotal : fitsInt64 (sum + (l.map addend).sum) = true) :
    ∃ order : List α, order.Perm l ∧
      ∀ n, fitsInt64 (sum + ((order.map addend).take n).sum) = true := by
  induction hlength : l.length generalizing l sum with
  | zero =>
    refine ⟨[], by rw [List.length_eq_zero_iff.mp hlength], fun n => ?_⟩
    rwa [List.map_nil, List.take_nil, List.sum_nil, add_zero]
  | succ length ih =>
    have hl : l ≠ [] := List.length_pos_iff.mp (by omega)
    obtain ⟨a, ha, hnext⟩ := exists_next_term hl haddend hsum htotal
    obtain ⟨before, after, rfl⟩ := List.append_of_mem ha
    have hperm : (before ++ a :: after).Perm (a :: (before ++ after)) := List.perm_middle
    rw [(hperm.map addend).sum_eq, List.map_cons, List.sum_cons, ← add_assoc] at htotal
    obtain ⟨order, horder, hfits⟩ := ih
      (fun b hb => haddend b (hperm.mem_iff.mpr (List.mem_cons_of_mem _ hb))) hnext htotal
      (by simpa [hperm.length_eq] using hlength)
    refine ⟨a :: order, (horder.cons a).trans hperm.symm, fun n => ?_⟩
    cases n with
    | zero => rwa [List.take_zero, List.sum_nil, add_zero]
    | succ n =>
      rw [List.map_cons, List.take_succ_cons, List.sum_cons, ← add_assoc]
      exact hfits n

/-- The running sums fit in some order when the sum of all terms fits. -/
lemma exists_runningSumsFit_iff (haddend : ∀ a ∈ l, fitsInt64 (addend a) = true) :
    (∃ order : List α, order.Perm l ∧ RunningSumsFit (order.map addend)) ↔
      fitsInt64 (l.map addend).sum = true := by
  constructor
  · rintro ⟨order, horder, hfits⟩
    rw [← (horder.map addend).sum_eq, ← (order.map addend).take_length]
    exact hfits _
  · intro htotal
    have hstart : fitsInt64 0 = true := rfl
    obtain ⟨order, horder, hfits⟩ := exists_order_from haddend hstart (by rwa [zero_add])
    exact ⟨order, horder, fun n => by simpa using hfits n⟩

/-- First terms have a sum between that of the negative terms and that of the positive ones. -/
lemma sum_take_between (terms : List Int) (n : Nat) :
    (terms.filter (· < 0)).sum ≤ (terms.take n).sum ∧
      (terms.take n).sum ≤ (terms.filter (0 < ·)).sum := by
  induction terms generalizing n with
  | nil => simp
  | cons term rest ih =>
    have hnegative : ((term :: rest).filter (· < 0)).sum =
        min term 0 + (rest.filter (· < 0)).sum := by
      rw [List.filter_cons]
      split
      · rename_i hsign
        rw [List.sum_cons, min_eq_left (of_decide_eq_true hsign).le]
      · rename_i hsign
        rw [min_eq_right (by simpa using hsign), zero_add]
    have hpositive : ((term :: rest).filter (0 < ·)).sum =
        max term 0 + (rest.filter (0 < ·)).sum := by
      rw [List.filter_cons]
      split
      · rename_i hsign
        rw [List.sum_cons, max_eq_left (of_decide_eq_true hsign).le]
      · rename_i hsign
        rw [max_eq_right (by simpa using hsign), zero_add]
    rw [hnegative, hpositive]
    cases n with
    | zero =>
      have hrest := ih 0
      rw [List.take_zero, List.sum_nil] at hrest ⊢
      omega
    | succ n =>
      have hrest := ih n
      rw [List.take_succ_cons, List.sum_cons]
      omega

/-- The running sums fit in every order when the positive terms fit together and the negative ones
do. -/
lemma forall_runningSumsFit_iff :
    (∀ order : List α, order.Perm l → RunningSumsFit (order.map addend)) ↔
      fitsInt64 ((l.map addend).filter (0 < ·)).sum = true ∧
        fitsInt64 ((l.map addend).filter (· < 0)).sum = true := by
  constructor
  · intro h
    -- the terms of one sign come first in some order
    have together (sign : Int → Bool) : fitsInt64 ((l.map addend).filter sign).sum = true := by
      have hfirst := h _ (List.filter_append_perm (sign ∘ addend) l)
        (((l.filter (sign ∘ addend)).map addend).length)
      rwa [List.map_append, List.take_left, ← List.filter_map] at hfirst
    exact ⟨together _, together _⟩
  · rintro ⟨hpositive, hnegative⟩ order horder n
    obtain ⟨hlow, hhigh⟩ := sum_take_between (order.map addend) n
    rw [((horder.map addend).filter _).sum_eq] at hlow hhigh
    simp only [fitsInt64, Bool.and_eq_true, decide_eq_true_eq] at *
    omega

end Orders

/-! ## Grouping -/

/-- The values of a member in the rows of a group. -/
def columnAt (position : Nat) (group : List Row) : List Value :=
  group.map (·.getD position .null)

/-- What the rows of a group add to the sum of a member. -/
def addendsAt (position : Nat) (group : List Row) : List Int :=
  (columnAt position group).map Value.addend

/-- The member is a sum, and its values in the group are integers or NULL. -/
def Projection.SumsIntegers (p : Projection) (position : Nat) (group : List Row) : Prop :=
  p.aggregates[position]? = some (some .sum) ∧ MemberFold.Integral (columnAt position group)

/-- Why a grouping fails. -/
inductive GroupingFails (p : Projection) (keys : List Nat) (watch : Watch) (rows : List Row) :
    Error → Prop
  /-- A row is not as wide as the projection, or a key is no member. -/
  | shape {error : Error} (h : checkShape p.length keys rows = .error error) :
    GroupingFails p keys watch rows error
  /-- The deadline passed. -/
  | deadline {point : Checkpoint} (h : watch.tripped point = true) :
    GroupingFails p keys watch rows .timeout
  /-- A sum of integers has running sums that do not fit. -/
  | overflow {group : List Row} {position : Nat} (l r : Int64)
    (hgroup : group ∈ (sortByKeys keys rows).splitBy (agreeOn keys))
    (hsum : p.SumsIntegers position group) (h : ¬RunningSumsFit (addendsAt position group)) :
    GroupingFails p keys watch rows (.overflow (.operation l .add r))
  /-- A member that is no sum of integers fails. -/
  | member {group : List Row} {position : Nat} {f : Option Aggregate} {error : Error}
    (hgroup : group ∈ (sortByKeys keys rows).splitBy (agreeOn keys))
    (hf : p.aggregates[position]? = some f) (hother : ¬p.SumsIntegers position group)
    (h : MemberFold.foldMember f (columnAt position group) = .error error) :
    GroupingFails p keys watch rows error

/-- What a row adds fits. -/
lemma fitsInt64_addend (value : Value) : fitsInt64 value.addend = true := by
  cases value with
  | integer n => exact Value.fitsInt64_iff.mpr ⟨n, rfl⟩
  | _ => rfl

/-- A sum of integers in the row of a group is exact, and its running sums fit. -/
lemma isSum_of_foldGroup {p : Projection} {group : List Row} {row : Row} (hgroup : group ≠ [])
    (widths : ∀ member ∈ group, member.length = p.length)
    (h : foldGroup p.aggregates group = .ok row) {position : Nat}
    (hsum : p.SumsIntegers position group) :
    RunningSumsFit (addendsAt position group) ∧ ∃ total, row[position]? = some total ∧
      MemberFold.IsSum (columnAt position group) total := by
  obtain ⟨-, hmembers⟩ := foldGroup_eq_ok hgroup (p.length_aggregates ▸ widths) h
  obtain ⟨total, htotal, hfold⟩ := hmembers position _ hsum.1
  change MemberFold.foldMember (some .sum) (columnAt position group) = .ok total at hfold
  rcases MemberFold.foldMember_sum hsum.2 with ⟨found, hfound, hexact, hfit⟩ | ⟨l, r, hfound, -⟩
  · obtain rfl := Except.ok.inj (hfound.symm.trans hfold)
    exact ⟨hfit, found, htotal, hexact⟩
  · cases hfound.symm.trans hfold

/-- A grouping fails for one of these reasons. -/
lemma groupingFails_of_foldByKeys {p : Projection} {keys : List Nat} {watch : Watch}
    {rows : List Row} {error : Error} (h : foldByKeys p keys watch rows = .error error) :
    GroupingFails p keys watch rows error := by
  rcases foldByKeys_eq_error h with hshape | ⟨rfl, point, hpoint⟩ | ⟨group, hgroup, widths, hfold⟩
  · exact .shape hshape
  · exact .deadline hpoint
  · obtain ⟨position, f, hf, hfold⟩ := foldGroup_eq_error (p.length_aggregates ▸ widths) hfold
    change MemberFold.foldMember f (columnAt position group) = .error error at hfold
    by_cases hsum : p.SumsIntegers position group
    · obtain rfl := Option.some.inj (hf.symm.trans hsum.1)
      rcases MemberFold.foldMember_sum hsum.2 with ⟨total, hfound, -⟩ | ⟨l, r, hfound, hunfit⟩
      · cases hfound.symm.trans hfold
      · obtain rfl := Except.error.inj (hfound.symm.trans hfold)
        exact .overflow l r hgroup hsum hunfit
    · exact .member hgroup hf hsum hfold

/-- A sum of integers in the row of a group is the exact one.  A grouping with such sums succeeds
only where their running sums fit, and fails with an overflow where they do not, unless it fails for
the shape of its rows, the deadline or another member.  The running sums fit in every order of the
rows when the positive integers fit together and the negative ones do, and in some order when the
sum of all integers fits. -/
theorem foldByKeys_sums (p : Projection) (keys : List Nat) (watch : Watch) (rows : List Row) :
    (∀ found, foldByKeys p keys watch rows = .ok found → ∀ (i : Nat) (group : List Row),
      ((sortByKeys keys rows).splitBy (agreeOn keys))[i]? = some group →
        ∃ row, found[i]? = some row ∧ ∀ position, p.SumsIntegers position group →
          RunningSumsFit (addendsAt position group) ∧ ∃ total, row[position]? = some total ∧
            MemberFold.IsSum (columnAt position group) total) ∧
    (∀ error, foldByKeys p keys watch rows = .error error →
      GroupingFails p keys watch rows error) ∧
    ∀ (position : Nat) (group : List Row),
      ((∀ order : List Row, order.Perm group → RunningSumsFit (addendsAt position order)) ↔
        fitsInt64 ((addendsAt position group).filter (0 < ·)).sum = true ∧
          fitsInt64 ((addendsAt position group).filter (· < 0)).sum = true) ∧
      ((∃ order : List Row, order.Perm group ∧ RunningSumsFit (addendsAt position order)) ↔
        fitsInt64 (addendsAt position group).sum = true) := by
  refine ⟨fun found h i group hgroup => ?_, fun error => groupingFails_of_foldByKeys,
    fun position group => ?_⟩
  · have hmem := List.mem_of_getElem? hgroup
    have hgroup' := List.ne_nil_of_mem_splitBy hmem
    have inside : ∀ member ∈ group, member ∈ rows := fun member hmember =>
      mem_sortByKeys.mp (mem_of_mem_run hmem hmember)
    have hrows : rows ≠ [] :=
      List.ne_nil_of_mem (inside _ (List.head_mem hgroup'))
    obtain ⟨widths, hgroups⟩ := foldByKeys_eq_ok hrows h
    obtain ⟨row, hrow, hfold⟩ := getElem?_of_mapM hgroups hgroup
    exact ⟨row, hrow, fun position => isSum_of_foldGroup hgroup'
      (fun member hmember => widths member (inside member hmember)) hfold⟩
  · simp only [addendsAt, columnAt, List.map_map]
    exact ⟨forall_runningSumsFit_iff,
      exists_runningSumsFit_iff fun row _ => fitsInt64_addend _⟩

/-- Not every sum that fits is returned: after the greatest integer the next one overflows, although
the third one takes it back. -/
theorem not_forall_foldByKeys_sums :
    ¬∀ (p : Projection) (rows : List Row), (∀ row ∈ rows, row.length = p.length) →
      (∀ position f, p.aggregates[position]? = some f → p.SumsIntegers position rows) →
      (∀ position, fitsInt64 (addendsAt position rows).sum = true) →
        ∃ found, foldByKeys p [] .never rows = .ok found := by
  intro h
  let p : Projection := ⟨[.call (.aggregate .sum) (.column (.written none "x") none) none], []⟩
  let rows : List Row := [[.integer Int64.maxValue], [.integer 1], [.integer (-1)]]
  have sums : ∀ position f, p.aggregates[position]? = some f → p.SumsIntegers position rows := by
    intro position f hf
    cases position with
    | zero => exact ⟨rfl, by simp [columnAt, rows, MemberFold.Integral]⟩
    | succ position => cases hf
  have fits (position : Nat) : fitsInt64 (addendsAt position rows).sum = true := by
    cases position with
    | zero => decide
    | succ position => rfl
  obtain ⟨found, hfound⟩ := h p rows (by decide) sums fits
  have overflow : foldByKeys p [] .never rows =
      .error (.overflow (.operation Int64.maxValue .add 1)) := by cbv
  cases overflow.symm.trans hfound

end RelQuery

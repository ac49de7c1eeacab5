import RelQuery.Proofs.Engine.Distinct
import RelQuery.Proofs.Group.Folding
import RelQuery.Proofs.Value.Ranks

/-!
# Representatives of alike rows

Grouping by all columns and removing duplicates both keep one row for many.  Grouping goes by the
order of sorting and by `alike`, which on rows without NaNs bring together what is alike, so one row
of each class of alike rows is kept.  Duplicate removal goes by the records of the rows, so it keeps
one row of each class exactly where alike rows are the same.
-/

namespace RelQuery

namespace Row

/-! ## Alike rows -/

/-- The rows are alike, value by value. -/
def Alike (a b : Row) : Prop :=
  List.Forall₂ (fun x y => x.alike y = true) a b

/-- The row has a NaN among its values. -/
def HasNaN (row : Row) : Prop :=
  ∃ value ∈ row, value.isNaN = true

instance (row : Row) : Decidable row.HasNaN :=
  inferInstanceAs (Decidable (∃ value ∈ row, value.isNaN = true))

/-- The row with the signs of its zeros taken away. -/
def unsigned (row : Row) : Row :=
  row.map Value.unsigned

/-- A row that is alike to another has no NaN. -/
lemma Alike.not_hasNaN {a b : Row} (h : a.Alike b) : ¬a.HasNaN := by
  rintro ⟨value, hvalue, hnan⟩
  obtain ⟨other, -, halike⟩ := exists_of_forall₂ h hvalue
  rw [Value.isNaN_eq_false_of_alike halike] at hnan
  exact absurd hnan Bool.noConfusion

/-- Typed rows have values of one type at a position, where positions beyond them hold NULL. -/
lemma exists_fits_getD (columns : List Column) (position : Nat) :
    ∃ type, ∀ row : Row, row.Typed columns → (row.getD position .null).Fits type := by
  cases hcolumn : columns[position]? with
  | none =>
    refine ⟨.integer, fun row typed => ?_⟩
    rw [List.getElem?_eq_none_iff, List.Forall₂.length_eq typed] at hcolumn
    rw [List.getD_eq_getElem?_getD, List.getElem?_eq_none hcolumn]
    exact Value.fits_null .integer
  | some column =>
    refine ⟨column.columnType, fun row typed => ?_⟩
    obtain ⟨hlt, rfl⟩ := List.getElem?_eq_some_iff.mp hcolumn
    have hlt' : position < row.length := List.Forall₂.length_eq typed ▸ hlt
    have hfits := List.Forall₂.get typed hlt hlt'
    rwa [List.getD_eq_getElem?_getD, List.getElem?_eq_getElem hlt', Option.getD_some]

/-- A row without NaNs has none at a position. -/
lemma isNaN_getD {row : Row} (h : ¬row.HasNaN) (position : Nat) :
    (row.getD position .null).isNaN = false := by
  rw [List.getD_eq_getElem?_getD]
  cases hvalue : row[position]? with
  | none => rfl
  | some value =>
    rw [Option.getD_some, ← Bool.not_eq_true]
    exact fun hnan => h ⟨value, List.mem_of_getElem? hvalue, hnan⟩

section Typed

variable {columns : List Column} {a b : Row}

/-- Typed rows without NaNs are alike when they differ at most in the signs of zeros. -/
theorem alike_iff_unsigned (ha : a.Typed columns) (hb : b.Typed columns) (hnanA : ¬a.HasNaN)
    (hnanB : ¬b.HasNaN) : a.Alike b ↔ a.unsigned = b.unsigned := by
  induction columns generalizing a b with
  | nil =>
    cases ha
    cases hb
    exact ⟨fun _ => rfl, fun _ => List.Forall₂.nil⟩
  | cons column columns ih =>
    cases ha with
    | @cons _ x _ a hx ha =>
    cases hb with
    | @cons _ y _ b hy hb =>
    have hrest := ih ha hb (fun ⟨value, hvalue, hnan⟩ => hnanA ⟨value, .tail _ hvalue, hnan⟩)
      fun ⟨value, hvalue, hnan⟩ => hnanB ⟨value, .tail _ hvalue, hnan⟩
    have hfirst : x.alike y = true ↔ x.unsigned = y.unsigned := by
      rw [Value.alike_iff_ranked hx hy (by simpa using fun hnan => hnanA ⟨x, .head _, hnan⟩)
        (by simpa using fun hnan => hnanB ⟨y, .head _, hnan⟩), Value.ranked_eq_iff_unsigned hx hy]
    simp only [Alike, List.forall₂_cons, hfirst, unsigned, List.map_cons, List.cons.injEq]
    exact and_congr_right fun _ => hrest

/-- The order of rows by the ranks at some positions. -/
def rankOrder (positions : List Nat) : Row → Row → Ordering :=
  lexOrder (positions.map fun position => ⟨fun row => (row.getD position .null).ranked, true⟩)

/-- The ranks together are an order. -/
instance (positions : List Nat) : Std.TransCmp (rankOrder positions) :=
  instTransCmpLexOrder _

/-- Typed rows without NaNs are sorted in the order of their ranks. -/
lemma compareAll_eq_rankOrder (ha : a.Typed columns) (hb : b.Typed columns) (hnanA : ¬a.HasNaN)
    (hnanB : ¬b.HasNaN) (positions : List Nat) :
    OrderKey.compareAll a b (OrderKey.ascendingAt positions) = rankOrder positions a b := by
  induction positions with
  | nil => rfl
  | cons position rest ih =>
    obtain ⟨type, hfits⟩ := exists_fits_getD columns position
    have hfirst := Value.sortOrder_eq_ranked (hfits a ha) (hfits b hb) (isNaN_getD hnanA position)
      (isNaN_getD hnanB position)
    have hcompare : OrderKey.compareAll a b (OrderKey.ascendingAt (position :: rest)) =
        ((a.getD position .null).sortOrder (b.getD position .null)).then
          (OrderKey.compareAll a b (OrderKey.ascendingAt rest)) := rfl
    rw [hcompare, ih, hfirst]
    rfl

/-- Typed rows without NaNs tie where they agree. -/
lemma agreeOn_eq_rankOrder (ha : a.Typed columns) (hb : b.Typed columns) (hnanA : ¬a.HasNaN)
    (hnanB : ¬b.HasNaN) (positions : List Nat) :
    agreeOn positions a b = (rankOrder positions a b == .eq) := by
  have hties : rankOrder positions a b = .eq ↔ ∀ position ∈ positions,
      (a.getD position .null).ranked = (b.getD position .null).ranked := by
    rw [rankOrder, lexOrder_eq_iff (List.forall_mem_map.mpr fun _ _ => Value.isReal_ranked _)
      (List.forall_mem_map.mpr fun _ _ => Value.isReal_ranked _), List.forall_mem_map]
  rw [Bool.eq_iff_iff, beq_iff_eq, hties, agreeOn, List.all_eq_true]
  refine forall₂_congr fun position _ => ?_
  obtain ⟨type, hfits⟩ := exists_fits_getD columns position
  exact Value.alike_iff_ranked (hfits a ha) (hfits b hb) (isNaN_getD hnanA position)
    (isNaN_getD hnanB position)

end Typed

/-! ## Representatives -/

/-- The kept rows represent all rows: each row is alike to a kept one, and no two of the kept rows
are alike. -/
structure Represent (kept rows : List Row) : Prop where
  inside : ∀ row ∈ kept, row ∈ rows
  covers : ∀ row ∈ rows, ∃ other ∈ kept, row.Alike other
  apart : kept.Pairwise fun a b => ¬a.Alike b

/-- The lists have equally many rows, every row of each is alike to one of the other, and no two
rows of either are alike. -/
structure Agree (rows rows' : List Row) : Prop where
  length : rows.length = rows'.length
  left : ∀ row ∈ rows, ∃ other ∈ rows', row.Alike other
  right : ∀ row ∈ rows', ∃ other ∈ rows, row.Alike other
  apartLeft : rows.Pairwise fun a b => ¬a.Alike b
  apartRight : rows'.Pairwise fun a b => ¬a.Alike b

/-- On the rows being alike means being the same: none has a NaN, and no two differ only in the
signs of zeros. -/
structure Exact (rows : List Row) : Prop where
  noNaN : ∀ row ∈ rows, ¬row.HasNaN
  oneZero : ∀ a ∈ rows, ∀ b ∈ rows, a.unsigned = b.unsigned → a = b

variable {columns : List Column} {rows kept kept' : List Row}

/-- Exact rows are alike when they are the same. -/
lemma Exact.alike_iff (exact : Exact rows) (typed : ∀ row ∈ rows, row.Typed columns) {a b : Row}
    (ha : a ∈ rows) (hb : b ∈ rows) : a.Alike b ↔ a = b := by
  rw [alike_iff_unsigned (typed a ha) (typed b hb) (exact.noNaN a ha) (exact.noNaN b hb)]
  exact ⟨exact.oneZero a ha b hb, fun h => h ▸ rfl⟩

/-- Representatives of exact rows are these rows, each once. -/
lemma Represent.nodup_and_mem_iff (represent : Represent kept rows) (exact : Exact rows)
    (typed : ∀ row ∈ rows, row.Typed columns) :
    kept.Nodup ∧ ∀ row, row ∈ kept ↔ row ∈ rows := by
  refine ⟨represent.apart.imp_of_mem fun {a b} ha hb hapart heq => ?_, fun row =>
    ⟨represent.inside row, fun hrow => ?_⟩⟩
  · exact hapart ((exact.alike_iff typed (represent.inside a ha) (represent.inside b hb)).mpr heq)
  · obtain ⟨other, hother, halike⟩ := represent.covers row hrow
    rwa [(exact.alike_iff typed hrow (represent.inside other hother)).mp halike]

/-- Rows that are kept once each represent exact rows. -/
lemma Exact.represent (exact : Exact rows) (typed : ∀ row ∈ rows, row.Typed columns)
    (nodup : kept.Nodup) (hmem : ∀ row, row ∈ kept ↔ row ∈ rows) : Represent kept rows where
  inside row := (hmem row).mp
  covers row hrow := ⟨row, (hmem row).mpr hrow, (exact.alike_iff typed hrow hrow).mpr rfl⟩
  apart := nodup.imp_of_mem fun ha hb hne halike =>
    hne ((exact.alike_iff typed ((hmem _).mp ha) ((hmem _).mp hb)).mp halike)

/-- Two representations of exact rows agree. -/
lemma Represent.agree (represent : Represent kept rows) (represent' : Represent kept' rows)
    (exact : Exact rows) (typed : ∀ row ∈ rows, row.Typed columns) : Agree kept kept' where
  length := by
    obtain ⟨nodup, hmem⟩ := represent.nodup_and_mem_iff exact typed
    obtain ⟨nodup', hmem'⟩ := represent'.nodup_and_mem_iff exact typed
    refine ((List.perm_ext_iff_of_nodup nodup nodup').mpr fun row => ?_).length_eq
    rw [hmem, hmem']
  left row hrow := represent'.covers row (represent.inside row hrow)
  right row hrow := represent.covers row (represent'.inside row hrow)
  apartLeft := represent.apart
  apartRight := represent'.apart

/-- Rows are exact when the rows among them, each kept once, agree with some rows. -/
lemma Agree.exact (agree : Agree kept kept') (typed : ∀ row ∈ rows, row.Typed columns)
    (hmem : ∀ row, row ∈ kept ↔ row ∈ rows) : Exact rows := by
  have noNaN : ∀ row ∈ rows, ¬row.HasNaN := by
    intro row hrow
    obtain ⟨other, -, halike⟩ := agree.left row ((hmem row).mpr hrow)
    exact halike.not_hasNaN
  refine ⟨noNaN, fun a ha b hb hunsigned => ?_⟩
  have alike_of : ∀ c ∈ rows, ∀ d ∈ rows, c.unsigned = d.unsigned → c.Alike d := fun c hc d hd =>
    (alike_iff_unsigned (typed c hc) (typed d hd) (noNaN c hc) (noNaN d hd)).mpr
  -- of two different rows one stands before the other
  by_contra hne
  have symm : Std.Symm fun c d : Row => c ∈ kept ∧ d ∈ kept → c.unsigned ≠ d.unsigned :=
    ⟨fun c d hcd hmem heq => hcd hmem.symm heq.symm⟩
  have apart : kept.Pairwise fun c d => c ∈ kept ∧ d ∈ kept → c.unsigned ≠ d.unsigned :=
    agree.apartLeft.imp fun {c d} hapart hboth heq =>
      hapart (alike_of c ((hmem c).mp hboth.1) d ((hmem d).mp hboth.2) heq)
  have ha' := (hmem a).mpr ha
  have hb' := (hmem b).mpr hb
  exact apart.forall ha' hb' hne ⟨ha', hb'⟩ hunsigned

end Row

/-! ## Grouping by all columns -/

/-- A group whose members are no aggregates is folded to its first row. -/
lemma eq_head_of_foldGroup {aggregates : List (Option Aggregate)}
    (plain : ∀ f ∈ aggregates, f = none) {first : Row} {rest : List Row}
    (widths : ∀ row ∈ first :: rest, row.length = aggregates.length) {found : Row}
    (h : foldGroup aggregates (first :: rest) = .ok found) : found = first := by
  obtain ⟨hlength, hvalues⟩ := foldGroup_eq_ok (List.cons_ne_nil first rest) widths h
  have hfirst := widths first List.mem_cons_self
  refine List.ext_getElem? fun j => ?_
  cases haggregate : aggregates[j]? with
  | none =>
    rw [List.getElem?_eq_none_iff] at haggregate
    rw [List.getElem?_eq_none (by omega), List.getElem?_eq_none (by omega)]
  | some f =>
    obtain ⟨value, hvalue, hfold⟩ := hvalues j f haggregate
    rw [plain f (List.mem_of_getElem? haggregate), List.map_cons,
      MemberFold.foldMember_none] at hfold
    have hlt : j < first.length := hfirst ▸ (List.getElem?_eq_some_iff.mp haggregate).1
    rw [hvalue, ← Except.ok.inj hfold, List.getD_eq_getElem?_getD, List.getElem?_eq_getElem hlt]
    rfl

/-- One row of each class represents the rows, where ties of the order are alike. -/
lemma represent_of_classes {cmp : Row → Row → Ordering} [Std.TransCmp cmp] {rows : List Row}
    (alike_iff : ∀ a ∈ rows, ∀ b ∈ rows, cmp a b = .eq ↔ a.Alike b) {rowOf : List Row → Row}
    (hmem : ∀ group ∈ classes cmp rows, rowOf group ∈ group) :
    Row.Represent ((classes cmp rows).map rowOf) rows where
  inside row hrow := by
    obtain ⟨group, hgroup, rfl⟩ := List.mem_map.mp hrow
    exact mem_of_mem_class hgroup (hmem group hgroup)
  covers row hrow := by
    obtain ⟨group, hgroup, hin⟩ := List.mem_flatten.mp
      ((flatten_classes_perm cmp rows).mem_iff.mpr hrow)
    refine ⟨rowOf group, List.mem_map_of_mem hgroup, (alike_iff row hrow _ ?_).mp ?_⟩
    · exact mem_of_mem_class hgroup (hmem group hgroup)
    · exact tie_of_mem_class hgroup hin (hmem group hgroup)
  apart := by
    rw [List.pairwise_map]
    refine (apart_classes rows).imp_of_mem fun {group group'} hgroup hgroup' hapart halike => ?_
    refine hapart _ (hmem group hgroup) _ (hmem group' hgroup') ((alike_iff _ ?_ _ ?_).mpr halike)
    · exact mem_of_mem_class hgroup (hmem group hgroup)
    · exact mem_of_mem_class hgroup' (hmem group' hgroup')

/-- Grouping by keys that tell all columns apart keeps a representative of every class of alike
rows, where no row has a NaN. -/
theorem represent_of_foldByKeys {p : Projection} (plain : ∀ f ∈ p.aggregates, f = none)
    {keys : List Nat} (hkeys : keys ≠ []) {columns : List Column} {rows : List Row}
    (typed : ∀ row ∈ rows, row.Typed columns) (noNaN : ∀ row ∈ rows, ¬row.HasNaN)
    (agree : ∀ a ∈ rows, ∀ b ∈ rows, agreeOn keys a b = true ↔ a.Alike b) {watch : Watch}
    {kept : List Row} (h : foldByKeys p keys watch rows = .ok kept) : Row.Represent kept rows := by
  by_cases hrows : rows = []
  · subst hrows
    have hempty : keys.isEmpty = false := by simpa using hkeys
    have hnone : foldByKeys p keys watch [] = .ok [] := by simp [foldByKeys, hempty]
    obtain rfl := Except.ok.inj (hnone.symm.trans h)
    exact ⟨by simp, by simp, List.Pairwise.nil⟩
  have hties : ∀ a ∈ rows, ∀ b ∈ rows, agreeOn keys a b = (Row.rankOrder keys a b == .eq) :=
    fun a ha b hb => Row.agreeOn_eq_rankOrder (typed a ha) (typed b hb) (noNaN a ha) (noNaN b hb)
      keys
  have alike_iff : ∀ a ∈ rows, ∀ b ∈ rows, Row.rankOrder keys a b = .eq ↔ a.Alike b := by
    intro a ha b hb
    rw [← agree a ha b hb, hties a ha b hb, beq_iff_eq]
  obtain ⟨widths, hfold⟩ := foldByKeys_eq_ok hrows h
  rw [groups_eq_classes_of (fun a ha b hb => Row.compareAll_eq_rankOrder (typed a ha) (typed b hb)
    (noNaN a ha) (noNaN b hb) keys) hties] at hfold
  obtain ⟨rowOf, hrowOf, rfl⟩ := exists_map_of_mapM hfold
  refine represent_of_classes alike_iff fun group hgroup => ?_
  -- a group is folded to its first row
  obtain ⟨first, rest, rfl⟩ := List.exists_cons_of_ne_nil (List.ne_nil_of_mem_splitBy hgroup)
  rw [eq_head_of_foldGroup plain (fun row hrow => by
    rw [p.length_aggregates, widths row (mem_of_mem_class hgroup hrow)]) (hrowOf _ hgroup)]
  exact List.mem_cons_self

/-- Removing duplicates agrees with grouping by all columns when the rows are exact. -/
theorem agree_iff_exact {p : Projection} (plain : ∀ f ∈ p.aggregates, f = none) {keys : List Nat}
    (hkeys : keys ≠ []) {columns : List Column} {rows : List Row}
    (typed : ∀ row ∈ rows, row.Typed columns)
    (agree : ∀ a ∈ rows, ∀ b ∈ rows, agreeOn keys a b = true ↔ a.Alike b) {watch : Watch}
    {found grouped : List Row} (h : distinctRows rows = .ok found)
    (h' : foldByKeys p keys watch rows = .ok grouped) :
    Row.Agree found grouped ↔ Row.Exact rows := by
  obtain ⟨nodup, hmem⟩ := distinctRows_eq_ok h
  refine ⟨fun agreed => agreed.exact typed hmem, fun exact => ?_⟩
  exact (exact.represent typed nodup hmem).agree
    (represent_of_foldByKeys plain hkeys typed exact.noNaN agree h') exact typed

end RelQuery

import RelQuery.Proofs.Engine.Planned

/-!
# Members of a planned projection

GROUP BY, HAVING and ORDER BY append hidden members to the resolved projection and leave the others
where they are.  Under grouping every member is an aggregate, agrees with a GROUP BY expression, or
reads no column, and every GROUP BY expression is computed at one of the key positions.
-/

namespace RelQuery

namespace Projection

/-- The second projection is the first one with more hidden members, all of the given sort. -/
def Grows (Q : Expr → Prop) (p p' : Projection) : Prop :=
  ∃ added, p' = { p with hidden := p.hidden ++ added } ∧ ∀ e ∈ added, Q e

variable {Q : Expr → Prop} {p p' p'' : Projection}

/-- The members of a grown projection. -/
lemma Grows.exists_members (h : p.Grows Q p') :
    ∃ added, p'.members = p.members ++ added ∧ ∀ e ∈ added, Q e := by
  obtain ⟨added, rfl, hadded⟩ := h
  exact ⟨added, by simp [members], hadded⟩

/-- The visible members stay. -/
lemma Grows.visible_eq (h : p.Grows Q p') : p'.visible = p.visible := by
  obtain ⟨added, rfl, -⟩ := h
  rfl

/-- A projection may stay as it is. -/
lemma Grows.refl (Q : Expr → Prop) (p : Projection) : p.Grows Q p :=
  ⟨[], by simp, by simp⟩

/-- A projection may grow twice. -/
lemma Grows.trans (h : p.Grows Q p') (h' : p'.Grows Q p'') : p.Grows Q p'' := by
  obtain ⟨added, rfl, hadded⟩ := h
  obtain ⟨added', rfl, hadded'⟩ := h'
  refine ⟨added ++ added', by simp, fun e he => ?_⟩
  rcases List.mem_append.mp he with he | he
  · exact hadded e he
  · exact hadded' e he

/-- A hidden member of the given sort. -/
lemma grows_appendHidden {e : Expr} (h : Q e) : p.Grows Q (p.appendHidden e) :=
  ⟨[e], rfl, by simpa using h⟩

/-- A member keeps its position. -/
lemma Grows.getElem? (h : p.Grows Q p') {position : Nat} {e : Expr}
    (he : p.members[position]? = some e) : p'.members[position]? = some e := by
  obtain ⟨added, hmembers, -⟩ := h.exists_members
  rw [hmembers, List.getElem?_append_left (List.getElem?_eq_some_iff.mp he).1, he]

/-- A member is an old one or of the given sort. -/
lemma Grows.mem (h : p.Grows Q p') {e : Expr} (he : e ∈ p'.members) : e ∈ p.members ∨ Q e := by
  obtain ⟨added, hmembers, hadded⟩ := h.exists_members
  rw [hmembers] at he
  exact (List.mem_append.mp he).imp_right (hadded e)

/-- A member that agrees with an expression, at its position. -/
lemma getElem?_of_agreeing? {e : Expr} {position : Nat} (h : p.agreeing? e = some position) :
    ∃ member, p.members[position]? = some member ∧ member.agrees e = true := by
  obtain ⟨hlt, hagrees, -⟩ := List.findIdx?_eq_some_iff_getElem.mp h
  exact ⟨p.members[position], by simp, hagrees⟩

/-- A member computes the expression: it is the expression or agrees with it. -/
def Computes (member e : Expr) : Prop :=
  member = e ∨ member.agrees e = true

/-- The member at the position computes the expression. -/
def ComputesAt (p : Projection) (position : Nat) (e : Expr) : Prop :=
  ∃ member, p.members[position]? = some member ∧ Computes member e

/-- What is computed is computed at a position of a member. -/
lemma ComputesAt.lt {position : Nat} {e : Expr} (h : p.ComputesAt position e) :
    position < p.length := by
  obtain ⟨member, hmember, -⟩ := h
  rw [← length_members]
  exact (List.getElem?_eq_some_iff.mp hmember).1

/-- What is computed at a position stays computed there. -/
lemma Grows.computesAt (h : p.Grows Q p') {position : Nat} {e : Expr}
    (hp : p.ComputesAt position e) : p'.ComputesAt position e := by
  obtain ⟨member, hmember, hcomputes⟩ := hp
  exact ⟨member, h.getElem? hmember, hcomputes⟩

/-- A member that agrees with an expression computes it. -/
lemma computesAt_of_agreeing? {e : Expr} {position : Nat} (h : p.agreeing? e = some position) :
    p.ComputesAt position e := by
  obtain ⟨member, hmember, hagrees⟩ := getElem?_of_agreeing? h
  exact ⟨member, hmember, Or.inr hagrees⟩

/-- A new hidden member computes itself, behind all others. -/
lemma computesAt_appendHidden (p : Projection) (e : Expr) :
    (p.appendHidden e).ComputesAt p.length e :=
  ⟨e, by simp [members_appendHidden, ← length_members], Or.inl rfl⟩

/-- An expression has a position in the projection that it was put into. -/
lemma positionOf_spec {e : Expr} (h : Q e) :
    p.Grows Q (p.positionOf e).2 ∧ (p.positionOf e).2.ComputesAt (p.positionOf e).1 e := by
  unfold positionOf
  cases hposition : p.agreeing? e with
  | some position => exact ⟨Grows.refl Q p, computesAt_of_agreeing? hposition⟩
  | none => exact ⟨grows_appendHidden h, computesAt_appendHidden p e⟩

end Projection

/-- The expression is an aggregate, with no aggregate inside it. -/
def Expr.isPlainAggregate (e : Expr) : Bool :=
  e.aggregate?.isSome && !e.argument?.any Expr.hasAggregate

namespace Query

open Projection

/-- The keys are the positions at which the GROUP BY expressions are computed. -/
lemma groupKeys_spec {Q : Expr → Prop} {groupBy : List Expr} (h : ∀ e ∈ groupBy, Q e)
    (p : Projection) : p.Grows Q (groupKeys p groupBy).2 ∧
      List.Forall₂ (fun e position => (groupKeys p groupBy).2.ComputesAt position e) groupBy
        (groupKeys p groupBy).1 := by
  induction groupBy generalizing p with
  | nil => exact ⟨Grows.refl Q p, List.Forall₂.nil⟩
  | cons e rest ih =>
    obtain ⟨hgrows, hcomputes⟩ := positionOf_spec (p := p) (h e List.mem_cons_self)
    obtain ⟨hrest, hpositions⟩ :=
      ih (fun e' he' => h e' (List.mem_cons_of_mem _ he')) (p.positionOf e).2
    exact ⟨hgrows.trans hrest, List.Forall₂.cons (hrest.computesAt hcomputes) hpositions⟩

/-- HAVING is rewritten to a predicate over groups, with the projection before and after: what a
member agrees with becomes a reference to it, an aggregate becomes a new member, and the rest keeps
its shape. -/
inductive Rewrites : Projection → Expr → Expr → Projection → Prop
  | member {p : Projection} {e : Expr} {position : Nat} (found : p.agreeing? e = some position) :
      Rewrites p e (reference position e) p
  | literal {p : Projection} {value : Value} {label : Option String}
      (new : p.agreeing? (.literal value label) = none) :
      Rewrites p (.literal value label) (.literal value label) p
  | bareAggregate {p : Projection} {f : Aggregate} {label : Option String}
      (new : p.agreeing? (.bareCall (.aggregate f) label) = none) :
      Rewrites p (.bareCall (.aggregate f) label)
        (reference p.length (.bareCall (.aggregate f) label))
        (p.appendHidden (.bareCall (.aggregate f) label))
  | bareConversion {p : Projection} {target : ColumnType} {label : Option String}
      (new : p.agreeing? (.bareCall (.conversion target) label) = none) :
      Rewrites p (.bareCall (.conversion target) label) (.bareCall (.conversion target) label) p
  | aggregate {p : Projection} {f : Aggregate} {arg : Expr} {label : Option String}
      (new : p.agreeing? (.call (.aggregate f) arg label) = none)
      (plain : arg.hasAggregate = false) :
      Rewrites p (.call (.aggregate f) arg label)
        (reference p.length (.call (.aggregate f) arg label))
        (p.appendHidden (.call (.aggregate f) arg label))
  | conversion {p q : Projection} {target : ColumnType} {arg arg' : Expr} {label : Option String}
      (new : p.agreeing? (.call (.conversion target) arg label) = none)
      (inside : Rewrites p arg arg' q) :
      Rewrites p (.call (.conversion target) arg label) (.call (.conversion target) arg' label) q
  | negate {p q : Projection} {operand operand' : Expr} {label : Option String}
      (new : p.agreeing? (.negate operand label) = none) (inside : Rewrites p operand operand' q) :
      Rewrites p (.negate operand label) (.negate operand' label) q
  | binary {p between q : Projection} {op : BinaryOp} {left left' right right' : Expr}
      {label : Option String} (new : p.agreeing? (.binary op left right label) = none)
      (first : Rewrites p left left' between) (second : Rewrites between right right' q) :
      Rewrites p (.binary op left right label) (.binary op left' right' label) q

/-- What HAVING is turned into is one of its rewritings. -/
lemma rewrites_of_groupedPredicate {having predicate : Expr} {p q : Projection}
    (h : groupedPredicate having p = (.ok predicate, q)) : Rewrites p having predicate q := by
  fun_induction groupedPredicate having p generalizing predicate q
  case case1 found =>
    cases h
    exact .member found
  case case2 new =>
    cases h
    exact .literal new
  case case4 f label hf new =>
    cases h
    cases f with
    | aggregate f => exact .bareAggregate new
    | conversion target => simp [Function.isAggregate] at hf
  case case5 f label hf new =>
    cases h
    cases f with
    | aggregate f => exact absurd rfl hf
    | conversion target => exact .bareConversion new
  case case7 f arg label hf plain new =>
    cases h
    cases f with
    | aggregate f => exact .aggregate new (by simpa using plain)
    | conversion target => simp [Function.isAggregate] at hf
  case case9 f arg label hf arg' q hinside new ih =>
    cases h
    cases f with
    | aggregate f => exact absurd rfl hf
    | conversion target => exact .conversion new (ih hinside)
  case case11 hinside new ih =>
    cases h
    exact .negate new (ih hinside)
  case case14 hleft _ _ hright new ihLeft ihRight =>
    cases h
    exact .binary new (ihLeft hleft) (ihRight hright)
  -- the others are errors
  all_goals simp at h

/-- What a member agrees with is rewritten to a reference to it. -/
lemma Rewrites.of_found {having predicate : Expr} {p q : Projection} {position : Nat}
    (rewrites : Rewrites p having predicate q) (found : p.agreeing? having = some position) :
    predicate = reference position having ∧ q = p := by
  cases rewrites with
  | member found' =>
    obtain rfl := Option.some.inj (found'.symm.trans found)
    exact ⟨rfl, rfl⟩
  | _ new => cases new.symm.trans found

/-- HAVING appends aggregates among its parts, and no aggregate inside one. -/
lemma Rewrites.grows {Q : Expr → Prop} {having predicate : Expr} {p q : Projection}
    (rewrites : Rewrites p having predicate q)
    (h : ∀ part ∈ having.parts, part.isPlainAggregate = true → Q part) : p.Grows Q q := by
  induction rewrites with
  | member found => exact Grows.refl _ _
  | literal new => exact Grows.refl _ _
  | bareAggregate new => exact grows_appendHidden (h _ (Expr.self_mem_parts _) rfl)
  | bareConversion new => exact Grows.refl _ _
  | @aggregate p f arg label new plain =>
    have hplain : (Expr.call (.aggregate f) arg label).isPlainAggregate = true :=
      congrArg not plain
    exact grows_appendHidden (h _ (Expr.self_mem_parts _) hplain)
  | conversion new _ ih => exact ih fun part hpart => h part (List.mem_cons_of_mem _ hpart)
  | negate new _ ih => exact ih fun part hpart => h part (List.mem_cons_of_mem _ hpart)
  | binary new _ _ ihLeft ihRight =>
    obtain ⟨hleft, hright⟩ := List.forall_mem_append.mp (List.forall_mem_cons.mp h).2
    exact (ihLeft hleft).trans (ihRight hright)

/-- HAVING, where there is one, is planned by rewriting it. -/
lemma rewrites_of_planHaving {p q : Projection} {having found : Option Expr}
    (h : planHaving p having = .ok (found, q)) :
    (having = none ∧ found = none ∧ q = p) ∨
      ∃ e predicate, having = some e ∧ found = some predicate ∧ Rewrites p e predicate q := by
  cases having with
  | none =>
    obtain ⟨rfl, rfl⟩ := Prod.mk.inj (Except.ok.inj h)
    exact Or.inl ⟨rfl, rfl, rfl⟩
  | some e =>
    unfold planHaving at h
    dsimp only at h
    split at h
    · rename_i predicate grown hpredicate
      obtain ⟨rfl, rfl⟩ := Prod.mk.inj (Except.ok.inj h)
      exact Or.inr ⟨e, predicate, rfl, rfl, rewrites_of_groupedPredicate hpredicate⟩
    · simp at h

/-- The planning of HAVING grows the projection by aggregates among its parts. -/
lemma planHaving_grows {Q : Expr → Prop} {p p' : Projection} {having found : Option Expr}
    (h : planHaving p having = .ok (found, p'))
    (parts : ∀ e, having = some e → ∀ part ∈ e.parts, part.isPlainAggregate = true → Q part) :
    p.Grows Q p' := by
  rcases rewrites_of_planHaving h with ⟨-, -, rfl⟩ | ⟨e, predicate, he, -, rewrites⟩
  · exact Grows.refl _ _
  · exact rewrites.grows (parts e he)

/-- Under grouping the member is an aggregate, or without aggregates and computed by a GROUP BY
expression or the same for all rows. -/
def GroupedBy (groupBy : List Expr) (e : Expr) : Prop :=
  e.isPlainAggregate = true ∨
    e.hasAggregate = false ∧ ((∃ key ∈ groupBy, Computes key e) ∨ e.columns = [])

/-- A member that passes the check of grouping is grouped. -/
lemma groupedBy_of_checkMember {groupBy : List Expr} {e : Expr}
    (h : checkMember groupBy e = .ok ()) : GroupedBy groupBy e := by
  unfold checkMember at h
  split at h
  · split at h
    · rename_i haggregate
      exact Or.inl haggregate
    · simp at h
  · rename_i hplain
    refine Or.inr ⟨by simpa using hplain, ?_⟩
    split at h
    · rename_i hgrouped
      rw [Bool.or_eq_true, List.any_eq_true, List.isEmpty_iff] at hgrouped
      rcases hgrouped with ⟨key, hkey, hagrees⟩ | hnone
      · exact Or.inl ⟨key, hkey, Or.inr hagrees⟩
      · exact Or.inr hnone
    · simp at h

/-- All members that pass the check are grouped. -/
lemma groupedBy_of_checkMembers {groupBy members : List Expr}
    (h : checkMembers groupBy members = .ok ()) : ∀ e ∈ members, GroupedBy groupBy e := by
  induction members with
  | nil => simp
  | cons first rest ih =>
    rw [checkMembers] at h
    obtain ⟨_, hfirst, h⟩ := Result.bind_eq_ok.mp h
    intro e he
    rcases List.mem_cons.mp he with rfl | he
    · exact groupedBy_of_checkMember hfirst
    · exact ih h e he

/-- The expression that a term of ORDER BY sorts by: the visible member that it names, or else its
own expression, resolved. -/
def SortsBy (tables : List BoundEntry) (p : Projection) (written e : Expr) : Prop :=
  (∃ position, namedMember p written = .ok (some position) ∧ p.visible[position]? = some e) ∨
    namedMember p written = .ok none ∧ (written.resolve tables).result = .ok e

/-- What a term sorts by depends on the visible members only. -/
lemma SortsBy.congr {tables : List BoundEntry} {p p' : Projection} {written e : Expr}
    (h : SortsBy tables p written e) (hvisible : p.visible = p'.visible) :
    SortsBy tables p' written e := by
  have hnamed : namedMember p written = namedMember p' written := by
    simp only [namedMember, namedPosition, hvisible]
  rw [SortsBy, ← hnamed, ← hvisible]
  exact h

/-- A term sorts by one expression. -/
lemma SortsBy.unique {tables : List BoundEntry} {p : Projection} {written e e' : Expr}
    (h : SortsBy tables p written e) (h' : SortsBy tables p written e') : e = e' := by
  rcases h with ⟨position, hnamed, hvisible⟩ | ⟨hnamed, hresolved⟩ <;>
    rcases h' with ⟨position', hnamed', hvisible'⟩ | ⟨hnamed', hresolved'⟩ <;>
    rw [hnamed] at hnamed'
  · obtain rfl := Option.some.inj (Except.ok.inj hnamed')
    exact Option.some.inj (hvisible.symm.trans hvisible')
  · simp at hnamed'
  · simp at hnamed'
  · exact Except.ok.inj (hresolved.symm.trans hresolved')

/-- A named member is a visible one. -/
lemma lt_of_namedMember {p : Projection} {e : Expr} {position : Nat}
    (h : namedMember p e = .ok (some position)) : position < p.visible.length := by
  have named : ∀ (name : String) (es : List Expr) (first : Option (Nat × Expr)) (start : Nat),
      (∀ found, first = some found → found.1 < start) →
        namedPositionFrom name first start es = .ok (some position) →
          position < start + es.length := by
    intro name es
    induction es with
    | nil =>
      intro first start hfirst h
      obtain ⟨found, hfound, rfl⟩ := Option.map_eq_some_iff.mp (Except.ok.inj h)
      exact hfirst found hfound
    | cons e rest ih =>
      intro first start hfirst h
      have later : ∀ found, first = some found → found.1 < start + 1 :=
        fun found hfound => Nat.lt_succ_of_lt (hfirst found hfound)
      rw [List.length_cons, Nat.add_comm rest.length, ← Nat.add_assoc]
      unfold namedPositionFrom at h
      split at h
      · split at h
        · exact ih _ _ (by simp) h
        · split at h
          · exact ih _ _ later h
          · simp at h
      · exact ih _ _ later h
  unfold namedMember at h
  split at h
  · split at h
    · simpa using named _ p.visible none 0 (by simp) h
    · simp at h
  · simp at h

/-- What a term of ORDER BY sorts by stands at the position, or a member that agrees with it.  A
term that names a member sorts by that very member. -/
def SortedAt (tables : List BoundEntry) (p : Projection) (written : Expr) (position : Nat)
    (e : Expr) : Prop :=
  p.members[position]? = some e ∨ (written.resolve tables).result = .ok e ∧
    ∃ member, p.members[position]? = some member ∧ member.agrees e = true

/-- What a term sorts by is computed at the position of the term. -/
lemma SortedAt.computesAt {tables : List BoundEntry} {p : Projection} {written e : Expr}
    {position : Nat} (h : SortedAt tables p written position e) : p.ComputesAt position e := by
  rcases h with hmember | ⟨-, member, hmember, hagrees⟩
  · exact ⟨e, hmember, Or.inl rfl⟩
  · exact ⟨member, hmember, Or.inr hagrees⟩

/-- A term keeps its position. -/
lemma SortedAt.grows {Q : Expr → Prop} {tables : List BoundEntry} {p p' : Projection}
    {written e : Expr} {position : Nat} (h : SortedAt tables p written position e)
    (grows : p.Grows Q p') : SortedAt tables p' written position e := by
  rcases h with hmember | ⟨hresolved, member, hmember, hagrees⟩
  · exact Or.inl (grows.getElem? hmember)
  · exact Or.inr ⟨hresolved, member, grows.getElem? hmember, hagrees⟩

/-- ORDER BY may append the expression: under grouping it is grouped, and otherwise it holds no
aggregate. -/
def Sortable (groupBy : List Expr) (grouped : Bool) (e : Expr) : Prop :=
  if grouped then GroupedBy groupBy e else e.hasAggregate = false

/-- A term of ORDER BY has a position that computes what it sorts by.  This is appended, unless it
is a member already. -/
lemma sortPosition_eq_ok {tables : List BoundEntry} {groupBy : List Expr} {grouped : Bool}
    {p p' : Projection} {written : Expr} {position : Nat}
    (h : sortPosition tables groupBy grouped p written = .ok (position, p')) :
    ∃ e, SortsBy tables p written e ∧ SortedAt tables p' written position e ∧
      (p' = p ∨ p' = p.appendHidden e ∧ Sortable groupBy grouped e) := by
  unfold sortPosition at h
  obtain ⟨named, hnamed, h⟩ := Result.bind_eq_ok.mp h
  cases named with
  | some found =>
    obtain ⟨rfl, rfl⟩ := Prod.mk.inj (Result.pure_eq_ok.mp h)
    have hvisible := List.getElem?_eq_getElem (lt_of_namedMember hnamed)
    refine ⟨_, Or.inl ⟨found, hnamed, hvisible⟩, Or.inl ?_, Or.inl rfl⟩
    rw [members, List.getElem?_append_left (lt_of_namedMember hnamed), hvisible]
  | none =>
    obtain ⟨e, hresolved, h⟩ := Result.bind_eq_ok.mp h
    refine ⟨e, Or.inr ⟨hnamed, hresolved⟩, ?_⟩
    split at h
    · rename_i found hfound
      obtain ⟨rfl, rfl⟩ := Prod.mk.inj (Result.pure_eq_ok.mp h)
      exact ⟨Or.inr ⟨hresolved, getElem?_of_agreeing? hfound⟩, Or.inl rfl⟩
    · have hmember : (p.appendHidden e).members[p.length]? = some e := by
        simp [members_appendHidden, ← length_members]
      split at h
      · rename_i hgrouped
        obtain ⟨_, hcheck, h⟩ := Result.bind_eq_ok.mp h
        obtain ⟨rfl, rfl⟩ := Prod.mk.inj (Result.pure_eq_ok.mp h)
        refine ⟨Or.inl hmember, Or.inr ⟨rfl, ?_⟩⟩
        rw [Sortable, if_pos hgrouped]
        exact groupedBy_of_checkMember hcheck
      · rename_i hungrouped
        obtain ⟨_, hcheck, h⟩ := Result.bind_eq_ok.mp h
        obtain ⟨rfl, rfl⟩ := Prod.mk.inj (Result.pure_eq_ok.mp h)
        refine ⟨Or.inl hmember, Or.inr ⟨rfl, ?_⟩⟩
        rw [Sortable, if_neg hungrouped]
        exact hasAggregate_of_refuseAggregate hcheck

/-- The sort keys are the positions that compute what the terms of ORDER BY sort by. -/
lemma planOrder_spec {Q : Expr → Prop} {tables : List BoundEntry} {groupBy : List Expr}
    {grouped : Bool} {p p' : Projection} {terms : List SortTerm} {keys : List OrderKey}
    (h : planOrder tables groupBy grouped p terms = .ok (keys, p'))
    (sorted : ∀ term ∈ terms, ∀ e, SortsBy tables p term.expr e →
      Sortable groupBy grouped e → Q e) :
    p.Grows Q p' ∧ List.Forall₂ (fun term key => key.ascending = term.ascending ∧
      ∃ e, SortsBy tables p term.expr e ∧ SortedAt tables p' term.expr key.position e)
      terms keys := by
  induction terms generalizing p keys with
  | nil =>
    obtain ⟨rfl, rfl⟩ := Prod.mk.inj (Except.ok.inj h)
    exact ⟨Grows.refl _ p, List.Forall₂.nil⟩
  | cons term rest ih =>
    rw [planOrder] at h
    obtain ⟨⟨position, between⟩, hfirst, h⟩ := Result.bind_eq_ok.mp h
    obtain ⟨⟨others, final⟩, hrest, h⟩ := Result.bind_eq_ok.mp h
    obtain ⟨rfl, rfl⟩ := Prod.mk.inj (Result.pure_eq_ok.mp h)
    obtain ⟨e, hsorts, hposition, hbetween⟩ := sortPosition_eq_ok hfirst
    have hgrows : p.Grows Q between := by
      rcases hbetween with rfl | ⟨rfl, hsortable⟩
      · exact Grows.refl _ _
      · exact grows_appendHidden (sorted term List.mem_cons_self e hsorts hsortable)
    obtain ⟨hlater, hkeys⟩ := ih hrest fun term hterm e hsorts =>
      sorted term (List.mem_cons_of_mem _ hterm) e (hsorts.congr hgrows.visible_eq)
    refine ⟨hgrows.trans hlater, List.Forall₂.cons ⟨rfl, e, hsorts, hposition.grows hlater⟩
      (hkeys.imp ?_)⟩
    rintro term key ⟨hdirection, e, hsorts, hposition⟩
    exact ⟨hdirection, e, hsorts.congr hgrows.visible_eq, hposition⟩

/-! ## All stages -/

/-- Every stage after the resolution appends hidden members: GROUP BY expressions, aggregates of
HAVING, and what ORDER BY sorts by. -/
lemma Staged.grows {Q : Expr → Prop} {query : Query} {plan : Plan} {projection : Projection}
    {groupBy : List Expr} {having : Option Expr} {withKeys withHaving : Projection}
    (staged : Staged query plan projection groupBy having withKeys withHaving)
    (keys : ∀ e ∈ groupBy, Q e)
    (condition : ∀ e, having = some e → ∀ part ∈ e.parts, part.isPlainAggregate = true → Q part)
    (sorted : ∀ term ∈ query.orderBy, ∀ e, SortsBy plan.tables projection term.expr e →
      Sortable groupBy query.needsGrouping e → Q e) :
    projection.Grows Q withKeys ∧ withKeys.Grows Q withHaving ∧
      withHaving.Grows Q plan.projection := by
  have first : projection.Grows Q withKeys := by
    have hspec := (groupKeys_spec keys projection).1
    rwa [staged.keys] at hspec
  have second : withKeys.Grows Q withHaving := planHaving_grows staged.kept condition
  refine ⟨first, second, (planOrder_spec staged.order fun term hterm e hsorts => ?_).1⟩
  exact sorted term hterm e (hsorts.congr (second.visible_eq.trans first.visible_eq))

/-- The resolved expressions of a query. -/
inductive Uses (query : Query) (tables : List BoundEntry) : Expr → Prop
  | member {p : Projection} {e : Expr} (resolved : query.projection.resolve tables = .ok p)
      (he : e ∈ p.members) : Uses query tables e
  | selection {written e : Expr} (hselection : query.selection = some written)
      (resolved : (written.resolve tables).result = .ok e) : Uses query tables e
  | condition {clause : JoinClause} {written e : Expr} (hclause : clause ∈ query.joins)
      (hon : clause.on = some written) (resolved : (written.resolve tables).result = .ok e) :
      Uses query tables e
  | key {written e : Expr} (hkey : written ∈ query.groupBy)
      (resolved : (written.resolve tables).result = .ok e) : Uses query tables e
  | having {written e : Expr} (hhaving : query.having = some written)
      (resolved : (written.resolve tables).result = .ok e) : Uses query tables e
  | order {p : Projection} {term : SortTerm} {e : Expr}
      (resolved : query.projection.resolve tables = .ok p) (hterm : term ∈ query.orderBy)
      (hsorts : SortsBy tables p term.expr e) : Uses query tables e

/-- The written expressions of a query. -/
def terms (query : Query) : List Expr :=
  query.projection.members ++ query.selection.toList ++ query.joins.filterMap JoinClause.on ++
    query.groupBy ++ query.having.toList ++ query.orderBy.map SortTerm.expr

/-- The resolved expressions of a query come from its written ones. -/
lemma Uses.exists_written {query : Query} {tables : List BoundEntry} {e : Expr}
    (h : query.Uses tables e) : ∃ written ∈ query.terms, written.resolve tables = .ok e := by
  have member {p : Projection} (resolved : query.projection.resolve tables = .ok p)
      (he : e ∈ p.members) : ∃ written ∈ query.terms, written.resolve tables = .ok e := by
    obtain ⟨written, hwritten, hresolve⟩ := Projection.exists_written_of_resolve resolved e he
    exact ⟨written, by simp [terms, hwritten], hresolve⟩
  cases h with
  | member resolved he => exact member resolved he
  | @selection written _ hselection resolved =>
    exact ⟨written, by simp [terms, hselection], Resolution.result_eq_ok.mp resolved⟩
  | @condition clause written _ hclause hon resolved =>
    have hwritten : written ∈ query.joins.filterMap JoinClause.on :=
      List.mem_filterMap.mpr ⟨clause, hclause, hon⟩
    exact ⟨written, by simp [terms, hwritten], Resolution.result_eq_ok.mp resolved⟩
  | @key written _ hkey resolved =>
    exact ⟨written, by simp [terms, hkey], Resolution.result_eq_ok.mp resolved⟩
  | @having written _ hhaving resolved =>
    exact ⟨written, by simp [terms, hhaving], Resolution.result_eq_ok.mp resolved⟩
  | @order p term _ resolved hterm hsorts =>
    rcases hsorts with ⟨position, -, hvisible⟩ | ⟨-, hresolved⟩
    · exact member resolved (List.mem_append_left _ (List.mem_of_getElem? hvisible))
    · have hwritten : term.expr ∈ query.orderBy.map SortTerm.expr := List.mem_map_of_mem hterm
      exact ⟨term.expr, by simp only [terms, List.mem_append, hwritten, or_true],
        Resolution.result_eq_ok.mp hresolved⟩

/-- The resolved expressions of a query have resolved columns. -/
lemma Uses.resolvedIn {query : Query} {tables : List BoundEntry} {e : Expr}
    (h : query.Uses tables e) : e.ResolvedIn tables := by
  obtain ⟨written, -, hresolve⟩ := h.exists_written
  exact Expr.resolvedIn_of_resolve hresolve

section Staged

variable {query : Query} {plan : Plan} {projection : Projection} {groupBy : List Expr}
  {having : Option Expr} {withKeys withHaving : Projection}

/-- The GROUP BY expressions of a plan are the resolved ones of the query. -/
lemma Staged.uses_key (staged : Staged query plan projection groupBy having withKeys withHaving)
    {e : Expr} (he : e ∈ groupBy) : query.Uses plan.tables e ∧ e.hasAggregate = false := by
  obtain ⟨written, hwritten, hresolve⟩ := source_of_mem_of_mapM staged.grouping he
  obtain ⟨hresolved, hplain⟩ := resolvePlain_eq_ok hresolve
  exact ⟨.key hwritten hresolved, hplain⟩

/-- The HAVING predicate of a plan is the resolved one of the query. -/
lemma Staged.exists_written_having
    (staged : Staged query plan projection groupBy having withKeys withHaving) {e : Expr}
    (he : having = some e) :
    ∃ written, query.having = some written ∧ (written.resolve plan.tables).result = .ok e := by
  have hcondition := staged.condition
  cases hquery : query.having with
  | none =>
    rw [hquery] at hcondition
    obtain rfl := Except.ok.inj hcondition
    simp at he
  | some written =>
    rw [hquery] at hcondition
    obtain ⟨found, hfound, hsome⟩ := Result.map_eq_ok.mp hcondition
    obtain rfl : found = e := Option.some.inj (hsome.trans he)
    exact ⟨written, rfl, hfound⟩

/-- The query uses the HAVING predicate of its plan. -/
lemma Staged.uses_having (staged : Staged query plan projection groupBy having withKeys withHaving)
    {e : Expr} (he : having = some e) : query.Uses plan.tables e := by
  obtain ⟨written, hwritten, hresolved⟩ := staged.exists_written_having he
  exact .having hwritten hresolved

/-- Every member of a planned projection is a part of an expression of the query. -/
theorem Staged.uses (staged : Staged query plan projection groupBy having withKeys withHaving) :
    ∀ e ∈ plan.projection.members, ∃ used, query.Uses plan.tables used ∧ e ∈ used.parts := by
  obtain ⟨first, second, third⟩ := staged.grows
    (Q := fun e => ∃ used, query.Uses plan.tables used ∧ e ∈ used.parts)
    (fun e he => ⟨e, (staged.uses_key he).1, e.self_mem_parts⟩)
    (fun e he part hpart _ => ⟨e, staged.uses_having he, hpart⟩)
    (fun term hterm e hsorts _ => ⟨e, .order staged.resolved hterm hsorts, e.self_mem_parts⟩)
  intro e he
  rcases ((first.trans second).trans third).mem he with he | hused
  · exact ⟨e, .member staged.resolved he, e.self_mem_parts⟩
  · exact hused

/-- Without hidden members of its own a query that groups has grouped members only. -/
theorem Staged.groupedBy (staged : Staged query plan projection groupBy having withKeys withHaving)
    (hgrouped : query.needsGrouping = true) (hhidden : query.projection.hidden = []) :
    ∀ e ∈ plan.projection.members, GroupedBy groupBy e := by
  obtain ⟨first, second, third⟩ := staged.grows (Q := GroupedBy groupBy)
    (fun e he => Or.inr ⟨(staged.uses_key he).2, Or.inl ⟨e, he, Or.inl rfl⟩⟩)
    (fun e _ part _ haggregate => Or.inl haggregate)
    (fun term _ e _ hsortable => by rwa [Sortable, if_pos hgrouped] at hsortable)
  have hnone : projection.hidden = [] := by
    have hresolve := staged.resolved
    unfold Projection.resolve at hresolve
    split at hresolve
    · simp at hresolve
    · rw [hhidden] at hresolve
      obtain rfl := Except.ok.inj hresolve
      rfl
  intro e he
  rcases ((first.trans second).trans third).mem he with he | hadded
  · rw [members, hnone, List.append_nil] at he
    exact groupedBy_of_checkMembers (staged.checked hgrouped) e he
  · exact hadded

/-- Every stage adds hidden members and leaves the others. -/
lemma Staged.grows_any (staged : Staged query plan projection groupBy having withKeys withHaving) :
    projection.Grows (fun _ => True) withKeys ∧ withKeys.Grows (fun _ => True) withHaving ∧
      withHaving.Grows (fun _ => True) plan.projection :=
  staged.grows (fun _ _ => trivial) (fun _ _ _ _ _ => trivial) fun _ _ _ _ _ => trivial

/-- The keys are the positions at which the GROUP BY expressions are computed. -/
lemma Staged.keysComputed
    (staged : Staged query plan projection groupBy having withKeys withHaving) :
    List.Forall₂ (fun e position => plan.projection.ComputesAt position e) groupBy plan.keys := by
  obtain ⟨-, second, third⟩ := staged.grows_any
  have hspec := (groupKeys_spec (Q := fun _ => True)
    (fun (e : Expr) (_ : e ∈ groupBy) => trivial) projection).2
  rw [staged.keys] at hspec
  exact hspec.imp fun _ _ h => third.computesAt (second.computesAt h)

/-- No stage changes the visible members. -/
lemma Staged.visible_eq (staged : Staged query plan projection groupBy having withKeys withHaving) :
    plan.projection.visible = projection.visible := by
  obtain ⟨first, second, third⟩ := staged.grows_any
  exact ((first.trans second).trans third).visible_eq

/-- The sort keys are the positions of what the terms of ORDER BY sort by. -/
lemma Staged.sortsAt
    (staged : Staged query plan projection groupBy having withKeys withHaving) :
    List.Forall₂ (fun term key => key.ascending = term.ascending ∧ ∃ e,
      SortsBy plan.tables projection term.expr e ∧
        SortedAt plan.tables plan.projection term.expr key.position e)
      query.orderBy plan.sortKeys := by
  obtain ⟨first, second, -⟩ := staged.grows_any
  have hspec := (planOrder_spec (Q := fun _ => True) staged.order fun _ _ _ _ _ => trivial).2
  refine hspec.imp fun term key ⟨hdirection, e, hsorts, hposition⟩ => ⟨hdirection, e, ?_, hposition⟩
  exact hsorts.congr (second.visible_eq.trans first.visible_eq)

/-- The sort keys are the positions that compute what the terms of ORDER BY sort by. -/
lemma Staged.sortsComputed
    (staged : Staged query plan projection groupBy having withKeys withHaving) :
    List.Forall₂ (fun term key => key.ascending = term.ascending ∧ ∃ e,
      SortsBy plan.tables projection term.expr e ∧ plan.projection.ComputesAt key.position e)
      query.orderBy plan.sortKeys :=
  staged.sortsAt.imp fun _ _ ⟨hdirection, e, hsorts, hposition⟩ =>
    ⟨hdirection, e, hsorts, hposition.computesAt⟩

end Staged

/-- What the members and keys of a planned projection are. -/
structure Grouping (query : Query) (plan : Plan) (groupBy : List Expr) : Prop where
  keysResolved : ∀ e ∈ groupBy, e.ResolvedIn plan.tables
  keysComputed : List.Forall₂ (fun e position => plan.projection.ComputesAt position e) groupBy
    plan.keys
  resolved : ∀ e ∈ plan.projection.members, e.ResolvedIn plan.tables
  members : query.needsGrouping = true → query.projection.hidden = [] →
    ∀ e ∈ plan.projection.members, GroupedBy groupBy e

/-- What the stages have put into a planned projection. -/
theorem Staged.toGrouping {query : Query} {plan : Plan} {projection : Projection}
    {groupBy : List Expr} {having : Option Expr} {withKeys withHaving : Projection}
    (staged : Staged query plan projection groupBy having withKeys withHaving) :
    Grouping query plan groupBy where
  keysResolved _ he := (staged.uses_key he).1.resolvedIn
  keysComputed := staged.keysComputed
  resolved e he := by
    obtain ⟨used, huses, hpart⟩ := staged.uses e he
    exact huses.resolvedIn.of_mem_parts e hpart
  members := staged.groupedBy

/-- What the members and keys of a planned projection are. -/
theorem Planned.exists_grouping {catalog : Catalog} {query : Query} {plan : Plan}
    (planned : Planned catalog query plan) : ∃ groupBy, Grouping query plan groupBy := by
  obtain ⟨_, groupBy, _, _, _, staged⟩ := planned.staged
  exact ⟨groupBy, staged.toGrouping⟩

end Query

end RelQuery

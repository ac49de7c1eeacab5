import RelQuery.Proofs.Engine.Ordered
import RelQuery.Proofs.Value.Ranks

/-!
# A literal as a further member

With a literal as a further visible member a projection has the same members for everything that the
literal does not agree with, so GROUP BY, HAVING and ORDER BY find the same members, or append the
same ones.  Only where one of them has a literal that agrees with the further member may they find
another literal, and this differs at most in the sign of a zero.
-/

namespace RelQuery

/-! ## Twins -/

/-- The expressions are equal, or literals that differ at most in the sign of a zero. -/
inductive Expr.Twin : Expr → Expr → Prop
  | refl (e : Expr) : Twin e e
  | literals {v w : Value} (label label' : Option String) (h : v.unsigned = w.unsigned) :
    Twin (.literal v label) (.literal w label')

namespace Expr

variable {a b e : Expr} {group : List (List LogicalRow)} {v w : Value}

/-- What agrees with a literal is a literal. -/
lemma exists_literal_of_agrees {label : Option String} (h : e.agrees (.literal w label) = true) :
    ∃ v label', e = .literal v label' ∧ v.same w = true := by
  cases e <;> simp [agrees] at h
  exact ⟨_, _, rfl, h⟩

/-- A literal agrees with literals only. -/
lemma exists_literal_of_literal_agrees {label : Option String}
    (h : (Expr.literal v label).agrees e = true) :
    ∃ w label', e = .literal w label' ∧ v.same w = true := by
  cases e <;> simp [agrees] at h
  exact ⟨_, _, rfl, h⟩

/-- A literal has its value over joined rows, and NULL over none. -/
lemma foldedOver_literal (v : Value) (label : Option String) :
    (Expr.literal v label).foldedOver group = .ok (if group = [] then .null else v) := by
  have hvalues : ∀ row ∈ group, Projection.evaluateMember .full row (literal v label) =
      .ok ((fun _ => v) row) := fun _ _ => rfl
  rw [foldedOver_eq hvalues]
  cases group with
  | nil => exact MemberFold.foldMember_nil none
  | cons row rest => exact MemberFold.foldMember_none v _

/-- Twins have values over joined rows that differ at most in the sign of a zero. -/
lemma Twin.foldedOver (twin : a.Twin b) (ha : a.foldedOver group = .ok v)
    (hb : b.foldedOver group = .ok w) : v.unsigned = w.unsigned := by
  cases twin with
  | refl => rw [Except.ok.inj (ha.symm.trans hb)]
  | literals label label' h =>
    rw [foldedOver_literal] at ha hb
    rw [← Except.ok.inj ha, ← Except.ok.inj hb]
    split
    · rfl
    · exact h

/-- Twins have values on joined rows that differ at most in the sign of a zero. -/
lemma Twin.valueOn (twin : a.Twin b) (row : List LogicalRow) :
    (a.valueOn row).unsigned = (b.valueOn row).unsigned := by
  cases twin with
  | refl => rfl
  | literals label label' h => exact h

end Expr

/-! ## Wider projections -/

namespace Projection

variable {value : Value} {label : Option String} {p p' q q' : Projection} {e : Expr}

/-- The second projection has the literal as one more visible member.  For all that the literal does
not agree with it has the members of the first one. -/
structure Widens (value : Value) (label : Option String) (p p' : Projection) : Prop where
  visible : p'.visible = p.visible ++ [.literal value label]
  found : ∀ e, (Expr.literal value label).agrees e = false →
    p'.members.find? (·.agrees e) = p.members.find? (·.agrees e)

/-- With a further literal a projection is wider. -/
lemma widens_push (p : Projection) (value : Value) (label : Option String) :
    Widens value label p (p.push (.literal value label)) where
  visible := rfl
  found e he := by
    simp [members, push, List.find?_append, he]

/-- A member is looked up at its position. -/
lemma find?_of_agreeing? {position : Nat} (h : p.agreeing? e = some position) : ∃ member,
    p.members[position]? = some member ∧ p.members.find? (·.agrees e) = some member := by
  obtain ⟨hlt, hagrees, hbefore⟩ := List.findIdx?_eq_some_iff_getElem.mp h
  refine ⟨p.members[position], List.getElem?_eq_getElem hlt, ?_⟩
  exact List.find?_eq_some_iff_getElem.mpr ⟨hagrees, position, hlt, rfl, fun j hj =>
    by simpa using hbefore j hj⟩

/-- Nothing is looked up where no member agrees. -/
lemma agreeing?_eq_none : p.agreeing? e = none ↔ p.members.find? (·.agrees e) = none := by
  rw [agreeing?, List.findIdx?_eq_none_iff, List.find?_eq_none]
  simp

/-- A new hidden member stands behind all others. -/
lemma getElem?_appendHidden (p : Projection) (e : Expr) :
    (p.appendHidden e).members[p.length]? = some e := by
  simp [members_appendHidden, ← length_members]

/-- Members of the two projections at two positions are twins. -/
def TwinsAt (p p' : Projection) (position position' : Nat) : Prop :=
  ∃ member member', p.members[position]? = some member ∧ p'.members[position']? = some member' ∧
    member.Twin member'

/-- Twins keep their positions. -/
lemma TwinsAt.grows {Q : Expr → Prop} {position position' : Nat}
    (twins : p.TwinsAt p' position position') (grows : p.Grows Q q) (grows' : p'.Grows Q q') :
    q.TwinsAt q' position position' := by
  obtain ⟨member, member', hmember, hmember', twin⟩ := twins
  exact ⟨member, member', grows.getElem? hmember, grows'.getElem? hmember', twin⟩

namespace Widens

variable (widens : Widens value label p p')
include widens

/-- What the literal does not agree with has a member in both projections or in none. -/
lemma agreeing?_eq_none_iff (he : (Expr.literal value label).agrees e = false) :
    p'.agreeing? e = none ↔ p.agreeing? e = none := by
  rw [agreeing?_eq_none, agreeing?_eq_none, widens.found e he]

/-- What is new in the one projection is found nowhere in the other. -/
lemma not_found (he : (Expr.literal value label).agrees e = false) (new : p.agreeing? e = none)
    {position : Nat} : p'.agreeing? e ≠ some position := by
  rw [(widens.agreeing?_eq_none_iff he).mpr new]
  simp

/-- What the literal does not agree with has the same member in both projections. -/
lemma exists_member (he : (Expr.literal value label).agrees e = false) {position : Nat}
    (h : p.agreeing? e = some position) : ∃ position' member, p'.agreeing? e = some position' ∧
      p.members[position]? = some member ∧ p'.members[position']? = some member := by
  obtain ⟨member, hmember, hlookup⟩ := find?_of_agreeing? h
  cases h' : p'.agreeing? e with
  | none =>
    rw [widens.agreeing?_eq_none_iff he, h] at h'
    contradiction
  | some position' =>
    obtain ⟨member', hmember', hlookup'⟩ := find?_of_agreeing? h'
    obtain rfl : member' = member :=
      Option.some.inj (hlookup'.symm.trans ((widens.found e he).trans hlookup))
    exact ⟨position', member', rfl, hmember, hmember'⟩

/-- The wider projection has a literal for every literal that the further one agrees with. -/
lemma exists_agreeing? {w : Value} (label' : Option String) (h : value.same w = true) :
    ∃ position v label'', p'.agreeing? (.literal w label') = some position ∧
      p'.members[position]? = some (.literal v label'') ∧ v.same w = true := by
  cases hp' : p'.agreeing? (.literal w label') with
  | none =>
    rw [agreeing?_eq_none, List.find?_eq_none] at hp'
    have hmember : Expr.literal value label ∈ p'.members := by
      simp [members, widens.visible]
    exact absurd h (hp' _ hmember)
  | some position =>
    obtain ⟨member, hmember, hagrees⟩ := getElem?_of_agreeing? hp'
    obtain ⟨v, label'', rfl, hsame⟩ := Expr.exists_literal_of_agrees hagrees
    exact ⟨position, v, label'', rfl, hmember, hsame⟩

/-- The same member may be appended to both projections. -/
lemma appendHidden (e : Expr) : Widens value label (p.appendHidden e) (p'.appendHidden e) where
  visible := widens.visible
  found e' he' := by
    rw [members_appendHidden, members_appendHidden, List.find?_append, List.find?_append,
      widens.found e' he']

/-- A literal that the further one agrees with may be appended to the narrower projection alone. -/
lemma appendHidden_left (he : (Expr.literal value label).agrees e = true) :
    Widens value label (p.appendHidden e) p' where
  visible := widens.visible
  found e' he' := by
    obtain ⟨w, label', rfl, hsame⟩ := Expr.exists_literal_of_literal_agrees he
    have hother : (Expr.literal w label').agrees e' = false := by
      -- else the further literal agreed with it as well
      by_contra hagrees
      rw [Bool.not_eq_false] at hagrees
      obtain ⟨u, label'', rfl, hu⟩ := Expr.exists_literal_of_literal_agrees hagrees
      exact Bool.false_ne_true (he'.symm.trans (Value.same_trans hsame hu))
    rw [members_appendHidden, List.find?_append, widens.found e' he']
    simp [hother]

/-- An expression gets twins in both projections, and they stay as wide. -/
lemma positionOf (e : Expr) : Widens value label (p.positionOf e).2 (p'.positionOf e).2 ∧
    (p.positionOf e).2.TwinsAt (p'.positionOf e).2 (p.positionOf e).1 (p'.positionOf e).1 := by
  cases he : (Expr.literal value label).agrees e with
  | false =>
    rw [Projection.positionOf, Projection.positionOf]
    cases hp : p.agreeing? e with
    | none =>
      rw [(widens.agreeing?_eq_none_iff he).mpr hp]
      exact ⟨widens.appendHidden e, e, e, getElem?_appendHidden p e, getElem?_appendHidden p' e,
        .refl e⟩
    | some position =>
      obtain ⟨position', member, hp', hmember, hmember'⟩ := widens.exists_member he hp
      rw [hp']
      exact ⟨widens, member, member, hmember, hmember', .refl member⟩
  | true =>
    have hagrees := he
    obtain ⟨w, label', rfl, hsame⟩ := Expr.exists_literal_of_literal_agrees he
    obtain ⟨position', v', label'', hp', hmember', hsame'⟩ :=
      widens.exists_agreeing? label' hsame
    rw [Projection.positionOf, Projection.positionOf, hp']
    cases hp : p.agreeing? (.literal w label') with
    | none =>
      exact ⟨widens.appendHidden_left hagrees, _, _, getElem?_appendHidden p _, hmember',
        .literals _ _ (Value.same_iff.mp hsame').2.symm⟩
    | some position =>
      obtain ⟨member, hmember, hfound⟩ := getElem?_of_agreeing? hp
      obtain ⟨v, _, rfl, hv⟩ := Expr.exists_literal_of_agrees hfound
      have htwin : v.same v' = true := Value.same_trans hv (Value.same_comm hsame')
      exact ⟨widens, _, _, hmember, hmember', .literals _ _ (Value.same_iff.mp htwin).2⟩

end Widens

end Projection

/-! ## GROUP BY -/

namespace Query

open Projection

variable {value : Value} {label : Option String} {p p' : Projection}

/-- GROUP BY has twins for its keys. -/
lemma groupKeys_widens (widens : Widens value label p p') (groupBy : List Expr) :
    Widens value label (groupKeys p groupBy).2 (groupKeys p' groupBy).2 ∧
      List.Forall₂ ((groupKeys p groupBy).2.TwinsAt (groupKeys p' groupBy).2)
        (groupKeys p groupBy).1 (groupKeys p' groupBy).1 := by
  induction groupBy generalizing p p' with
  | nil => exact ⟨widens, .nil⟩
  | cons e rest ih =>
    obtain ⟨hwidens, twins⟩ := widens.positionOf e
    obtain ⟨hrest, htwins⟩ := ih hwidens
    have grows := (groupKeys_spec (Q := fun _ => True)
      (fun (e : Expr) (_ : e ∈ rest) => trivial) (p.positionOf e).2).1
    have grows' := (groupKeys_spec (Q := fun _ => True)
      (fun (e : Expr) (_ : e ∈ rest) => trivial) (p'.positionOf e).2).1
    exact ⟨hrest, .cons (twins.grows grows grows') htwins⟩

end Query

/-! ## HAVING -/

/-- The literals of the expression outside its aggregate calls. -/
def Expr.outerLiterals : Expr → List Value
  | literal value _ => [value]
  | column .. | bareCall .. => []
  | binary _ left right _ => left.outerLiterals ++ right.outerLiterals
  | negate operand _ => operand.outerLiterals
  | call f arg _ => if f.isAggregate then [] else arg.outerLiterals

/-- The literals outside aggregate calls are literals of the expression. -/
lemma Expr.outerLiterals_subset (e : Expr) : e.outerLiterals ⊆ e.literals := by
  induction e with
  | binary op left right label ihLeft ihRight =>
    exact List.append_subset.mpr ⟨fun _ hw => List.mem_append_left _ (ihLeft hw),
      fun _ hw => List.mem_append_right _ (ihRight hw)⟩
  | call f arg label ih =>
    rw [outerLiterals]
    split
    · exact List.nil_subset _
    · exact ih
  | negate operand label ih => exact ih
  | _ => exact List.Subset.refl _

/-- Resolution keeps the literals outside aggregate calls. -/
lemma Expr.Resolves.outerLiterals_eq {tables : List BoundEntry} {e resolved : Expr}
    (h : Resolves tables e resolved) : resolved.outerLiterals = e.outerLiterals := by
  induction h with
  | binary op label _ _ ihLeft ihRight => rw [outerLiterals, outerLiterals, ihLeft, ihRight]
  | negate label _ ih => exact ih
  | call f label _ ih => rw [outerLiterals, outerLiterals, ih]
  | _ => rfl

open Projection Query

/-- A predicate over grouped rows that reads a literal: it is the literal itself, or refers to a
literal member that is the same. -/
inductive ReadsLiteral (final : Projection) (w : Value) : Expr → Prop
  | itself (label : Option String) : ReadsLiteral final w (.literal w label)
  | member {position : Nat} {v : Value} {label : Option String} (e : Expr)
      (hmember : final.members[position]? = some (.literal v label)) (h : v.same w = true) :
    ReadsLiteral final w (reference position e)

/-- A predicate rewritten to the members of two projections.  Both refer to the same members, except
that a literal which the further one agrees with may be read differently. -/
inductive RewrittenTwice (value : Value) (final final' : Projection) : Expr → Expr → Expr → Prop
  | member {position position' : Nat} {member : Expr} (e : Expr)
      (hmember : final.members[position]? = some member)
      (hmember' : final'.members[position']? = some member) :
    RewrittenTwice value final final' e (reference position e) (reference position' e)
  | shared {w : Value} {label : Option String} {predicate predicate' : Expr}
      (h : value.same w = true) (reads : ReadsLiteral final w predicate)
      (reads' : ReadsLiteral final' w predicate') :
    RewrittenTwice value final final' (.literal w label) predicate predicate'
  | literal (w : Value) (label : Option String) :
    RewrittenTwice value final final' (.literal w label) (.literal w label) (.literal w label)
  | bareConversion (target : ColumnType) (label : Option String) :
    RewrittenTwice value final final' (.bareCall (.conversion target) label)
      (.bareCall (.conversion target) label) (.bareCall (.conversion target) label)
  | conversion {e arg arg' : Expr} (target : ColumnType) (label : Option String)
      (inside : RewrittenTwice value final final' e arg arg') :
    RewrittenTwice value final final' (.call (.conversion target) e label)
      (.call (.conversion target) arg label) (.call (.conversion target) arg' label)
  | negate {e operand operand' : Expr} (label : Option String)
      (inside : RewrittenTwice value final final' e operand operand') :
    RewrittenTwice value final final' (.negate e label) (.negate operand label)
      (.negate operand' label)
  | binary {e₁ e₂ left left' right right' : Expr} (op : BinaryOp) (label : Option String)
      (first : RewrittenTwice value final final' e₁ left left')
      (second : RewrittenTwice value final final' e₂ right right') :
    RewrittenTwice value final final' (.binary op e₁ e₂ label) (.binary op left right label)
      (.binary op left' right' label)

section Rewriting

variable {value : Value} {label : Option String} {p p' q q' final final' : Projection}
  {having predicate predicate' : Expr}

/-- A literal of HAVING is read, wherever its value comes from. -/
lemma readsLiteral_of_rewrites {w : Value} {written : Option String}
    (rewrites : Rewrites p (.literal w written) predicate q) :
    q = p ∧ ∀ final, p.Grows (fun _ => True) final → ReadsLiteral final w predicate := by
  cases rewrites with
  | member found =>
    obtain ⟨member, hmember, hagrees⟩ := getElem?_of_agreeing? found
    obtain ⟨v, _, rfl, hv⟩ := Expr.exists_literal_of_agrees hagrees
    exact ⟨rfl, fun _ grows => .member _ (grows.getElem? hmember) hv⟩
  | literal new => exact ⟨rfl, fun _ _ => .itself written⟩

/-- A literal that the further one agrees with is read from both projections. -/
lemma rewrittenTwice_of_agrees (widens : Widens value label p p')
    (he : (Expr.literal value label).agrees having = true)
    (h : Rewrites p having predicate q) (h' : Rewrites p' having predicate' q') :
    Widens value label q q' ∧ ∀ final final', q.Grows (fun _ => True) final →
      q'.Grows (fun _ => True) final' →
        RewrittenTwice value final final' having predicate predicate' := by
  obtain ⟨w, written, rfl, hsame⟩ := Expr.exists_literal_of_literal_agrees he
  obtain ⟨rfl, reads⟩ := readsLiteral_of_rewrites h
  obtain ⟨rfl, reads'⟩ := readsLiteral_of_rewrites h'
  exact ⟨widens, fun final final' grows grows' =>
    .shared hsame (reads final grows) (reads' final' grows')⟩

/-- An aggregate that is appended to both projections is one member of both. -/
lemma rewrittenTwice_appendHidden (widens : Widens value label p p') (e : Expr) :
    Widens value label (p.appendHidden e) (p'.appendHidden e) ∧
      ∀ final final', (p.appendHidden e).Grows (fun _ => True) final →
        (p'.appendHidden e).Grows (fun _ => True) final' →
          RewrittenTwice value final final' e (reference p.length e) (reference p'.length e) :=
  ⟨widens.appendHidden e, fun _ _ grows grows' =>
    .member e (grows.getElem? (getElem?_appendHidden p e))
      (grows'.getElem? (getElem?_appendHidden p' e))⟩

/-- HAVING is rewritten to twins, and the projections stay as wide. -/
theorem rewrittenTwice_of_rewrites (widens : Widens value label p p')
    (h : Rewrites p having predicate q) (h' : Rewrites p' having predicate' q') :
    Widens value label q q' ∧ ∀ final final', q.Grows (fun _ => True) final →
      q'.Grows (fun _ => True) final' →
        RewrittenTwice value final final' having predicate predicate' := by
  induction h generalizing p' predicate' q' with
  | @member p e position found =>
    cases he : (Expr.literal value label).agrees e with
    | true => exact rewrittenTwice_of_agrees widens he (.member found) h'
    | false =>
      obtain ⟨position', member, found', hmember, hmember'⟩ := widens.exists_member he found
      obtain ⟨rfl, rfl⟩ := h'.of_found found'
      exact ⟨widens, fun _ _ grows grows' =>
        .member e (grows.getElem? hmember) (grows'.getElem? hmember')⟩
  | @literal p w written new =>
    cases he : (Expr.literal value label).agrees (.literal w written) with
    | true => exact rewrittenTwice_of_agrees widens he (.literal new) h'
    | false =>
      cases h' with
      | member found => exact (widens.not_found he new found).elim
      | literal new' => exact ⟨widens, fun _ _ _ _ => .literal w written⟩
  | bareAggregate new =>
    cases h' with
    | member found => exact (widens.not_found rfl new found).elim
    | bareAggregate new' => exact rewrittenTwice_appendHidden widens _
  | bareConversion new =>
    cases h' with
    | member found => exact (widens.not_found rfl new found).elim
    | bareConversion new' => exact ⟨widens, fun _ _ _ _ => .bareConversion _ _⟩
  | aggregate new plain =>
    cases h' with
    | member found => exact (widens.not_found rfl new found).elim
    | aggregate new' plain' => exact rewrittenTwice_appendHidden widens _
  | conversion new _ ih =>
    cases h' with
    | member found => exact (widens.not_found rfl new found).elim
    | conversion new' inside' =>
      obtain ⟨hwidens, rewritten⟩ := ih widens inside'
      exact ⟨hwidens, fun final final' grows grows' =>
        .conversion _ _ (rewritten final final' grows grows')⟩
  | negate new _ ih =>
    cases h' with
    | member found => exact (widens.not_found rfl new found).elim
    | negate new' inside' =>
      obtain ⟨hwidens, rewritten⟩ := ih widens inside'
      exact ⟨hwidens, fun final final' grows grows' =>
        .negate _ (rewritten final final' grows grows')⟩
  | binary new _ second ihLeft ihRight =>
    cases h' with
    | member found => exact (widens.not_found rfl new found).elim
    | binary new' first' second' =>
      obtain ⟨hbetween, first⟩ := ihLeft widens first'
      obtain ⟨hwidens, rewritten⟩ := ihRight hbetween second'
      -- the members that the left operand needs stay while those for the right one are added
      have grown := second.grows (Q := fun _ => True) fun _ _ _ => trivial
      have grown' := second'.grows (Q := fun _ => True) fun _ _ _ => trivial
      exact ⟨hwidens, fun final final' grows grows' => .binary _ _
        (first final final' (grown.trans grows) (grown'.trans grows'))
        (rewritten final final' grows grows')⟩

end Rewriting

/-! ## Groups -/

section Groups

variable {value w : Value} {final final' : Projection} {having predicate predicate' : Expr}
  {group : List (List LogicalRow)} {found found' : Row}

/-- Over a row a reference has the value of the member over what is behind the row. -/
lemma evaluate_reference_of_rowOver (h : final.rowOver group = .ok found) {position : Nat}
    {member : Expr} (hmember : final.members[position]? = some member) : ∃ v,
      member.foldedOver group = .ok v ∧ ∀ (e : Expr) (index : Nat),
        (reference position e).evaluate .full [.projected index found] = .ok (.determined v) := by
  obtain ⟨v, hvalue, hfolded⟩ := getElem?_of_mapM h hmember
  exact ⟨v, hfolded, Projection.evaluate_reference hvalue⟩

/-- What reads a literal has its value, where no member has a zero of the other sign.  Over no rows
this must be NULL. -/
lemma ReadsLiteral.evaluate (reads : ReadsLiteral final w predicate)
    (h : final.rowOver group = .ok found)
    (exact : ∀ v label, .literal v label ∈ final.members → v.same w = true → v = w)
    (hgroup : group ≠ [] ∨ w = .null) (index : Nat) :
    predicate.evaluate .full [.projected index found] = .ok (.determined w) := by
  cases reads with
  | itself label => rfl
  | @member position v label e hmember hsame =>
    obtain ⟨x, hfolded, hreference⟩ := evaluate_reference_of_rowOver h hmember
    obtain rfl := exact v label (List.mem_of_getElem? hmember) hsame
    rw [Expr.foldedOver_literal] at hfolded
    rw [hreference, ← Except.ok.inj hfolded]
    split
    · rename_i hempty
      rw [hgroup.resolve_left fun h => h hempty]
    · rfl

/-- A predicate that is rewritten to the members of two projections has the same outcome on the rows
of both over the same joined rows. -/
theorem RewrittenTwice.evaluate_eq
    (rewritten : RewrittenTwice value final final' having predicate predicate')
    (h : final.rowOver group = .ok found) (h' : final'.rowOver group = .ok found')
    (shared : ∀ w ∈ having.outerLiterals, value.same w = true → (group ≠ [] ∨ w = .null) ∧
      ∀ v label, .literal v label ∈ final.members ++ final'.members → v.same w = true → v = w)
    (index : Nat) : predicate.evaluate .full [.projected index found] =
      predicate'.evaluate .full [.projected index found'] := by
  induction rewritten with
  | member e hmember hmember' =>
    obtain ⟨v, hfolded, hreference⟩ := evaluate_reference_of_rowOver h hmember
    obtain ⟨v', hfolded', hreference'⟩ := evaluate_reference_of_rowOver h' hmember'
    rw [hreference, hreference', Except.ok.inj (hfolded.symm.trans hfolded')]
  | @shared w label predicate predicate' hsame reads reads' =>
    obtain ⟨hgroup, exact⟩ := shared w (List.mem_singleton.mpr rfl) hsame
    rw [reads.evaluate h (fun v label hv => exact v label (List.mem_append_left _ hv)) hgroup,
      reads'.evaluate h' (fun v label hv => exact v label (List.mem_append_right _ hv)) hgroup]
  | literal w label => rfl
  | bareConversion target label => rfl
  | conversion target label _ ih => rw [Expr.evaluate, Expr.evaluate, ih shared]
  | negate label _ ih => rw [Expr.evaluate, Expr.evaluate, ih shared]
  | binary op label _ _ ihLeft ihRight =>
    rw [Expr.evaluate, Expr.evaluate,
      ihLeft fun w hw => shared w (List.mem_append_left _ hw),
      ihRight fun w hw => shared w (List.mem_append_right _ hw)]

/-- Predicates with the same outcome on two rows accept both or none. -/
lemma acceptsGroup_congr {index : Nat} (h : predicate.evaluate .full [.projected index found] =
      predicate'.evaluate .full [.projected index found']) :
    acceptsGroup predicate found index = acceptsGroup predicate' found' index := by
  rw [acceptsGroup, acceptsGroup, h]
  cases h' : predicate'.evaluate .full [.projected index found'] with
  | error error => rfl
  | ok outcome =>
    obtain ⟨v, rfl⟩ := Expr.determined_of_full h'
    rfl

/-- Rows with values at their keys that differ at most in the sign of a zero compare alike. -/
lemma OrderKey.compareAll_congr {keys keys' : List OrderKey} {a b a' b' : Row}
    (h : List.Forall₂ (fun key key' : OrderKey => key.ascending = key'.ascending ∧
      (a.getD key.position .null).unsigned = (a'.getD key'.position .null).unsigned ∧
      (b.getD key.position .null).unsigned = (b'.getD key'.position .null).unsigned) keys keys') :
    compareAll a b keys = compareAll a' b' keys' := by
  induction h with
  | nil => rfl
  | cons hkey _ ih =>
    obtain ⟨hdirection, ha, hb⟩ := hkey
    rw [compareAll, compareAll, ih, compare, compare, hdirection, ← Value.sortOrder_unsigned, ha,
      hb, Value.sortOrder_unsigned]

end Groups

end RelQuery

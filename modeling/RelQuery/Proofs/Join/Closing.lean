import Mathlib.Logic.Relation
import RelQuery.Proofs.Faults.Walking

/-!
# Clauses that close a cycle

In which order the walk takes up the tables depends on how many rows they have, but which clauses it
uses for that and which it leaves over does not: a clause is left over exactly when clauses that
were declared before it link its two tables.  For the walk always uses the first clause that leads
to a new table, so it goes on to all tables that earlier clauses link to a joined one before it uses
a later clause.
-/

namespace RelQuery

/-! ## Links -/

/-- The one can be reached from the other along the pairs, in both directions. -/
def Linked {α : Type} (pairs : List (α × α)) (a b : α) : Prop :=
  Relation.EqvGen (fun x y => (x, y) ∈ pairs) a b

namespace Linked

variable {α β : Type} {pairs more : List (α × α)} {a b c : α}

/-- Everything is linked to itself. -/
lemma refl (pairs : List (α × α)) (a : α) : Linked pairs a a :=
  Relation.EqvGen.refl a

/-- Links go both ways. -/
lemma symm (h : Linked pairs a b) : Linked pairs b a :=
  Relation.EqvGen.symm a b h

/-- Links are joined at their ends. -/
lemma trans (hab : Linked pairs a b) (hbc : Linked pairs b c) : Linked pairs a c :=
  Relation.EqvGen.trans a b c hab hbc

/-- The ends of a pair are linked. -/
lemma of_mem (h : (a, b) ∈ pairs) : Linked pairs a b :=
  Relation.EqvGen.rel a b h

/-- What is linked is linked along more pairs, whose ends may be named otherwise. -/
lemma map {renamed : List (β × β)} (f : α → β)
    (h : ∀ x y, (x, y) ∈ pairs → (f x, f y) ∈ renamed) (hab : Linked pairs a b) :
    Linked renamed (f a) (f b) := by
  induction hab with
  | rel a b hab => exact of_mem (h a b hab)
  | refl a => exact refl renamed (f a)
  | symm a b _ ih => exact ih.symm
  | trans a b c _ _ hab hbc => exact hab.trans hbc

/-- What is linked is linked along more pairs. -/
lemma append (hab : Linked pairs a b) (more : List (α × α)) : Linked (pairs ++ more) a b :=
  hab.map id fun _ _ hmem => List.mem_append_left more hmem

/-- A part that no pair leaves contains linked elements together. -/
lemma mem_iff {part : List α} (closed : ∀ pair ∈ pairs, pair.1 ∈ part ↔ pair.2 ∈ part)
    (hab : Linked pairs a b) : a ∈ part ↔ b ∈ part := by
  induction hab with
  | rel a b hab => exact closed (a, b) hab
  | refl a => exact Iff.rfl
  | symm a b _ ih => exact ih.symm
  | trans a b c _ _ hab hbc => exact hab.trans hbc

end Linked

namespace PendingJoin

/-- The positions of the two tables. -/
def ends (pending : PendingJoin) : Nat × Nat :=
  (pending.left, pending.right)

/-- A clause does not lead out of tables that have both of its ends or none. -/
lemma reaches_eq_false_iff {order : List Nat} {pending : PendingJoin} :
    pending.reaches order = false ↔ (pending.left ∈ order ↔ pending.right ∈ order) := by
  simp [reaches]

/-- A clause that leads to a new table links it to a joined one. -/
lemma exists_joined_of_reaches {order : List Nat} {pending : PendingJoin}
    (h : pending.reaches order = true) : ∃ old ∈ order,
      pending.ends = (old, (pending.oriented order).1) ∨
        pending.ends = ((pending.oriented order).1, old) := by
  have hone : ¬(pending.left ∈ order ↔ pending.right ∈ order) := by
    rw [← reaches_eq_false_iff, h]
    decide
  unfold oriented ends
  by_cases hleft : pending.left ∈ order
  · exact ⟨pending.left, hleft, Or.inl (by simp [hleft])⟩
  · refine ⟨pending.right, ?_, Or.inr (by simp [hleft])⟩
    by_contra hright
    exact hone (iff_of_false hleft hright)

/-! ## The state of a walk -/

/-- How a walk that has joined some tables stands to the clauses of a pool that come after some
others: it has used some of them, each between tables that it has joined and that earlier clauses do
not link, and joined no tables that only one of the others links to those before it. -/
inductive Stands (used : PendingJoin → Prop) (order : List Nat) :
    (before pool left : List PendingJoin) → Prop
  | nil (before : List PendingJoin) : Stands used order before [] []
  | pending {before pool left : List PendingJoin} {pending : PendingJoin}
    (apart : ∀ a ∈ order, ∀ b ∈ order, Linked (before.map ends) a pending.left →
      Linked (before.map ends) b pending.right →
        Linked (before.map ends) pending.left pending.right)
    (rest : Stands used order (before ++ [pending]) pool left) :
    Stands used order before (pending :: pool) (pending :: left)
  | taken {before pool left : List PendingJoin} {taken : PendingJoin}
    (unlinked : ¬ Linked (before.map ends) taken.left taken.right)
    (left_mem : taken.left ∈ order) (right_mem : taken.right ∈ order) (hused : used taken)
    (rest : Stands used order (before ++ [taken]) pool left) :
    Stands used order before (taken :: pool) left

namespace Stands

variable {used : PendingJoin → Prop} {order : List Nat} {before pool left : List PendingJoin}

/-- A walk that has joined one table has used no clause. -/
lemma start (used : PendingJoin → Prop) (table : Nat) (before pool : List PendingJoin) :
    Stands used [table] before pool pool := by
  induction pool generalizing before with
  | nil => exact nil before
  | cons pending pool ih =>
    refine .pending (fun a ha b hb hleft hright => ?_) (ih _)
    rw [List.mem_singleton.mp ha] at hleft
    rw [List.mem_singleton.mp hb] at hright
    exact hleft.symm.trans hright

/-- A table that earlier clauses link to a joined one may be joined without changing how the walk
stands to later clauses. -/
lemma extend (stands : Stands used order before pool left) {old new : Nat} (hold : old ∈ order)
    (linked : Linked (before.map ends) old new) :
    Stands used (order ++ [new]) before pool left := by
  induction stands with
  | nil before => exact nil before
  | @pending before pool left pending apart rest ih =>
    have represented {a : Nat} (ha : a ∈ order ++ [new]) :
        ∃ a' ∈ order, Linked (before.map ends) a' a := by
      rcases List.mem_append.mp ha with ha | ha
      · exact ⟨a, ha, .refl _ a⟩
      · rw [List.mem_singleton.mp ha]
        exact ⟨old, hold, linked⟩
    refine .pending (fun a ha b hb hleft hright => ?_) (ih ?_)
    · obtain ⟨a', ha', haa'⟩ := represented ha
      obtain ⟨b', hb', hbb'⟩ := represented hb
      exact apart a' ha' b' hb' (haa'.trans hleft) (hbb'.trans hright)
    · rw [List.map_append]
      exact linked.append _
  | @taken before pool left taken unlinked left_mem right_mem hused rest ih =>
    refine .taken unlinked (List.mem_append_left _ left_mem) (List.mem_append_left _ right_mem)
      hused (ih ?_)
    rw [List.map_append]
    exact linked.append _

/-- No clause of the list leads out of the joined tables. -/
def Settled (order : List Nat) (clauses : List PendingJoin) : Prop :=
  ∀ pending ∈ clauses, pending.reaches order = false

/-- Tables that settled clauses link are joined together. -/
lemma Settled.mem_iff (settled : Settled order before) {a b : Nat}
    (linked : Linked (before.map ends) a b) : a ∈ order ↔ b ∈ order := by
  refine linked.mem_iff fun pair hpair => ?_
  obtain ⟨pending, hpending, rfl⟩ := List.mem_map.mp hpair
  exact reaches_eq_false_iff.mp (settled pending hpending)

/-- Settled clauses do not link the tables of a clause that leads out of the joined ones. -/
lemma Settled.not_linked (settled : Settled order before) {pending : PendingJoin}
    (h : pending.reaches order = true) :
    ¬ Linked (before.map ends) pending.left pending.right := by
  intro linked
  rw [reaches_eq_false_iff.mpr (settled.mem_iff linked)] at h
  contradiction

/-- One more settled clause. -/
lemma Settled.concat (settled : Settled order before) {pending : PendingJoin}
    (h : pending.reaches order = false) : Settled order (before ++ [pending]) := by
  intro other hother
  rcases List.mem_append.mp hother with hother | hother
  · exact settled other hother
  · rwa [List.mem_singleton.mp hother]

/-- The clause that the walk uses next is linked by none before it. -/
lemma exists_of_find? (stands : Stands used order before pool left)
    (settled : Settled order before) {next : PendingJoin}
    (hfound : left.find? (·.reaches order) = some next) :
    ∃ earlier later, pool = earlier ++ next :: later ∧
      ¬ Linked ((before ++ earlier).map ends) next.left next.right := by
  induction stands with
  | nil before => simp at hfound
  | @pending before pool left pending apart rest ih =>
    rw [List.find?_cons] at hfound
    split at hfound
    · rename_i hreaches
      obtain rfl := Option.some.inj hfound
      refine ⟨[], pool, rfl, ?_⟩
      rw [List.append_nil]
      exact settled.not_linked hreaches
    · rename_i hreaches
      obtain ⟨earlier, later, rfl, hunlinked⟩ := ih (settled.concat hreaches) hfound
      refine ⟨pending :: earlier, later, rfl, ?_⟩
      rwa [List.append_assoc, List.singleton_append] at hunlinked
  | @taken before pool left taken unlinked left_mem right_mem hused rest ih =>
    have hreaches : taken.reaches order = false :=
      reaches_eq_false_iff.mpr (iff_of_true left_mem right_mem)
    obtain ⟨earlier, later, rfl, hunlinked⟩ := ih (settled.concat hreaches) hfound
    refine ⟨taken :: earlier, later, rfl, ?_⟩
    rwa [List.append_assoc, List.singleton_append] at hunlinked

/-- The first clause, not linked by those before it, may be used to join its other table. -/
lemma take {next : PendingJoin} (rest : Stands used order (before ++ [next]) pool left)
    (hreaches : next.reaches order = true)
    (unlinked : ¬ Linked (before.map ends) next.left next.right) (hused : used next) :
    Stands used (order ++ [(next.oriented order).1]) before (next :: pool) left := by
  have hedge : next.ends ∈ (before ++ [next]).map ends :=
    List.mem_map.mpr ⟨next, by simp, rfl⟩
  obtain ⟨old, hold, hends | hends⟩ := exists_joined_of_reaches hreaches
  · obtain ⟨hleft, hright⟩ := Prod.mk.inj hends
    rw [hends] at hedge
    exact .taken unlinked (by simp [hleft, hold]) (by simp [hright]) hused
      (rest.extend hold (.of_mem hedge))
  · obtain ⟨hleft, hright⟩ := Prod.mk.inj hends
    rw [hends] at hedge
    exact .taken unlinked (by simp [hleft]) (by simp [hright, hold]) hused
      (rest.extend hold (Linked.of_mem hedge).symm)

/-- With one more table joined, the tables linked to the two ends of a settled clause are still
linked by the settled clauses before it. -/
lemma Settled.apart_concat (settled : Settled order before) {pending : PendingJoin}
    (hreaches : pending.reaches order = false)
    (apart : ∀ a ∈ order, ∀ b ∈ order, Linked (before.map ends) a pending.left →
      Linked (before.map ends) b pending.right →
        Linked (before.map ends) pending.left pending.right) (new : Nat) :
    ∀ a ∈ order ++ [new], ∀ b ∈ order ++ [new], Linked (before.map ends) a pending.left →
      Linked (before.map ends) b pending.right →
        Linked (before.map ends) pending.left pending.right := by
  intro a ha b hb hleft hright
  have hends := reaches_eq_false_iff.mp hreaches
  by_cases hjoined : pending.left ∈ order
  · exact apart _ hjoined _ (hends.mp hjoined) (.refl _ _) (.refl _ _)
  · -- neither end is joined, so both are linked to the new table
    have hnew {c far : Nat} (hc : c ∈ order ++ [new]) (hlinked : Linked (before.map ends) c far)
        (hfar : far ∉ order) : c = new := by
      rcases List.mem_append.mp hc with hc | hc
      · exact absurd ((settled.mem_iff hlinked).mp hc) hfar
      · exact List.mem_singleton.mp hc
    rw [hnew ha hleft hjoined] at hleft
    rw [hnew hb hright fun h => hjoined (hends.mpr h)] at hright
    exact hleft.symm.trans hright

/-- A step of the walk. -/
lemma step (stands : Stands used order before pool left) (settled : Settled order before)
    {next : PendingJoin} (hfound : left.find? (·.reaches order) = some next) (hused : used next) :
    Stands used (order ++ [(next.oriented order).1]) before pool
      (left.eraseP (·.reaches order)) := by
  induction stands with
  | nil before => simp at hfound
  | @pending before pool left pending apart rest ih =>
    rw [List.find?_cons] at hfound
    split at hfound
    · rename_i hreaches
      obtain rfl := Option.some.inj hfound
      rw [List.eraseP_cons_of_pos hreaches]
      exact rest.take hreaches (settled.not_linked hreaches) hused
    · rename_i hreaches
      rw [List.eraseP_cons_of_neg (by simp [hreaches])]
      exact .pending (settled.apart_concat hreaches apart _) (ih (settled.concat hreaches) hfound)
  | @taken before pool left taken unlinked left_mem right_mem hused' rest ih =>
    have hreaches : taken.reaches order = false :=
      reaches_eq_false_iff.mpr (iff_of_true left_mem right_mem)
    exact .taken unlinked (List.mem_append_left _ left_mem) (List.mem_append_left _ right_mem)
      hused' (ih (settled.concat hreaches) hfound)

/-- Of a clause between joined tables the walk has used it or left it, as earlier clauses link its
tables or do not. -/
lemma used_or_left {earlier later : List PendingJoin} {clause : PendingJoin}
    (stands : Stands used order before (earlier ++ clause :: later) left)
    (hleft : clause.left ∈ order) (hright : clause.right ∈ order) :
    (¬ Linked ((before ++ earlier).map ends) clause.left clause.right ∧ used clause) ∨
      (Linked ((before ++ earlier).map ends) clause.left clause.right ∧ clause ∈ left) := by
  induction earlier generalizing before left with
  | nil =>
    rw [List.append_nil]
    cases stands with
    | pending apart rest =>
      exact Or.inr ⟨apart _ hleft _ hright (.refl _ _) (.refl _ _), List.mem_cons_self⟩
    | taken unlinked _ _ hused _ => exact Or.inl ⟨unlinked, hused⟩
  | cons first earlier ih =>
    rw [← List.singleton_append, ← List.append_assoc]
    cases stands with
    | pending apart rest => exact (ih rest).imp_right fun h => ⟨h.1, List.mem_cons_of_mem _ h.2⟩
    | taken _ _ _ _ rest => exact ih rest

/-- A clause that is left comes from the pool. -/
lemma exists_of_mem (stands : Stands used order before pool left) {clause : PendingJoin}
    (hclause : clause ∈ left) (hleft : clause.left ∈ order) (hright : clause.right ∈ order) :
    ∃ earlier later, pool = earlier ++ clause :: later ∧
      Linked ((before ++ earlier).map ends) clause.left clause.right := by
  induction stands with
  | nil before => simp at hclause
  | @pending before pool left pending apart rest ih =>
    rcases List.mem_cons.mp hclause with rfl | hclause
    · refine ⟨[], pool, rfl, ?_⟩
      rw [List.append_nil]
      exact apart _ hleft _ hright (.refl _ _) (.refl _ _)
    · obtain ⟨earlier, later, rfl, linked⟩ := ih hclause
      refine ⟨pending :: earlier, later, rfl, ?_⟩
      rwa [List.append_assoc, List.singleton_append] at linked
  | @taken before pool left taken _ _ _ _ rest ih =>
    obtain ⟨earlier, later, rfl, linked⟩ := ih hclause
    refine ⟨taken :: earlier, later, rfl, ?_⟩
    rwa [List.append_assoc, List.singleton_append] at linked

end Stands

end PendingJoin

end RelQuery

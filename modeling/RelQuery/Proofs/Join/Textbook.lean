import Mathlib.Data.List.Nodup
import Mathlib.Logic.Function.Basic
import Mathlib.Tactic.Lemma
import RelQuery.Join.Walk

/-!
# Textbook joins

A joined row is a choice: it takes a row from every table, or nothing where an outer join padded the
table.  A row space says which rows the tables have and which choices a condition accepts, and every
kind of join is defined on it by looking at all pairs: matching pairs are kept, and so are the
unmatched members of a preserved side, each once and with padding on the other side.

Nothing here depends on how rows are stored.  The executor works on positions of candidate rows, the
meaning of a query is stated on stored rows, and both are row spaces.
-/

namespace RelQuery

/-! ## Links -/

namespace PendingJoin

/-- The clause with its sides exchanged. -/
def turned (link : PendingJoin) : PendingJoin where
  left := link.right
  right := link.left
  clause := link.clause.turned

/-- The clause seen from either of its sides. -/
def faces (link : PendingJoin) : List PendingJoin :=
  [link, link.turned]

/-- Rows of the left table without a partner are kept. -/
def keepsLeft (link : PendingJoin) : Bool :=
  link.clause.kind.keepsLeft

/-- Rows of the right table without a partner are kept. -/
def keepsRight (link : PendingJoin) : Bool :=
  link.clause.kind.keepsRight

/-- Turning a clause exchanges its tables. -/
@[simp] lemma left_turned (link : PendingJoin) : link.turned.left = link.right := rfl

/-- Turning a clause exchanges its tables. -/
@[simp] lemma right_turned (link : PendingJoin) : link.turned.right = link.left := rfl

/-- Turning a clause leaves its condition. -/
@[simp] lemma on_turned (link : PendingJoin) : link.turned.clause.on = link.clause.on := rfl

/-- Turning a clause twice changes nothing. -/
@[simp] lemma turned_turned (link : PendingJoin) : link.turned.turned = link := by
  simp [turned]

/-- Turning a clause exchanges the sides that are kept. -/
@[simp] lemma keepsLeft_turned (link : PendingJoin) : link.turned.keepsLeft = link.keepsRight :=
  JoinKind.keepsLeft_reversed _

/-- Turning a clause exchanges the sides that are kept. -/
@[simp] lemma keepsRight_turned (link : PendingJoin) :
    link.turned.keepsRight = link.keepsLeft := by
  rw [← keepsLeft_turned, turned_turned]

/-- Turning a clause leaves it outer or not. -/
@[simp] lemma isOuter_turned (link : PendingJoin) :
    link.turned.clause.kind.isOuter = link.clause.kind.isOuter :=
  JoinKind.isOuter_reversed _

/-- A clause is outer when it keeps one of its sides. -/
lemma isOuter_eq (link : PendingJoin) :
    link.clause.kind.isOuter = (link.keepsLeft || link.keepsRight) := by
  unfold keepsLeft keepsRight
  cases link.clause.kind <;> rfl

/-- A clause has two faces, itself and the turned clause. -/
lemma mem_faces {face link : PendingJoin} :
    face ∈ link.faces ↔ face = link ∨ face = link.turned := by
  simp [faces]

/-- A clause is one of its own faces. -/
lemma mem_faces_self (link : PendingJoin) : link ∈ link.faces :=
  mem_faces.mpr (Or.inl rfl)

/-- The turned clause is the other face. -/
lemma turned_mem_faces (link : PendingJoin) : link.turned ∈ link.faces :=
  mem_faces.mpr (Or.inr rfl)

/-- A property that survives turning holds of every face. -/
@[elab_as_elim] lemma of_mem_faces {P : PendingJoin → Prop} {face link : PendingJoin}
    (h : face ∈ link.faces) (turned : P link → P link.turned) (hlink : P link) : P face := by
  rcases mem_faces.mp h with rfl | rfl
  · exact hlink
  · exact turned hlink

/-- The faces of a face are the faces of the clause. -/
lemma mem_faces_comm {face link : PendingJoin} : face ∈ link.faces ↔ link ∈ face.faces := by
  rw [mem_faces, mem_faces]
  constructor
  · rintro (rfl | rfl) <;> simp
  · rintro (rfl | rfl) <;> simp

/-- Turning a face gives a face. -/
lemma turned_mem_faces_of_mem {face link : PendingJoin} (h : face ∈ link.faces) :
    face.turned ∈ link.faces := by
  rw [mem_faces] at h ⊢
  rcases h with rfl | rfl <;> simp

end PendingJoin

/-! ## Choices -/

/-- For every table the row that is taken, where nothing stands for padding. -/
abbrev Choice (ι : Type) := Nat → Option ι

namespace Choice

variable {ι : Type}

/-- The choice that takes no row at all. -/
def none : Choice ι := fun _ => Option.none

/-- The choice cut down to some tables. -/
def within (tables : List Nat) (c : Choice ι) : Choice ι := fun table =>
  if table ∈ tables then c table else Option.none

/-- The choice takes rows from the given tables only. -/
def SupportedBy (tables : List Nat) (c : Choice ι) : Prop :=
  ∀ table ∉ tables, c table = Option.none

/-- A table the choice is cut down to keeps its row. -/
lemma within_of_mem {tables : List Nat} {table : Nat} (h : table ∈ tables) (c : Choice ι) :
    c.within tables table = c table := by
  simp [within, h]

/-- A table the choice is not cut down to takes no row. -/
lemma within_of_notMem {tables : List Nat} {table : Nat} (h : table ∉ tables) (c : Choice ι) :
    c.within tables table = Option.none := by
  simp [within, h]

/-- A choice cut down to some tables takes rows from these only. -/
lemma supportedBy_within (tables : List Nat) (c : Choice ι) :
    (c.within tables).SupportedBy tables := fun _ h => within_of_notMem h c

/-- Cutting changes no choice that takes rows from these tables only. -/
lemma within_eq_self {tables : List Nat} {c : Choice ι} (h : c.SupportedBy tables) :
    c.within tables = c := by
  funext table
  by_cases ht : table ∈ tables
  · exact within_of_mem ht c
  · rw [within_of_notMem ht, h table ht]

/-- Cutting down to one more table adds what the choice takes there. -/
lemma within_append (tables : List Nat) (table : Nat) (c : Choice ι) :
    c.within (tables ++ [table]) = Function.update (c.within tables) table (c table) := by
  funext other
  by_cases h : other = table
  · subst h
    simp [within]
  · simp [within, h]

/-- What is put at a table that was not taken can be cut off again. -/
lemma within_update {tables : List Nat} {table : Nat} (ht : table ∉ tables) {c : Choice ι}
    (hc : c.SupportedBy tables) (row : Option ι) :
    within tables (Function.update c table row) = c := by
  funext other
  by_cases h : other ∈ tables
  · rw [within_of_mem h, Function.update_of_ne (ne_of_mem_of_not_mem h ht)]
  · rw [within_of_notMem h, hc other h]

/-- The choice without rows takes rows from no table. -/
lemma supportedBy_none (tables : List Nat) : (none : Choice ι).SupportedBy tables :=
  fun _ _ => rfl

/-- A row taken from one more table. -/
lemma supportedBy_update {tables : List Nat} {c : Choice ι} (hc : c.SupportedBy tables)
    (table : Nat) (row : Option ι) :
    SupportedBy (tables ++ [table]) (Function.update c table row) := by
  intro other h
  simp only [List.mem_append, List.mem_singleton, not_or] at h
  rw [Function.update_of_ne h.2, hc other h.1]

end Choice

/-! ## Row spaces and their joins -/

/-- The rows of every table, and the choices that a condition accepts. -/
structure RowSpace (ι : Type) where
  rows : Nat → List ι
  accepts : Option Expr → Choice ι → Bool

namespace RowSpace

variable {ι : Type}

/-- Every row of one table alone. -/
def single (space : RowSpace ι) (table : Nat) : List (Choice ι) :=
  (space.rows table).map fun row => Function.update Choice.none table (some row)

/-- The rows of the right table that match a choice. -/
def partners (space : RowSpace ι) (link : PendingJoin) (c : Choice ι) : List ι :=
  (space.rows link.right).filter fun row =>
    space.accepts link.clause.on (Function.update c link.right (some row))

/-- A choice with each of its partners, or with padding where it has none and is kept. -/
def extend (space : RowSpace ι) (link : PendingJoin) (c : Choice ι) : List (Choice ι) :=
  if (space.partners link c).isEmpty && link.keepsLeft then [Function.update c link.right none]
  else (space.partners link c).map fun row => Function.update c link.right (some row)

/-- The rows of the right table that match no choice, with padding for all other tables. -/
def unmatched (space : RowSpace ι) (link : PendingJoin) (choices : List (Choice ι)) :
    List (Choice ι) :=
  if link.keepsRight then
    ((space.rows link.right).filter fun row => !choices.any fun c =>
      space.accepts link.clause.on (Function.update c link.right (some row))).map fun row =>
        Function.update Choice.none link.right (some row)
  else []

/-- The textbook join of some choices with one more table. -/
def join (space : RowSpace ι) (link : PendingJoin) (choices : List (Choice ι)) :
    List (Choice ι) :=
  choices.flatMap (space.extend link) ++ space.unmatched link choices

/-- The choice takes rows that the tables have. -/
def Valid (space : RowSpace ι) (c : Choice ι) : Prop :=
  ∀ table row, c table = some row → row ∈ space.rows table

/-- The condition of the link refuses the choice with any row of the right table. -/
def Alone (space : RowSpace ι) (link : PendingJoin) (c : Choice ι) : Prop :=
  ∀ row ∈ space.rows link.right,
    space.accepts link.clause.on (Function.update c link.right (some row)) = false

/-- A choice is extended by its partners, or by padding where it is alone and kept. -/
lemma mem_extend {space : RowSpace ι} {link : PendingJoin} {c τ : Choice ι} :
    τ ∈ space.extend link c ↔
      (∃ row ∈ space.rows link.right,
        space.accepts link.clause.on (Function.update c link.right (some row)) = true ∧
          τ = Function.update c link.right (some row)) ∨
      (link.keepsLeft = true ∧ space.Alone link c ∧ τ = Function.update c link.right none) := by
  have hpartners : (space.partners link c).isEmpty = true ↔ space.Alone link c := by
    simp [partners, Alone]
  unfold extend
  split
  · rename_i h
    rw [Bool.and_eq_true, hpartners] at h
    simp only [List.mem_singleton, h, true_and]
    refine ⟨Or.inr, ?_⟩
    rintro (⟨row, hrow, haccepts, -⟩ | hτ)
    · simp [h.1 row hrow] at haccepts
    · exact hτ
  · rename_i h
    rw [Bool.and_eq_true, hpartners] at h
    simp only [partners, List.mem_map, List.mem_filter]
    constructor
    · rintro ⟨row, ⟨hrow, haccepts⟩, rfl⟩
      exact Or.inl ⟨row, hrow, haccepts, rfl⟩
    · rintro (⟨row, hrow, haccepts, rfl⟩ | ⟨hkeeps, halone, -⟩)
      · exact ⟨row, ⟨hrow, haccepts⟩, rfl⟩
      · exact absurd ⟨halone, hkeeps⟩ h

/-- The unmatched rows of a kept side. -/
lemma mem_unmatched {space : RowSpace ι} {link : PendingJoin} {choices : List (Choice ι)}
    {τ : Choice ι} :
    τ ∈ space.unmatched link choices ↔
      link.keepsRight = true ∧ ∃ row ∈ space.rows link.right,
        (∀ c ∈ choices,
          space.accepts link.clause.on (Function.update c link.right (some row)) = false) ∧
        τ = Function.update Choice.none link.right (some row) := by
  unfold unmatched
  split
  · rename_i h
    simp only [h, List.mem_map, List.mem_filter, true_and]
    constructor
    · rintro ⟨row, ⟨hrow, hnone⟩, rfl⟩
      exact ⟨row, hrow, by simpa using hnone, rfl⟩
    · rintro ⟨row, hrow, hnone, rfl⟩
      exact ⟨row, ⟨hrow, by simpa using hnone⟩, rfl⟩
  · rename_i h
    simp [h]

/-- What a join consists of. -/
lemma mem_join {space : RowSpace ι} {link : PendingJoin} {choices : List (Choice ι)}
    {τ : Choice ι} :
    τ ∈ space.join link choices ↔
      (∃ c ∈ choices, τ ∈ space.extend link c) ∨ τ ∈ space.unmatched link choices := by
  simp [join]

end RowSpace

end RelQuery

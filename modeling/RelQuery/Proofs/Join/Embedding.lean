import RelQuery.Proofs.Join.Meaning

/-!
# Row spaces inside others

The candidates of a join are some of the stored rows under other names.  A row space lies inside
another when its rows are rows of the other and the conditions do not tell a choice from its image.
A choice then fits the clauses when its image does, provided that no row is missing from a table
that a clause may pad: a row that is missing there could have been the partner of a row that counts
as alone.
-/

namespace RelQuery

variable {ι κ : Type}

/-! ## Images of choices -/

/-- The choice with every row replaced by its image. -/
def Choice.through (f : Nat → ι → κ) (c : Choice ι) : Choice κ := fun table =>
  (c table).map (f table)

namespace Choice

variable {f : Nat → ι → κ}

/-- The image takes rows from the same tables. -/
@[simp] lemma through_eq_none {c : Choice ι} {table : Nat} :
    c.through f table = Option.none ↔ c table = Option.none := by
  simp [through]

/-- The image takes rows from the same tables. -/
lemma supportedBy_through {tables : List Nat} {c : Choice ι} :
    (c.through f).SupportedBy tables ↔ c.SupportedBy tables := by
  simp [SupportedBy]

/-- The image of a choice with another row. -/
lemma through_update (c : Choice ι) (table : Nat) (row : Option ι) :
    through f (Function.update c table row) =
      Function.update (c.through f) table (row.map (f table)) := by
  funext other
  by_cases h : other = table
  · subst h
    simp [through]
  · simp [through, h]

end Choice

/-! ## Embeddings -/

namespace RowSpace

/-- Rows become different rows of the other space. -/
structure Embeds (space : RowSpace ι) (space' : RowSpace κ) (f : Nat → ι → κ) : Prop where
  mem : ∀ table, ∀ row ∈ space.rows table, f table row ∈ space'.rows table
  injective : ∀ table, ∀ a ∈ space.rows table, ∀ b ∈ space.rows table,
    f table a = f table b → a = b

/-- The condition does not tell a choice from its image. -/
def Reads (space : RowSpace ι) (space' : RowSpace κ) (f : Nat → ι → κ) (on : Option Expr) : Prop :=
  ∀ c : Choice ι, space.Valid c → space.accepts on c = space'.accepts on (c.through f)

/-- Every row of the table in the other space is an image. -/
def Complete (space : RowSpace ι) (space' : RowSpace κ) (f : Nat → ι → κ) (table : Nat) : Prop :=
  ∀ row ∈ space'.rows table, ∃ source ∈ space.rows table, f table source = row

variable {space : RowSpace ι} {space' : RowSpace κ} {f : Nat → ι → κ}

/-- The image of a valid choice is valid. -/
lemma Embeds.valid (embeds : space.Embeds space' f) {c : Choice ι} (valid : space.Valid c) :
    space'.Valid (c.through f) := by
  intro table row hrow
  obtain ⟨source, hsource, rfl⟩ := Option.map_eq_some_iff.mp hrow
  exact embeds.mem table source (valid table source hsource)

/-- Different valid choices have different images. -/
lemma Embeds.through_inj (embeds : space.Embeds space' f) {c c' : Choice ι} (valid : space.Valid c)
    (valid' : space.Valid c') (h : c.through f = c'.through f) : c = c' := by
  funext table
  have htable := congrFun h table
  cases hc : c table with
  | none =>
    have hnone : c'.through f table = Option.none := by
      rw [← htable, Choice.through_eq_none, hc]
    exact (Choice.through_eq_none.mp hnone).symm
  | some row =>
    cases hc' : c' table with
    | none =>
      have hnone : c.through f table = Option.none := by
        rw [htable, Choice.through_eq_none, hc']
      rw [Choice.through_eq_none, hc] at hnone
      exact absurd hnone (by simp)
    | some row' =>
      simp only [Choice.through, hc, hc', Option.map_some, Option.some.injEq] at htable
      rw [embeds.injective table row (valid table row hc) row' (valid' table row' hc') htable]

/-- A choice of images is the image of a choice. -/
lemma exists_through {σ : Choice κ}
    (h : ∀ table row, σ table = some row → ∃ source ∈ space.rows table, f table source = row) :
    ∃ c : Choice ι, space.Valid c ∧ c.through f = σ := by
  have source : ∀ table, ∃ slot : Option ι, slot.map (f table) = σ table ∧
      ∀ row, slot = some row → row ∈ space.rows table := by
    intro table
    cases hσ : σ table with
    | none => exact ⟨none, rfl, by simp⟩
    | some row =>
      obtain ⟨source, hsource, rfl⟩ := h table row hσ
      exact ⟨some source, rfl, fun row hrow => by rwa [← Option.some.inj hrow]⟩
  choose c hc using source
  exact ⟨c, fun table row hrow => (hc table).2 row hrow, funext fun table => (hc table).1⟩

/-! ## Choices that fit -/

/-- A choice is alone when its image is, provided that no partner is missing. -/
lemma Embeds.alone_iff (embeds : space.Embeds space' f) {link : PendingJoin}
    (reads : space.Reads space' f link.clause.on) (complete : space.Complete space' f link.right)
    {c : Choice ι} (valid : space.Valid c) :
    space.Alone link c ↔ space'.Alone link (c.through f) := by
  have image : ∀ row ∈ space.rows link.right,
      space.accepts link.clause.on (Function.update c link.right (some row)) =
        space'.accepts link.clause.on
          (Function.update (c.through f) link.right (some (f link.right row))) := by
    intro row hrow
    have hvalid : space.Valid (Function.update c link.right (some row)) :=
      valid.update fun r hr => by rwa [← Option.some.inj hr]
    rw [reads _ hvalid, Choice.through_update, Option.map_some]
  constructor
  · intro halone row hrow
    obtain ⟨source, hsource, rfl⟩ := complete row hrow
    rw [← image source hsource]
    exact halone source hsource
  · intro halone row hrow
    rw [image row hrow]
    exact halone _ (embeds.mem _ row hrow)

/-- A clause is content with a choice when it is with its image. -/
lemma Embeds.respects_iff (embeds : space.Embeds space' f) {link : PendingJoin}
    (reads : space.Reads space' f link.clause.on)
    (complete : ∀ face ∈ link.faces, face.keepsLeft = true →
      space.Complete space' f face.right) {c : Choice ι} (valid : space.Valid c) :
    space.Respects link c ↔ space'.Respects link (c.through f) := by
  -- a face that keeps its left side finds it alone in both spaces or in none
  have alone : ∀ face ∈ link.faces, face.clause.on = link.clause.on →
      ((face.keepsLeft = true ∧ space.Alone face c) ↔
        (face.keepsLeft = true ∧ space'.Alone face (c.through f))) := by
    intro face hface hon
    refine and_congr_right fun hkeeps => ?_
    exact embeds.alone_iff (by rwa [hon]) (complete face hface hkeeps) valid
  have left := alone link link.mem_faces_self rfl
  have right := alone link.turned link.turned_mem_faces rfl
  rw [PendingJoin.keepsLeft_turned] at right
  constructor
  · rintro ⟨both, leftOnly, rightOnly⟩
    constructor <;> simp only [ne_eq, Choice.through_eq_none]
    · rw [← reads c valid]
      exact both
    · exact fun hl hr => left.mp (leftOnly hl hr)
    · exact fun hl hr => right.mp (rightOnly hl hr)
  · rintro ⟨both, leftOnly, rightOnly⟩
    simp only [ne_eq, Choice.through_eq_none] at both leftOnly rightOnly
    constructor
    · rw [reads c valid]
      exact both
    · exact fun hl hr => left.mpr (leftOnly hl hr)
    · exact fun hl hr => right.mpr (rightOnly hl hr)

/-- A choice fits when its image does, provided that the tables which may be padded miss no row. -/
theorem Embeds.fits_iff (embeds : space.Embeds space' f) {pool : List PendingJoin}
    (reads : ∀ link ∈ pool, space.Reads space' f link.clause.on)
    (complete : ∀ link ∈ pool, ∀ face ∈ link.faces, face.keepsLeft = true →
      space.Complete space' f face.right) {tables : List Nat} {c : Choice ι}
    (valid : space.Valid c) :
    space.Fits pool tables c ↔ space'.Fits pool tables (c.through f) := by
  have respected : ∀ link ∈ pool, (space.Respects link c ↔ space'.Respects link (c.through f)) :=
    fun link hlink => embeds.respects_iff (reads link hlink) (complete link hlink) valid
  constructor
  · rintro ⟨inhabited, hrespected, hconnected⟩
    refine ⟨by simpa using inhabited, fun link hlink =>
      (respected link hlink).mp (hrespected link hlink), ?_⟩
    simpa [Connects] using hconnected
  · rintro ⟨inhabited, hrespected, hconnected⟩
    refine ⟨by simpa using inhabited, fun link hlink =>
      (respected link hlink).mpr (hrespected link hlink), ?_⟩
    simpa [Connects] using hconnected

end RowSpace

end RelQuery

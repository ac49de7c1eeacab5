import RelQuery.Proofs.Join.Fitting

/-!
# The meaning of a set of clauses

A growth that has taken in all tables may leave clauses that close a cycle.  Such clauses are not
outer and filter the choices in the end.  What remains are the choices that fit all declared
clauses, so the meaning of the clauses does not depend on which of them served as steps, nor on the
order of the steps.

Special cases are read off: growths of one pool leave the same bag, without outer clauses the
choices are the full ones that every condition accepts, and one clause alone relates two tables.
-/

namespace RelQuery.RowSpace

variable {ι : Type} {space : RowSpace ι} {pool used left : List PendingJoin} {joined : List Nat}
  {choices : List (Choice ι)}

/-! ## Clauses that are left -/

/-- The clauses close cycles between joined tables, and none of them is outer. -/
def Closed (joined : List Nat) (left : List PendingJoin) : Prop :=
  ∀ link ∈ left, link.left ∈ joined ∧ link.right ∈ joined ∧ link.clause.kind.isOuter = false

/-- No face of a clause that is not outer keeps a side. -/
lemma keepsLeft_eq_false {link face : PendingJoin} (h : link.clause.kind.isOuter = false)
    (hface : face ∈ link.faces) : face.keepsLeft = false := by
  rw [PendingJoin.isOuter_eq, Bool.or_eq_false_iff] at h
  rcases PendingJoin.mem_faces.mp hface with rfl | rfl
  · exact h.1
  · rw [PendingJoin.keepsLeft_turned, h.2]

/-- Clauses that are left after a complete growth have rows on both sides of every choice. -/
lemma Grows.filled_of_closed (h : space.Grows pool joined used left choices)
    (hpool : pool.Pairwise PendingJoin.Compatible) (closed : Closed joined left) {c : Choice ι}
    (hc : c ∈ choices) {link : PendingJoin} (hlink : link ∈ left) :
    c link.left ≠ none ∧ c link.right ≠ none := by
  obtain ⟨hleft, hright, hinner⟩ := closed link hlink
  constructor
  · intro hnone
    have := h.keepsLeft_of_padded hpool hc hlink link.mem_faces_self hleft hnone
    rw [keepsLeft_eq_false hinner link.mem_faces_self] at this
    exact absurd this (by simp)
  · intro hnone
    have := h.keepsLeft_of_padded hpool hc hlink link.turned_mem_faces hright hnone
    rw [keepsLeft_eq_false hinner link.turned_mem_faces] at this
    exact absurd this (by simp)

/-- Once a step along a clause keeps its joined side and the clauses that are left keep theirs,
these keep theirs after the step. -/
lemma Grows.keepsLeft_after {rest : List PendingJoin} {pending link : PendingJoin}
    (h : space.Grows pool joined used left choices) (hpool : pool.Pairwise PendingJoin.Compatible)
    (picked : left.Perm (pending :: rest)) (facing : link ∈ pending.faces)
    (keepsLeft : link.keepsLeft = true)
    (kept : ∀ other ∈ rest, ∀ face ∈ other.faces, face.left ∈ joined → face.keepsLeft = true) :
    ∀ other ∈ rest, ∀ face ∈ other.faces, face.left ∈ joined ++ [link.right] →
      face.keepsLeft = true := by
  intro other hother face hface hin
  obtain ⟨-, compatible⟩ := h.guarded_of_picked hpool picked hother
  rcases List.mem_append.mp hin with hin | hnew
  · exact kept other hother face hface hin
  · exact (compatible link.turned (PendingJoin.turned_mem_faces_of_mem facing) face hface
      (List.mem_singleton.mp hnew).symm).1 (by simpa using keepsLeft)

/-- A choice that every used clause is content with is empty, or produced, or such that every clause
that is left keeps its joined side.  In the last case the rows fell apart at some clause that keeps
both sides, and no clause that keeps fewer can bring them together again. -/
lemma Grows.produced_or_apart (h : space.Grows pool joined used left choices)
    (hpool : pool.Pairwise PendingJoin.Compatible)
    (hlocal : ∀ link ∈ pool, link.clause.kind.isOuter = true → space.Local link)
    {τ : Choice ι} (valid : space.Valid τ) (respected : ∀ link ∈ used, space.Respects link τ) :
    (∀ table ∈ joined, τ table = none) ∨ τ.within joined ∈ choices ∨
      ∀ pending ∈ left, ∀ face ∈ pending.faces, face.left ∈ joined → face.keepsLeft = true := by
  induction h with
  | start table =>
    by_cases hnone : τ table = none
    · exact Or.inl fun other hother => by rwa [List.mem_singleton.mp hother]
    · refine Or.inr (Or.inl ?_)
      rw [(Grows.start table).within_mem_iff_fits hpool hlocal valid]
      refine ⟨⟨table, List.mem_singleton_self table, hnone⟩, by simp, ?_⟩
      intro mark _ p hp q hq _ _
      rw [List.mem_singleton.mp hp, List.mem_singleton.mp hq]
  | @step joined used left rest choices pending link grown picked facing inside outside settled
      ih =>
    have produced := (Grows.step grown picked facing inside outside settled).within_mem_iff_fits
      hpool hlocal valid
    have hlink : space.Respects link τ := respected link List.mem_cons_self
    have hpending : pending ∈ left := picked.mem_iff.mpr List.mem_cons_self
    rcases ih fun other hother => respected other (List.mem_cons_of_mem _ hother) with
      hnone | hmem | hkept
    -- no row so far
    · by_cases hrow : τ link.right = none
      · exact Or.inl (List.forall_mem_append.mpr ⟨hnone, List.forall_mem_singleton.mpr hrow⟩)
      · refine Or.inr (Or.inl (produced.mpr ?_))
        rw [fits_append_of_apart grown.used_inside inside outside (hnone _ inside) hrow]
        exact ⟨hnone, hlink.rightOnly (hnone _ inside) hrow⟩
    -- the rows so far are produced, and the new table has a row beside them, or far from them
    · have hfits := (grown.within_mem_iff_fits hpool hlocal valid).mp hmem
      by_cases hrow : τ link.right = none
      · refine Or.inr (Or.inl (produced.mpr ((fits_append_of_none hrow).mpr ⟨hfits, ?_⟩)))
        exact fun hleft => hlink.leftOnly hleft hrow
      · by_cases hnear : τ link.left = none
        · have hright := (hlink.rightOnly hnear hrow).1
          have hleft := grown.keepsLeft_of_padded hpool hmem hpending facing inside
            (by rwa [Choice.within_of_mem inside])
          refine Or.inr (Or.inr (grown.keepsLeft_after hpool picked facing hleft ?_))
          intro other hother face hface hin
          obtain ⟨guarded, -⟩ := grown.guarded_of_picked hpool picked hother
          exact (guarded link facing face hface inside hin).1 hright
        · refine Or.inr (Or.inl (produced.mpr ?_))
          rw [fits_append_of_both grown.used_inside inside outside hnear hrow]
          exact ⟨hfits, hlink.both hnear hrow⟩
    -- the rows are apart already
    · refine Or.inr (Or.inr (grown.keepsLeft_after hpool picked facing ?_ fun other hother => ?_))
      · exact hkept pending hpending link facing inside
      · exact hkept other (picked.mem_iff.mpr (List.mem_cons_of_mem _ hother))

/-- Rows that hang together by faces of clauses hang together by the clauses. -/
lemma Connects.of_faces {links others : List PendingJoin} {tables : List Nat} {τ : Choice ι}
    (h : Connects links tables τ)
    (hfaces : ∀ face ∈ links, ∃ link ∈ others, face ∈ link.faces) : Connects others tables τ := by
  intro mark hmark
  refine h mark fun face hface => ?_
  obtain ⟨link, hlink, hmem⟩ := hfaces face hface
  exact PendingJoin.of_mem_faces hmem (fun along hr hl => (along hl hr).symm) (hmark link hlink)

/-- What a complete growth produces and the clauses that are left accept are the choices that fit
all declared clauses. -/
theorem Grows.mem_and_accepted_iff_fits (h : space.Grows pool joined used left choices)
    (hpool : pool.Pairwise PendingJoin.Compatible)
    (hlocal : ∀ link ∈ pool, link.clause.kind.isOuter = true → space.Local link)
    (closed : Closed joined left) {τ : Choice ι} (valid : space.Valid τ)
    (supported : τ.SupportedBy joined) :
    (τ ∈ choices ∧ ∀ link ∈ left, space.accepts link.clause.on τ = true) ↔
      space.Fits pool joined τ := by
  have produced := h.within_mem_iff_fits hpool hlocal valid
  rw [Choice.within_eq_self supported] at produced
  constructor
  · rintro ⟨hmem, haccepted⟩
    obtain ⟨inhabited, respected, connected⟩ := produced.mp hmem
    refine ⟨inhabited, fun link hlink => ?_, connected.of_faces h.used_declared⟩
    rcases h.used_or_left link hlink with ⟨face, hface, hused⟩ | hleft
    · exact (respects_of_mem_faces hface).mp (respected face hused)
    · obtain ⟨hl, hr⟩ := h.filled_of_closed hpool closed hmem hleft
      exact ⟨fun _ _ => haccepted link hleft, fun _ hnone => absurd hnone hr,
        fun hnone _ => absurd hnone hl⟩
  · rintro ⟨⟨table, htable, hfilled⟩, respected, connected⟩
    have respected_used : ∀ face ∈ used, space.Respects face τ := by
      intro face hface
      obtain ⟨link, hlink, hfaces⟩ := h.used_declared face hface
      exact (respects_of_mem_faces hfaces).mpr (respected link hlink)
    have hmem : τ ∈ choices := by
      rcases h.produced_or_apart hpool hlocal valid respected_used with hnone | hmem | hkept
      · exact absurd (hnone table htable) hfilled
      · rwa [Choice.within_eq_self supported] at hmem
      · -- a clause that is left would be kept, so there is none and all are used
        have used_all : ∀ link ∈ pool, ∃ face ∈ used, link ∈ face.faces := by
          intro link hlink
          rcases h.used_or_left link hlink with ⟨face, hface, hused⟩ | hleft
          · exact ⟨face, hused, PendingJoin.mem_faces_comm.mp hface⟩
          · obtain ⟨hin, -, hinner⟩ := closed link hleft
            have hkeeps := hkept link hleft link link.mem_faces_self hin
            rw [keepsLeft_eq_false hinner link.mem_faces_self] at hkeeps
            contradiction
        exact produced.mpr ⟨⟨table, htable, hfilled⟩, respected_used, connected.of_faces used_all⟩
    refine ⟨hmem, fun link hlink => ?_⟩
    obtain ⟨hl, hr⟩ := h.filled_of_closed hpool closed hmem hlink
    exact (respected link (h.left_subset hlink)).both hl hr

/-! ## Growths of one pool -/

/-- Whether a choice fits depends on the set of tables only. -/
lemma Fits.congr_tables {tables tables' : List Nat}
    (same : ∀ table, table ∈ tables ↔ table ∈ tables') {τ : Choice ι}
    (h : space.Fits pool tables τ) : space.Fits pool tables' τ := by
  obtain ⟨inhabited, respected, connected⟩ := h
  exact ⟨by simpa only [same] using inhabited, respected,
    by simpa only [Connects, same] using connected⟩

/-- What a complete growth has produced, cut down by the clauses that are left. -/
def remaining (space : RowSpace ι) (left : List PendingJoin) (choices : List (Choice ι)) :
    List (Choice ι) :=
  choices.filter fun c => left.all fun link => space.accepts link.clause.on c

/-- What remains of a complete growth are the valid choices that fit. -/
theorem Grows.mem_remaining_iff (h : space.Grows pool joined used left choices)
    (hpool : pool.Pairwise PendingJoin.Compatible)
    (hlocal : ∀ link ∈ pool, link.clause.kind.isOuter = true → space.Local link)
    (closed : Closed joined left) {τ : Choice ι} :
    τ ∈ space.remaining left choices ↔
      space.Valid τ ∧ τ.SupportedBy joined ∧ space.Fits pool joined τ := by
  rw [remaining, List.mem_filter, List.all_eq_true]
  constructor
  · rintro ⟨hmem, hall⟩
    have hvalid := h.valid τ hmem
    have hsupported := h.supported τ hmem
    exact ⟨hvalid, hsupported,
      (h.mem_and_accepted_iff_fits hpool hlocal closed hvalid hsupported).mp ⟨hmem, hall⟩⟩
  · rintro ⟨hvalid, hsupported, hfits⟩
    exact (h.mem_and_accepted_iff_fits hpool hlocal closed hvalid hsupported).mpr hfits

/-- Two complete growths along the same compatible clauses over the same tables leave the same
choices. -/
theorem Grows.perm_remaining {joined' : List Nat} {used' left' : List PendingJoin}
    {choices' : List (Choice ι)} (h : space.Grows pool joined used left choices)
    (h' : space.Grows pool joined' used' left' choices')
    (hrows : ∀ table, (space.rows table).Nodup) (hjoined : joined.Perm joined')
    (closed : Closed joined left) (closed' : Closed joined' left')
    (hpool : pool.Pairwise PendingJoin.Compatible)
    (hlocal : ∀ link ∈ pool, link.clause.kind.isOuter = true → space.Local link) :
    (space.remaining left choices).Perm (space.remaining left' choices') := by
  refine (List.perm_ext_iff_of_nodup ((h.nodup hrows).filter _) ((h'.nodup hrows).filter _)).mpr
    fun τ => ?_
  have same : ∀ table, table ∈ joined ↔ table ∈ joined' := fun table => hjoined.mem_iff
  have hsupported : τ.SupportedBy joined ↔ τ.SupportedBy joined' := by
    simp only [Choice.SupportedBy, same]
  have mem := h.mem_remaining_iff hpool hlocal closed (τ := τ)
  have mem' := h'.mem_remaining_iff hpool hlocal closed' (τ := τ)
  rw [remaining] at mem mem'
  rw [mem, mem', hsupported]
  have hfits : space.Fits pool joined τ ↔ space.Fits pool joined' τ :=
    ⟨Fits.congr_tables same, Fits.congr_tables fun table => (same table).symm⟩
  rw [hfits]

/-! ## Without outer clauses -/

/-- The used clauses span the joined tables. -/
lemma Grows.spans (h : space.Grows pool joined used left choices) (mark : Nat → Prop)
    (hmark : ∀ link ∈ used, (mark link.left ↔ mark link.right)) :
    ∀ p ∈ joined, ∀ q ∈ joined, (mark p ↔ mark q) := by
  induction h with
  | start table =>
    intro p hp q hq
    rw [List.mem_singleton.mp hp, List.mem_singleton.mp hq]
  | @step joined used _ _ _ _ link _ _ _ inside _ _ ih =>
    have old := ih fun other hother => hmark other (List.mem_cons_of_mem _ hother)
    have like : ∀ p ∈ joined ++ [link.right], (mark p ↔ mark link.left) := by
      intro p hp
      rcases List.mem_append.mp hp with hp | hp
      · exact old p hp _ inside
      · rw [List.mem_singleton.mp hp]
        exact (hmark link List.mem_cons_self).symm
    exact fun p hp q hq => (like p hp).trans (like q hq).symm

/-- A growth joins at least one table. -/
lemma Grows.joined_ne_nil (h : space.Grows pool joined used left choices) : joined ≠ [] := by
  cases h <;> simp

/-- The clauses lie between the tables and hold them together. -/
structure Spanned (pool : List PendingJoin) (tables : List Nat) : Prop where
  inhabited : ∃ table, table ∈ tables
  ends : ∀ link ∈ pool, link.left ∈ tables ∧ link.right ∈ tables
  connected : ∀ mark : Nat → Prop, (∀ link ∈ pool, (mark link.left ↔ mark link.right)) →
    ∀ p ∈ tables, ∀ q ∈ tables, (mark p ↔ mark q)

/-- The declared clauses of a complete growth span its tables. -/
lemma Grows.spanned (h : space.Grows pool joined used left choices) (closed : Closed joined left) :
    Spanned pool joined where
  inhabited := List.exists_mem_of_ne_nil _ h.joined_ne_nil
  ends := by
    intro link hlink
    rcases h.used_or_left link hlink with ⟨face, hface, hused⟩ | hleft
    · exact PendingJoin.of_mem_faces (PendingJoin.mem_faces_comm.mp hface) And.symm
        (h.used_inside face hused)
    · exact ⟨(closed link hleft).1, (closed link hleft).2.1⟩
  connected := by
    intro mark hmark
    refine h.spans mark fun face hface => ?_
    obtain ⟨link, hlink, hfaces⟩ := h.used_declared face hface
    exact PendingJoin.of_mem_faces hfaces Iff.symm (hmark link hlink)

/-- Whether clauses span depends on the set of tables only. -/
lemma Spanned.congr {tables tables' : List Nat} (h : Spanned pool tables)
    (same : ∀ table, table ∈ tables ↔ table ∈ tables') : Spanned pool tables' where
  inhabited := by simpa only [same] using h.inhabited
  ends := by simpa only [same] using h.ends
  connected := by simpa only [same] using h.connected

/-- Without outer clauses the choices that fit are the full ones that every condition accepts. -/
theorem Spanned.fits_iff {tables : List Nat} (h : Spanned pool tables)
    (hinner : ∀ link ∈ pool, link.clause.kind.isOuter = false) {τ : Choice ι} :
    space.Fits pool tables τ ↔
      (∀ table ∈ tables, τ table ≠ none) ∧
        ∀ link ∈ pool, space.accepts link.clause.on τ = true := by
  constructor
  · rintro ⟨⟨table, htable, hfilled⟩, respected, -⟩
    -- a clause that keeps no side has rows on both sides or on none
    have both : ∀ link ∈ pool, (τ link.left ≠ none ↔ τ link.right ≠ none) := by
      intro link hlink
      obtain ⟨-, leftOnly, rightOnly⟩ := respected link hlink
      constructor
      · intro hl hr
        have := (leftOnly hl hr).1
        rw [keepsLeft_eq_false (hinner link hlink) link.mem_faces_self] at this
        exact absurd this (by simp)
      · intro hr hl
        have := (rightOnly hl hr).1
        rw [← PendingJoin.keepsLeft_turned,
          keepsLeft_eq_false (hinner link hlink) link.turned_mem_faces] at this
        exact absurd this (by simp)
    have full : ∀ table ∈ tables, τ table ≠ none := fun other hother =>
      (h.connected (fun p => τ p ≠ none) both table htable other hother).mp hfilled
    exact ⟨full, fun link hlink => (respected link hlink).both (full _ (h.ends link hlink).1)
      (full _ (h.ends link hlink).2)⟩
  · rintro ⟨full, haccepts⟩
    obtain ⟨table, htable⟩ := h.inhabited
    refine ⟨⟨table, htable, full table htable⟩, fun link hlink => ?_, fun mark hmark => ?_⟩
    · exact ⟨fun _ _ => haccepts link hlink,
        fun _ hnone => absurd hnone (full _ (h.ends link hlink).2),
        fun hnone _ => absurd hnone (full _ (h.ends link hlink).1)⟩
    · intro p hp q hq _ _
      refine h.connected mark (fun link hlink => ?_) p hp q hq
      exact hmark link hlink (full _ (h.ends link hlink).1) (full _ (h.ends link hlink).2)

/-! ## One clause -/

/-- With one clause between two tables a choice fits when it takes a row of either and the clause is
content with it. -/
theorem fits_single_iff {link : PendingJoin} {tables : List Nat}
    (ends : ∀ table, table ∈ tables ↔ table = link.left ∨ table = link.right) {τ : Choice ι} :
    space.Fits [link] tables τ ↔
      (τ link.left ≠ none ∨ τ link.right ≠ none) ∧ space.Respects link τ := by
  constructor
  · rintro ⟨⟨table, htable, hfilled⟩, respected, -⟩
    refine ⟨?_, respected link (List.mem_singleton_self link)⟩
    rcases (ends table).mp htable with rfl | rfl
    · exact Or.inl hfilled
    · exact Or.inr hfilled
  · rintro ⟨hfilled, hlink⟩
    refine ⟨?_, fun other hother => ?_, fun mark hmark p hp q hq hpf hqf => ?_⟩
    · rcases hfilled with hfilled | hfilled
      · exact ⟨link.left, (ends _).mpr (Or.inl rfl), hfilled⟩
      · exact ⟨link.right, (ends _).mpr (Or.inr rfl), hfilled⟩
    · rwa [List.mem_singleton.mp hother]
    · have across := hmark link (List.mem_singleton_self link)
      rcases (ends p).mp hp with rfl | rfl <;> rcases (ends q).mp hq with rfl | rfl
      · exact Iff.rfl
      · exact across hpf hqf
      · exact (across hqf hpf).symm
      · exact Iff.rfl

end RelQuery.RowSpace

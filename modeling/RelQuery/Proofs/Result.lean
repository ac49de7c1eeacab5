import Mathlib.Data.List.Forall2
import Mathlib.Data.List.Perm.Basic
import Mathlib.Tactic.Lemma
import RelQuery.Join.Input

/-!
# Successful computations

A computation that may fail is taken apart at its success: every step of it succeeded, and the
outcome is built from the outcomes of the steps.  Mapping and filtering a list by something that may
fail are brought back to plain lists in the same way, and do not depend on the order of the list.
-/

namespace RelQuery

/-! ## Sequencing -/

namespace Result

variable {α β : Type}

/-- A sequence succeeds when its first part does and then the second. -/
lemma bind_eq_ok {r : Result α} {f : α → Result β} {b : β} :
    r >>= f = .ok b ↔ ∃ a, r = .ok a ∧ f a = .ok b := by
  cases r with
  | error error => simp [bind, Except.bind]
  | ok a => simp [bind, Except.bind]

/-- The same for a sequence that is not written as a block. -/
lemma bind_eq_ok' {r : Result α} {f : α → Result β} {b : β} :
    Except.bind r f = .ok b ↔ ∃ a, r = .ok a ∧ f a = .ok b :=
  bind_eq_ok

/-- A mapped result succeeds when the result does. -/
lemma map_eq_ok {r : Result α} {f : α → β} {b : β} :
    r.map f = .ok b ↔ ∃ a, r = .ok a ∧ f a = b := by
  cases r with
  | error error => simp [Except.map]
  | ok a => simp [Except.map]

/-- Mapping the outcome of a sequence maps that of its second part. -/
lemma map_bind {γ : Type} (r : Result α) (f : α → Result β) (g : β → γ) :
    Except.map g (r >>= f) = r >>= fun a => Except.map g (f a) := by
  cases r <;> rfl

/-- Placing errors changes no success. -/
@[simp] lemma inPlace_eq_ok {r : Result α} {place : Place} {a : α} :
    r.inPlace place = .ok a ↔ r = .ok a := by
  cases r with
  | error error => simp [inPlace, Except.mapError]
  | ok b => simp [inPlace, Except.mapError]

/-- Returning a value succeeds with it. -/
@[simp] lemma pure_eq_ok {a b : α} : (pure a : Result α) = .ok b ↔ a = b := by
  simp [pure, Except.pure]

/-- A call is settled when it is answered. -/
lemma settled_eq_ok {σ : Type} {call : Result α × σ} {a : α} {state : σ} :
    settled call = .ok (a, state) ↔ call = (.ok a, state) := by
  rcases call with ⟨_ | _, _⟩ <;> simp [settled]

/-- The state after a call is that of an answered one. -/
lemma map_snd_settled_eq_ok {σ : Type} {call : Result α × σ} {state : σ} :
    (settled call).map Prod.snd = .ok state ↔ ∃ a, call = (.ok a, state) := by
  simp [map_eq_ok, settled_eq_ok]

/-- A call whose answer is mapped is answered when the call is. -/
lemma map_fst_eq_ok {σ : Type} {call : Result α × σ} {f : α → β} {b : β} {state : σ} :
    (call.1.map f, call.2) = (.ok b, state) ↔ ∃ a, call = (.ok a, state) ∧ f a = b := by
  rcases call with ⟨_ | _, _⟩ <;> simp [Except.map, and_comm]

/-- The same where the call gives nothing but its success. -/
lemma map_const_fst_eq_ok {σ : Type} {call : Result Unit × σ} {b b' : β} {state : σ} :
    (call.1.map (fun _ => b), call.2) = (.ok b', state) ↔ call = (.ok (), state) ∧ b = b' :=
  map_fst_eq_ok.trans ⟨fun ⟨_, h⟩ => h, fun h => ⟨(), h⟩⟩

/-- The state after a call does not depend on what is made of its answer. -/
lemma map_snd_settled_map {σ : Type} (call : Result α × σ) (f : α → β) :
    (settled (call.1.map f, call.2)).map Prod.snd = (settled call).map Prod.snd := by
  rcases call with ⟨_ | _, _⟩ <;> rfl

/-- The test succeeds and the answer is yes. -/
def holds : Result Bool → Bool
  | .ok passed => passed
  | .error _ => false

/-- A test that holds succeeded with yes. -/
lemma holds_iff {r : Result Bool} : holds r = true ↔ r = .ok true := by
  cases r with
  | error error => simp [holds]
  | ok passed => simp [holds]

/-- A test that succeeded holds when its answer is yes. -/
@[simp] lemma holds_ok (passed : Bool) : holds (.ok passed) = passed := rfl

/-- A test that failed does not hold. -/
@[simp] lemma holds_error (error : Error) : holds (.error error) = false := rfl

end Result

namespace Resolution

variable {α β : Type}

/-- Forgetting what a failure left behind changes no success. -/
lemma result_eq_ok {r : Resolution α} {a : α} : r.result = .ok a ↔ r = .ok a := by
  cases r with
  | error error => simp [result, Except.mapError]
  | ok b => simp [result, Except.mapError]

/-- A part put back in its place succeeds when the part does. -/
lemma put_eq_ok {r : Resolution α} {place : α → β} {b : β} :
    r.put place = .ok b ↔ ∃ a, r = .ok a ∧ place a = b := by
  cases r with
  | error error => simp [put]
  | ok a => simp [put]

end Resolution

/-! ## Lists -/

section Lists

variable {α β : Type}

/-- Mapping a list succeeds when every element does. -/
lemma mapM_eq_ok {f : α → Result β} {l : List α} {r : List β} :
    l.mapM f = .ok r ↔ List.Forall₂ (fun a b => f a = .ok b) l r := by
  induction l generalizing r with
  | nil =>
    rw [List.mapM_nil, Result.pure_eq_ok, List.forall₂_nil_left_iff]
    exact eq_comm
  | cons a rest ih =>
    rw [List.mapM_cons, Result.bind_eq_ok, List.forall₂_cons_left_iff]
    constructor
    · rintro ⟨b, hb, h⟩
      obtain ⟨others, hothers, h⟩ := Result.bind_eq_ok.mp h
      exact ⟨b, others, hb, ih.mp hothers, (Result.pure_eq_ok.mp h).symm⟩
    · rintro ⟨b, others, hb, hothers, rfl⟩
      exact ⟨b, hb, Result.bind_eq_ok.mpr ⟨others, ih.mpr hothers, rfl⟩⟩

/-- Mapping a list succeeds with the images under a function that gives every outcome. -/
lemma mapM_eq_ok_map {f : α → Result β} {g : α → β} {l : List α} (h : ∀ a ∈ l, f a = .ok (g a)) :
    l.mapM f = .ok (l.map g) := by
  rw [mapM_eq_ok, List.forall₂_map_right_iff, List.forall₂_same]
  exact h

/-- An element of the first of two related lists is related to one of the second. -/
lemma exists_of_forall₂ {R : α → β → Prop} {l : List α} {r : List β} (h : List.Forall₂ R l r)
    {a : α} (ha : a ∈ l) : ∃ b ∈ r, R a b := by
  induction h with
  | nil => simp at ha
  | @cons a' b l r hab _ ih =>
    rcases List.mem_cons.mp ha with rfl | ha
    · exact ⟨b, List.mem_cons_self, hab⟩
    · obtain ⟨b', hb', hab'⟩ := ih ha
      exact ⟨b', List.mem_cons_of_mem _ hb', hab'⟩

/-- Lists that are related to one list are related to each other. -/
lemma forall₂_of_common {γ : Type} {R : α → β → Prop} {S : α → γ → Prop} {l : List α} {r : List β}
    {r' : List γ} (h : List.Forall₂ R l r) (h' : List.Forall₂ S l r') :
    List.Forall₂ (fun b c => ∃ a ∈ l, R a b ∧ S a c) r r' := by
  induction h generalizing r' with
  | nil =>
    cases h'
    exact List.Forall₂.nil
  | @cons a b l r hab _ ih =>
    cases h' with
    | cons hac hrest =>
      refine List.Forall₂.cons ⟨a, List.mem_cons_self, hab, hac⟩ ((ih hrest).imp ?_)
      rintro b c ⟨a', ha', hboth⟩
      exact ⟨a', List.mem_cons_of_mem _ ha', hboth⟩

/-- Where a mapped list succeeded every element did. -/
lemma ok_of_mem_of_mapM {f : α → Result β} {l : List α} {r : List β} (h : l.mapM f = .ok r) {a : α}
    (ha : a ∈ l) : ∃ b ∈ r, f a = .ok b :=
  exists_of_forall₂ (mapM_eq_ok.mp h) ha

/-- Every element of the outcome comes from an element of the list. -/
lemma source_of_mem_of_mapM {f : α → Result β} {l : List α} {r : List β} (h : l.mapM f = .ok r)
    {b : β} (hb : b ∈ r) : ∃ a ∈ l, f a = .ok b :=
  exists_of_forall₂ (mapM_eq_ok.mp h).flip hb

/-- The outcome of a mapped list has an element for every position. -/
lemma getElem?_of_mapM {f : α → Result β} {l : List α} {r : List β} (h : l.mapM f = .ok r)
    {i : Nat} {a : α} (ha : l[i]? = some a) : ∃ b, r[i]? = some b ∧ f a = .ok b := by
  rw [mapM_eq_ok] at h
  induction h generalizing i with
  | nil => simp at ha
  | @cons a' b l r hab _ ih =>
    cases i with
    | zero =>
      obtain rfl : a' = a := by simpa using ha
      exact ⟨b, rfl, hab⟩
    | succ i => exact ih (by simpa using ha)

/-- The outcome of a mapped list has at every position what the element there gave. -/
lemma source_of_getElem?_of_mapM {f : α → Result β} {l : List α} {r : List β}
    (h : l.mapM f = .ok r) {i : Nat} {b : β} (hb : r[i]? = some b) :
    ∃ a, l[i]? = some a ∧ f a = .ok b := by
  rw [mapM_eq_ok] at h
  induction h generalizing i with
  | nil => simp at hb
  | @cons a b' l r hab _ ih =>
    cases i with
    | zero =>
      obtain rfl : b' = b := by simpa using hb
      exact ⟨a, rfl, hab⟩
    | succ i => exact ih (by simpa using hb)

/-- The outcome of a mapped list is its image under a function that every outcome agrees with. -/
lemma eq_map_of_mapM {f : α → Result β} {g : α → β} {l : List α} {r : List β}
    (h : l.mapM f = .ok r) (hg : ∀ a ∈ l, ∀ b, f a = .ok b → b = g a) : r = l.map g := by
  rw [mapM_eq_ok] at h
  induction h with
  | nil => rfl
  | @cons a b l r hab _ ih =>
    rw [List.map_cons, hg a List.mem_cons_self b hab,
      ih fun a' ha' => hg a' (List.mem_cons_of_mem _ ha')]

/-- A mapped list that succeeded is the image under some function. -/
lemma exists_map_of_mapM [Inhabited β] {f : α → Result β} {l : List α} {r : List β}
    (h : l.mapM f = .ok r) : ∃ g : α → β, (∀ a ∈ l, f a = .ok (g a)) ∧ r = l.map g := by
  have value (a : α) (b : β) (hb : f a = .ok b) : b = (f a).toOption.getD default := by
    rw [hb]
    rfl
  refine ⟨fun a => (f a).toOption.getD default, fun a ha => ?_,
    eq_map_of_mapM h fun a _ => value a⟩
  obtain ⟨b, -, hb⟩ := ok_of_mem_of_mapM h ha
  exact hb.trans (congrArg Except.ok (value a b hb))

/-- Mapping by two steps after each other is mapping by both in turn. -/
lemma mapM_bind_eq_ok {γ : Type} {f : α → Result β} {g : β → Result γ} {l : List α} {r : List γ}
    (h : (l.mapM fun a => f a >>= g) = .ok r) :
    ∃ between, l.mapM f = .ok between ∧ between.mapM g = .ok r := by
  simp only [mapM_eq_ok] at h ⊢
  induction h with
  | nil => exact ⟨[], List.Forall₂.nil, List.Forall₂.nil⟩
  | cons hfirst _ ih =>
    obtain ⟨b, hb, hc⟩ := Result.bind_eq_ok.mp hfirst
    obtain ⟨between, hf, hg⟩ := ih
    exact ⟨b :: between, List.Forall₂.cons hb hf, List.Forall₂.cons hc hg⟩

/-- Mapping by something that agrees on the elements of the list. -/
lemma mapM_congr {f g : α → Result β} {l : List α} (h : ∀ a ∈ l, f a = g a) :
    l.mapM f = l.mapM g := by
  induction l with
  | nil => rfl
  | cons a rest ih =>
    rw [List.mapM_cons, List.mapM_cons, h a List.mem_cons_self,
      ih fun a' ha' => h a' (List.mem_cons_of_mem _ ha')]

/-- Mapping by something else that gives every outcome too. -/
lemma mapM_congr_of_ok {f g : α → Result β} {l : List α} {r : List β} (h : l.mapM f = .ok r)
    (hg : ∀ a ∈ l, ∀ b, f a = .ok b → g a = .ok b) : l.mapM g = .ok r := by
  rw [mapM_eq_ok] at h ⊢
  induction h with
  | nil => exact List.Forall₂.nil
  | @cons a b l r hab _ ih =>
    exact List.Forall₂.cons (hg a List.mem_cons_self b hab)
      (ih fun a' ha' => hg a' (List.mem_cons_of_mem _ ha'))

/-- Lists of related elements, where related elements have the same outcome, have the same
outcomes. -/
lemma mapM_eq_of_forall₂ {f : α → Result β} {R : α → α → Prop} {l l' : List α} {r r' : List β}
    (hl : List.Forall₂ R l l') (h : l.mapM f = .ok r) (h' : l'.mapM f = .ok r')
    (hsame : ∀ a ∈ l, ∀ a', R a a' → ∀ b b', f a = .ok b → f a' = .ok b' → b = b') : r = r' := by
  rw [mapM_eq_ok] at h h'
  induction hl generalizing r r' with
  | nil =>
    cases h
    cases h'
    rfl
  | @cons a a' _ _ haa' _ ih =>
    cases h with
    | cons hb hrest =>
      cases h' with
      | cons hb' hrest' =>
        rw [hsame a List.mem_cons_self a' haa' _ _ hb hb',
          ih hrest hrest' fun c hc => hsame c (List.mem_cons_of_mem _ hc)]

/-- Mapping a numbered list by something that does not look at the numbers. -/
lemma mapM_of_zipIdx {f : α × Nat → Result β} {g : α → Result β} {l : List α} {first : Nat}
    {r : List β} (h : (l.zipIdx first).mapM f = .ok r)
    (hg : ∀ a n b, f (a, n) = .ok b → g a = .ok b) : l.mapM g = .ok r := by
  rw [mapM_eq_ok] at h ⊢
  induction l generalizing first r with
  | nil =>
    obtain rfl := List.forall₂_nil_left_iff.mp h
    exact List.Forall₂.nil
  | cons a rest ih =>
    rw [List.zipIdx_cons, List.forall₂_cons_left_iff] at h
    obtain ⟨b, others, hb, hothers, rfl⟩ := h
    exact List.Forall₂.cons (hg a first b hb) (ih hothers)

/-- Mapping over one element gives the result of this element. -/
lemma eq_singleton_of_mapM {f : α → Result β} {a : α} {found : List β}
    (h : [a].mapM f = .ok found) : ∃ b, f a = .ok b ∧ found = [b] := by
  cases mapM_eq_ok.mp h with
  | cons hb hrest =>
    cases hrest
    exact ⟨_, hb, rfl⟩

/-- A mapped list keeps its length. -/
lemma length_of_mapM {f : α → Result β} {l : List α} {r : List β} (h : l.mapM f = .ok r) :
    r.length = l.length :=
  (mapM_eq_ok.mp h).length_eq.symm

/-- Mapping does not depend on the order of the list. -/
lemma exists_mapM_of_perm {f : α → Result β} {l l' : List α} {r : List β} (hl : l.Perm l')
    (h : l.mapM f = .ok r) : ∃ r', l'.mapM f = .ok r' ∧ r.Perm r' := by
  obtain ⟨r', hperm, hr'⟩ := List.perm_comp_forall₂ hl.symm (mapM_eq_ok.mp h)
  exact ⟨r', mapM_eq_ok.mpr hperm, hr'.symm⟩

/-- Filtering by a test that may fail succeeds when every test does, and keeps what passes. -/
lemma filterResult_eq_ok {test : α → Result Bool} {l r : List α} :
    filterResult test l = .ok r ↔
      (∀ a ∈ l, ∃ passed, test a = .ok passed) ∧ r = l.filter fun a => Result.holds (test a) := by
  induction l generalizing r with
  | nil => simp [filterResult, eq_comm]
  | cons a rest ih =>
    rw [filterResult]
    cases ha : test a with
    | error error => simp [ha]
    | ok passed =>
      simp only [Result.map_eq_ok, ih, List.mem_cons, forall_eq_or_imp, ha, List.filter_cons,
        Result.holds_ok]
      constructor
      · rintro ⟨others, ⟨hrest, rfl⟩, rfl⟩
        exact ⟨⟨⟨passed, rfl⟩, hrest⟩, rfl⟩
      · rintro ⟨⟨-, hrest⟩, rfl⟩
        exact ⟨_, ⟨hrest, rfl⟩, rfl⟩

end Lists

/-! ## Errors -/

section Errors

variable {α β : Type} {error : Error}

/-- A sequence fails where its first part does, or after it the second. -/
lemma Result.bind_eq_error {r : Result α} {f : α → Result β} :
    r >>= f = .error error ↔ r = .error error ∨ ∃ a, r = .ok a ∧ f a = .error error := by
  cases r with
  | error other => simp [bind, Except.bind]
  | ok a => simp [bind, Except.bind]

/-- A mapped result fails when the result does. -/
lemma Result.map_eq_error {r : Result α} {f : α → β} :
    Except.map f r = .error error ↔ r = .error error := by
  cases r with
  | error other => simp [Except.map]
  | ok a => simp [Except.map]

/-- A sequence raises an error only where one of its parts does. -/
lemma Result.bind_ne_error {r : Result α} {f : α → Result β} (hr : r ≠ .error error)
    (hf : ∀ a, r = .ok a → f a ≠ .error error) : r >>= f ≠ .error error := by
  intro h
  rcases bind_eq_error.mp h with h | ⟨a, ha, h⟩
  · exact hr h
  · exact hf a ha h

/-- A mapped result raises no other errors. -/
lemma Result.map_ne_error {r : Result α} (hr : r ≠ .error error) (f : α → β) :
    Except.map f r ≠ .error error :=
  fun h => hr (map_eq_error.mp h)

/-- Mapping a list raises an error only where an element does. -/
lemma mapM_ne_error {f : α → Result β} {l : List α} (h : ∀ a ∈ l, f a ≠ .error error) :
    l.mapM f ≠ .error error := by
  induction l with
  | nil => simp [pure, Except.pure]
  | cons a rest ih =>
    rw [List.mapM_cons]
    refine Result.bind_ne_error (h a List.mem_cons_self) fun b _ => ?_
    refine Result.bind_ne_error (ih fun a' ha' => h a' (List.mem_cons_of_mem _ ha')) fun bs _ => ?_
    simp [pure, Except.pure]

/-- Filtering a list raises an error only where a test does. -/
lemma filterResult_ne_error {test : α → Result Bool} {l : List α}
    (h : ∀ a ∈ l, test a ≠ .error error) : filterResult test l ≠ .error error := by
  induction l with
  | nil => simp [filterResult]
  | cons a rest ih =>
    rw [filterResult]
    split
    · rename_i other hother
      simpa [hother] using h a List.mem_cons_self
    · exact Result.map_ne_error (ih fun a' ha' => h a' (List.mem_cons_of_mem _ ha')) _

/-- A fold whose steps keep an invariant raises an error only where a step does. -/
lemma foldlM_ne_error {R : β → Prop} {f : β → α → Result β} {l : List α} {b : β} (start : R b)
    (step : ∀ b, R b → ∀ a ∈ l, f b a ≠ .error error)
    (keep : ∀ b, R b → ∀ a ∈ l, ∀ b', f b a = .ok b' → R b') : l.foldlM f b ≠ .error error := by
  induction l generalizing b with
  | nil => simp [pure, Except.pure]
  | cons a rest ih =>
    rw [List.foldlM_cons]
    refine Result.bind_ne_error (step b start a List.mem_cons_self) fun b' hb' => ?_
    exact ih (keep b start a List.mem_cons_self b' hb')
      (fun b hb a' ha' => step b hb a' (List.mem_cons_of_mem _ ha'))
      fun b hb a' ha' => keep b hb a' (List.mem_cons_of_mem _ ha')

/-- Mapping a list that fails has an element that fails. -/
lemma exists_error_of_mapM {f : α → Result β} {l : List α} (h : l.mapM f = .error error) :
    ∃ a ∈ l, f a = .error error := by
  by_contra hnone
  exact mapM_ne_error (fun a ha herror => hnone ⟨a, ha, herror⟩) h

end Errors

end RelQuery

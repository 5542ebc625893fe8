import Mathlib.Data.List.Forall2

/-!
Computations that may fail, taken apart: what has succeeded when a sequence of them has, and which
part has failed when it has not.
-/

namespace BusinessModel

section Sequence

variable {α β ε : Type}

/-- A computation followed by another succeeds if both do. -/
theorem bind_eq_ok_iff {x : Except ε α} {f : α → Except ε β} {y : β} :
    x >>= f = .ok y ↔ ∃ a, x = .ok a ∧ f a = .ok y := by
  cases x with
  | error e => simp [bind, Except.bind]
  | ok a => simp [bind, Except.bind]

/-- A computation followed by another fails if the first does, or the second on what the first has
computed. -/
theorem bind_eq_error_iff {x : Except ε α} {f : α → Except ε β} {e : ε} :
    x >>= f = .error e ↔ x = .error e ∨ ∃ a, x = .ok a ∧ f a = .error e := by
  cases x with
  | error e' => simp [bind, Except.bind]
  | ok a => simp [bind, Except.bind]

/-- A computation followed by one that does not fail. -/
theorem exists_bind_pure_iff {x : Except ε α} {g : α → β} :
    (∃ y, (x >>= fun a => pure (g a)) = .ok y) ↔ ∃ a, x = .ok a := by
  cases x with
  | error e => exact iff_of_false (by rintro ⟨y, ⟨⟩⟩) (by rintro ⟨a, ⟨⟩⟩)
  | ok a => exact iff_of_true ⟨g a, rfl⟩ ⟨a, rfl⟩

theorem mapError_eq_ok_iff {ε' : Type} {x : Except ε α} {f : ε → ε'} {a : α} :
    x.mapError f = .ok a ↔ x = .ok a := by
  cases x with
  | error e => simp [Except.mapError]
  | ok b => simp [Except.mapError]

theorem mapError_eq_error_iff {ε' : Type} {x : Except ε α} {f : ε → ε'} {e : ε'} :
    x.mapError f = .error e ↔ ∃ cause, x = .error cause ∧ f cause = e := by
  cases x with
  | error cause => simp [Except.mapError]
  | ok b => simp [Except.mapError]

theorem toOption_eq_some_iff {x : Except ε α} {a : α} : x.toOption = some a ↔ x = .ok a := by
  cases x with
  | error e => simp [Except.toOption]
  | ok b => simp [Except.toOption]

/-- A test of a result that is passed has a result. -/
theorem exists_of_any_toOption {x : Except ε α} {p : α → Bool} (h : x.toOption.any p = true) :
    ∃ a, x = .ok a ∧ p a = true := by
  obtain ⟨a, ha, hp⟩ := (Option.any_eq_true p x.toOption).mp h
  exact ⟨a, toOption_eq_some_iff.mp ha, hp⟩

/-- Mapping a list by a function that may fail fails only if it does on a member. -/
theorem exists_of_mapM_eq_error {f : α → Except ε β} {xs : List α} {e : ε}
    (h : xs.mapM f = .error e) : ∃ x ∈ xs, f x = .error e := by
  induction xs with
  | nil => cases h
  | cons x xs ih =>
    rw [List.mapM_cons] at h
    rcases bind_eq_error_iff.mp h with hx | ⟨y, _, hrest⟩
    · exact ⟨x, List.mem_cons_self, hx⟩
    · rcases bind_eq_error_iff.mp hrest with hxs | ⟨ys, _, hpure⟩
      · obtain ⟨z, hz, hfz⟩ := ih hxs
        exact ⟨z, List.mem_cons_of_mem _ hz, hfz⟩
      · cases hpure

end Sequence

/-- Mapping a list by a function that may fail succeeds if every member succeeds. -/
theorem mapM_eq_ok_iff {α β ε : Type} {f : α → Except ε β} {xs : List α} {ys : List β} :
    xs.mapM f = .ok ys ↔ List.Forall₂ (fun x y => f x = .ok y) xs ys := by
  induction xs generalizing ys with
  | nil =>
    rw [List.mapM_nil, List.forall₂_nil_left_iff]
    exact ⟨fun h => (Except.ok.inj h).symm, fun h => h ▸ rfl⟩
  | cons x xs ih =>
    rw [List.mapM_cons, List.forall₂_cons_left_iff]
    constructor
    · intro h
      obtain ⟨y, hy, h⟩ := bind_eq_ok_iff.mp h
      obtain ⟨rest, hrest, h⟩ := bind_eq_ok_iff.mp h
      exact ⟨y, rest, hy, ih.mp hrest, (Except.ok.inj h).symm⟩
    · rintro ⟨y, rest, hy, hrest, rfl⟩
      simp [hy, ih.mpr hrest, bind, Except.bind, pure, Except.pure]

/-- A fold that appends a result for each member, as long as it differs from those before it. -/
theorem foldlM_append_eq_ok {α β ε : Type} {R : α → β → Prop} {D : β → β → Prop}
    {f : List β → α → Except ε (List β)}
    (hstep : ∀ seen x y, R x y → (∀ z ∈ seen, D z y) → f seen x = .ok (seen ++ [y]))
    {xs : List α} {ys : List β} (h : List.Forall₂ R xs ys) (hdistinct : ys.Pairwise D)
    (seen : List β) (hseen : ∀ z ∈ seen, ∀ y ∈ ys, D z y) :
    xs.foldlM f seen = .ok (seen ++ ys) := by
  induction h generalizing seen with
  | nil => rw [List.append_nil]; rfl
  | @cons x y xs ys hxy _ ih =>
    obtain ⟨hy, hdistinct⟩ := List.pairwise_cons.mp hdistinct
    rw [List.foldlM_cons, hstep seen x y hxy fun z hz => hseen z hz y List.mem_cons_self]
    refine (ih hdistinct (seen ++ [y]) fun z hz w hw => ?_).trans (by simp)
    rcases List.mem_append.mp hz with hz | hz
    · exact hseen z hz w (List.mem_cons_of_mem _ hw)
    · rw [List.mem_singleton.mp hz]
      exact hy w hw

/-- Each result of a mapping is that of a member. -/
theorem exists_of_mem_mapM {α β ε : Type} {f : α → Except ε β} {xs : List α} {ys : List β}
    (h : xs.mapM f = .ok ys) {y : β} (hy : y ∈ ys) : ∃ x ∈ xs, f x = .ok y := by
  have hall := mapM_eq_ok_iff.mp h
  clear h
  induction hall with
  | nil => cases hy
  | cons hx _ ih =>
    rcases List.mem_cons.mp hy with rfl | hy
    · exact ⟨_, List.mem_cons_self, hx⟩
    · obtain ⟨x, hmem, hfx⟩ := ih hy
      exact ⟨x, List.mem_cons_of_mem _ hmem, hfx⟩

/-- A mapping that succeeds does so on each member, and has its result. -/
theorem exists_eq_ok_of_mapM {α β ε : Type} {f : α → Except ε β} {xs : List α} {ys : List β}
    (h : xs.mapM f = .ok ys) {x : α} (hx : x ∈ xs) : ∃ y ∈ ys, f x = .ok y := by
  have hall := mapM_eq_ok_iff.mp h
  clear h
  induction hall with
  | nil => cases hx
  | cons hy _ ih =>
    rcases List.mem_cons.mp hx with rfl | hx
    · exact ⟨_, List.mem_cons_self, hy⟩
    · obtain ⟨y, hmem, hfx⟩ := ih hx
      exact ⟨y, List.mem_cons_of_mem _ hmem, hfx⟩

theorem exists_forall₂ {α β : Type} {R : α → β → Prop} {xs : List α}
    (h : ∀ x ∈ xs, ∃ y, R x y) : ∃ ys, List.Forall₂ R xs ys := by
  induction xs with
  | nil => exact ⟨[], .nil⟩
  | cons x xs ih =>
    obtain ⟨y, hy⟩ := h x List.mem_cons_self
    obtain ⟨ys, hys⟩ := ih fun z hz => h z (List.mem_cons_of_mem _ hz)
    exact ⟨y :: ys, .cons hy hys⟩

/-- A mapping has a result if it has one on each member. -/
theorem exists_mapM_eq_ok_iff {α β ε : Type} {f : α → Except ε β} {xs : List α} :
    (∃ ys, xs.mapM f = .ok ys) ↔ ∀ x ∈ xs, ∃ y, f x = .ok y := by
  constructor
  · rintro ⟨ys, hys⟩ x hx
    obtain ⟨y, -, hy⟩ := exists_eq_ok_of_mapM hys hx
    exact ⟨y, hy⟩
  · intro h
    obtain ⟨ys, hys⟩ := exists_forall₂ h
    exact ⟨ys, mapM_eq_ok_iff.mpr hys⟩

/-- Every member of the list that a computation yields has the property. -/
structure Yields {α ε : Type} (P : α → Prop) (x : Except ε (List α)) : Prop where
  of_mem : ∀ {ys}, x = .ok ys → ∀ y ∈ ys, P y

namespace Yields

variable {α β ε : Type} {P : α → Prop}

theorem ok {ys : List α} (h : ∀ y ∈ ys, P y) : Yields P (.ok ys : Except ε (List α)) := by
  constructor
  intro ys' hys
  cases hys
  exact h

theorem nil : Yields P (.ok [] : Except ε (List α)) := .ok (by simp)

theorem singleton {y : α} (h : P y) : Yields P (.ok [y] : Except ε (List α)) :=
  .ok fun _ hz => List.mem_singleton.mp hz ▸ h

theorem error (e : ε) : Yields P (.error e : Except ε (List α)) := by
  constructor
  intro ys hys
  cases hys

theorem bind {x : Except ε β} {f : β → Except ε (List α)}
    (h : ∀ a, x = .ok a → Yields P (f a)) : Yields P (x >>= f) := by
  constructor
  intro ys hys
  obtain ⟨a, ha, hf⟩ := bind_eq_ok_iff.mp hys
  exact (h a ha).of_mem hf

/-- The lists that a mapping yields, joined. -/
theorem flatten_mapM {xs : List β} {f : β → Except ε (List α)} (h : ∀ x ∈ xs, Yields P (f x)) :
    Yields P (do return (← xs.mapM f).flatten) := by
  refine .bind fun lists hlists => .ok fun y hy => ?_
  obtain ⟨ys, hys, hy⟩ := List.mem_flatten.mp hy
  obtain ⟨x, hx, hfx⟩ := exists_of_mem_mapM hlists hys
  exact (h x hx).of_mem hfx y hy

end Yields

/-- A computation fails with an error of one kind or has a result of another. -/
structure Ends {α ε : Type} (P : ε → Prop) (Q : α → Prop) (x : Except ε α) : Prop where
  of_error : ∀ {e}, x = .error e → P e
  of_ok : ∀ {a}, x = .ok a → Q a

namespace Ends

variable {α β ε : Type} {P : ε → Prop} {Q : α → Prop} {R : β → Prop}

theorem ok {a : α} (h : Q a) : Ends P Q (.ok a) := by
  constructor
  · intro e he
    cases he
  · intro b hb
    cases hb
    exact h

theorem error {e : ε} (h : P e) : Ends P Q (.error e) := by
  constructor
  · intro e' he
    cases he
    exact h
  · intro a ha
    cases ha

theorem mono {P' : ε → Prop} {Q' : α → Prop} {x : Except ε α} (h : Ends P' Q' x)
    (hP : ∀ e, P' e → P e) (hQ : ∀ a, Q' a → Q a) : Ends P Q x :=
  ⟨fun he => hP _ (h.of_error he), fun ha => hQ _ (h.of_ok ha)⟩

theorem bind {x : Except ε α} {f : α → Except ε β} (hx : Ends P Q x)
    (hf : ∀ a, Q a → Ends P R (f a)) : Ends P R (x >>= f) := by
  constructor
  · intro e h
    rcases bind_eq_error_iff.mp h with h | ⟨a, ha, h⟩
    · exact hx.of_error h
    · exact (hf a (hx.of_ok ha)).of_error h
  · intro b h
    obtain ⟨a, ha, h⟩ := bind_eq_ok_iff.mp h
    exact (hf a (hx.of_ok ha)).of_ok h

theorem mapM {f : α → Except ε β} {xs : List α} (h : ∀ x ∈ xs, Ends P R (f x)) :
    Ends P (fun ys => ∀ y ∈ ys, R y) (xs.mapM f) := by
  constructor
  · intro e he
    obtain ⟨x, hx, hfx⟩ := exists_of_mapM_eq_error he
    exact (h x hx).of_error hfx
  · intro ys hys y hy
    obtain ⟨x, hx, hfx⟩ := exists_of_mem_mapM hys hy
    exact (h x hx).of_ok hfx

/-- What is known of the result on each member relates the members to the results in order. -/
theorem mapM_forall₂ {S : α → β → Prop} {f : α → Except ε β} {xs : List α}
    (h : ∀ x ∈ xs, Ends P (S x) (f x)) : Ends P (List.Forall₂ S xs) (xs.mapM f) := by
  constructor
  · intro e he
    obtain ⟨x, hx, hfx⟩ := exists_of_mapM_eq_error he
    exact (h x hx).of_error hfx
  · intro ys hys
    have hmembers := (List.forall₂_and_left xs ys).mpr ⟨fun x hx => hx, mapM_eq_ok_iff.mp hys⟩
    exact hmembers.imp fun x y hxy => (h x hxy.1).of_ok hxy.2

/-- A fold whose steps keep a property of what has been gathered so far. -/
theorem foldlM {f : β → α → Except ε β} {xs : List α}
    (h : ∀ x ∈ xs, ∀ b, R b → Ends P R (f b x)) {b : β} (hb : R b) :
    Ends P R (xs.foldlM f b) := by
  induction xs generalizing b with
  | nil => exact .ok hb
  | cons x xs ih =>
    rw [List.foldlM_cons]
    exact .bind (h x List.mem_cons_self b hb) fun c hc =>
      ih (fun y hy => h y (List.mem_cons_of_mem _ hy)) hc

end Ends

/-- What is made of all results of a mapping can be made of each. -/
theorem map_mapM {α β γ ε : Type} (f : α → Except ε β) (g : β → γ) (xs : List α) :
    (xs.mapM f).map (List.map g) = xs.mapM fun x => (f x).map g := by
  induction xs with
  | nil => rfl
  | cons x xs ih =>
    rw [List.mapM_cons, List.mapM_cons, ← ih]
    cases f x with
    | error e => rfl
    | ok y => cases xs.mapM f <;> rfl

/-- What a fold keeps of two members is one of them, and so is what it keeps of all. -/
theorem foldl_choice_mem {α : Type} {f : α → α → α} (hf : ∀ a b, f a b = a ∨ f a b = b)
    (a : α) (xs : List α) : xs.foldl f a ∈ a :: xs := by
  induction xs generalizing a with
  | nil => exact List.mem_cons_self
  | cons x xs ih =>
    rw [List.foldl_cons]
    rcases hf a x with h | h
    · rw [h]
      rcases List.mem_cons.mp (ih a) with hmem | hmem
      · rw [hmem]
        exact List.mem_cons_self
      · exact List.mem_cons_of_mem _ (List.mem_cons_of_mem _ hmem)
    · rw [h]
      exact List.mem_cons_of_mem _ (ih x)

end BusinessModel

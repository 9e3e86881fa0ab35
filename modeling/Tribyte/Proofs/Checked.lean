/-! Computations that may fail: what a chain of them has done when it succeeds, and how two chains that go side by
side compare (`Related`). -/
namespace Tribyte.Checked

variable {ε α β : Type}

theorem bind_eq_ok_iff {x : Except ε α} {f : α → Except ε β} {b : β} :
    (x >>= f) = .ok b ↔ ∃ a, x = .ok a ∧ f a = .ok b := by
  cases x with
  | error e =>
    constructor
    · intro h
      cases h
    · intro h
      obtain ⟨a, ha, -⟩ := h
      cases ha
  | ok a =>
    constructor
    · intro h
      exact ⟨a, rfl, h⟩
    · intro h
      obtain ⟨a', ha, h⟩ := h
      cases ha
      exact h

theorem map_eq_ok_iff {x : Except ε α} {f : α → β} {b : β} : x.map f = .ok b ↔ ∃ a, x = .ok a ∧ f a = b := by
  cases x with
  | error e => simp [Except.map]
  | ok a => simp [Except.map]

/-- Here `g` is what `f` gives where it succeeds. -/
theorem mapM_eq_ok_iff {f : α → Except ε β} {g : α → β} (hg : ∀ {a b}, f a = .ok b → g a = b)
    {as : List α} {bs : List β} :
    as.mapM f = .ok bs ↔ (∀ a ∈ as, f a = .ok (g a)) ∧ as.map g = bs := by
  induction as generalizing bs with
  | nil =>
    rw [List.mapM_nil, List.map_nil]
    show Except.ok [] = Except.ok bs ↔ _
    simp
  | cons a rest ih =>
    rw [List.mapM_cons, bind_eq_ok_iff]
    constructor
    · intro h
      obtain ⟨b, hb, h⟩ := h
      obtain ⟨cs, hcs, h⟩ := bind_eq_ok_iff.mp h
      obtain ⟨hall, rfl⟩ := ih.mp hcs
      cases h
      have := hg hb
      subst this
      refine ⟨?_, rfl⟩
      intro c hc
      rcases List.mem_cons.mp hc with rfl | hc
      · exact hb
      · exact hall c hc
    · intro h
      obtain ⟨hall, rfl⟩ := h
      refine ⟨g a, hall a (List.mem_cons_self ..), bind_eq_ok_iff.mpr ⟨rest.map g, ?_, rfl⟩⟩
      exact ih.mpr ⟨fun c hc => hall c (List.mem_cons_of_mem a hc), rfl⟩

/-- What every step keeps holds in the end. -/
theorem foldlM_keeps {f : β → α → Except ε β} {P : β → Prop}
    (hstep : ∀ {b a b'}, P b → f b a = .ok b' → P b') {as : List α} {b b' : β} (hb : P b)
    (h : as.foldlM f b = .ok b') : P b' := by
  induction as generalizing b with
  | nil =>
    cases h
    exact hb
  | cons a rest ih =>
    rw [List.foldlM_cons] at h
    obtain ⟨c, hc, h⟩ := bind_eq_ok_iff.mp h
    exact ih (hstep hb hc) h

/-! ### Failures -/

theorem bind_eq_error_iff {x : Except ε α} {f : α → Except ε β} {e : ε} :
    (x >>= f) = .error e ↔ x = .error e ∨ ∃ a, x = .ok a ∧ f a = .error e := by
  cases x with
  | error e' =>
    show Except.error e' = Except.error e ↔ _
    simp
  | ok a =>
    show f a = Except.error e ↔ _
    simp

/-- A fold fails at the first step that does. -/
theorem foldlM_eq_error {f : β → α → Except ε β} {as : List α} {b : β} {e : ε} (h : as.foldlM f b = .error e) :
    ∃ front a back b', as = front ++ a :: back ∧ front.foldlM f b = .ok b' ∧ f b' a = .error e := by
  induction as generalizing b with
  | nil => cases h
  | cons a rest ih =>
    rw [List.foldlM_cons] at h
    rcases bind_eq_error_iff.mp h with h | ⟨c, hc, h⟩
    · exact ⟨[], a, rest, b, rfl, rfl, h⟩
    · obtain ⟨front, a', back, b', rfl, hfront, hfails⟩ := ih h
      refine ⟨a :: front, a', back, b', rfl, ?_, hfails⟩
      rw [List.foldlM_cons, hc]
      exact hfront

/-- What follows a failure does not matter. -/
theorem foldlM_append_of_error {f : β → α → Except ε β} {as : List α} {b : β} {e : ε} (h : as.foldlM f b = .error e)
    (more : List α) : (as ++ more).foldlM f b = .error e := by
  rw [List.foldlM_append, h]
  rfl

theorem mapM_eq_error {f : α → Except ε β} {as : List α} {e : ε} (h : as.mapM f = .error e) :
    ∃ a ∈ as, f a = .error e := by
  induction as with
  | nil => cases h
  | cons a rest ih =>
    rw [List.mapM_cons] at h
    rcases bind_eq_error_iff.mp h with h | ⟨b, -, h⟩
    · exact ⟨a, List.mem_cons_self .., h⟩
    · rcases bind_eq_error_iff.mp h with h | ⟨bs, -, h⟩
      · obtain ⟨a', ha', h⟩ := ih h
        exact ⟨a', List.mem_cons_of_mem a ha', h⟩
      · cases h

/-! ### Two computations side by side -/

/-- Two computations fail together, with errors so related, or succeed together, with results so related. -/
inductive Related {ε' : Type} (E : ε → ε' → Prop) (R : α → β → Prop) : Except ε α → Except ε' β → Prop
  | error {e : ε} {e' : ε'} (h : E e e') : Related E R (.error e) (.error e')
  | ok {a : α} {b : β} (h : R a b) : Related E R (.ok a) (.ok b)

namespace Related

variable {ε' γ δ : Type} {E : ε → ε' → Prop} {R : α → β → Prop} {S : γ → δ → Prop}

theorem bind {x : Except ε α} {y : Except ε' β} {f : α → Except ε γ} {g : β → Except ε' δ} (h : Related E R x y)
    (hnext : ∀ {a b}, R a b → Related E S (f a) (g b)) : Related E S (x >>= f) (y >>= g) := by
  cases h with
  | error h => exact .error h
  | ok h => exact hnext h

theorem ite {p : Prop} [Decidable p] {x x' : Except ε α} {y y' : Except ε' β} (h : p → Related E R x y)
    (h' : ¬p → Related E R x' y') : Related E R (if p then x else x') (if p then y else y') := by
  by_cases hp : p
  · rw [if_pos hp, if_pos hp]
    exact h hp
  · rw [if_neg hp, if_neg hp]
    exact h' hp

theorem foldlM {f : α → γ → Except ε α} {g : β → δ → Except ε' β} (m : γ → δ)
    (hstep : ∀ {a b}, R a b → ∀ c, Related E R (f a c) (g b (m c))) {a : α} {b : β} (h : R a b) (cs : List γ) :
    Related E R (cs.foldlM f a) ((cs.map m).foldlM g b) := by
  induction cs generalizing a b with
  | nil => exact .ok h
  | cons c rest ih =>
    rw [List.map_cons, List.foldlM_cons, List.foldlM_cons]
    exact (hstep h c).bind fun h => ih h

theorem mapM {f : α → Except ε γ} {g : β → Except ε' γ} (m : α → β) (h : ∀ a, Related E Eq (f a) (g (m a)))
    (as : List α) : Related E Eq (as.mapM f) ((as.map m).mapM g) := by
  induction as with
  | nil => exact .ok rfl
  | cons a rest ih =>
    rw [List.map_cons, List.mapM_cons, List.mapM_cons]
    refine (h a).bind ?_
    rintro c _ rfl
    refine ih.bind ?_
    rintro cs _ rfl
    exact .ok rfl

theorem eq_mapError {m : ε → ε'} {x : Except ε α} {y : Except ε' α} (h : Related (fun e e' => e' = m e) Eq x y) :
    y = x.mapError m := by
  cases h with
  | error h => exact congrArg Except.error h
  | ok h => exact congrArg Except.ok h.symm

end Related

end Tribyte.Checked

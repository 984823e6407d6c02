import Mathlib.Data.List.Forall2
import Mathlib.Tactic.Lemma

/-!
# Computations that can fail

When a chain of computations succeeds, which of its links a failure comes from, what all results
and all failures of a chain have in common, and when two chains come out alike.
-/

namespace SheetFormula.Result

universe u
variable {ε δ α β γ : Type u}

@[simp] lemma bind_eq_ok {x : Except ε α} {f : α → Except ε β} {b : β} :
    (x >>= f) = .ok b ↔ ∃ a, x = .ok a ∧ f a = .ok b := by
  cases x <;> simp [bind, Except.bind]

@[simp] lemma bind_eq_error {x : Except ε α} {f : α → Except ε β} {e : ε} :
    (x >>= f) = .error e ↔ x = .error e ∨ ∃ a, x = .ok a ∧ f a = .error e := by
  cases x <;> simp [bind, Except.bind]

@[simp] lemma fmap_eq_ok {x : Except ε α} {f : α → β} {b : β} :
    (f <$> x) = .ok b ↔ ∃ a, x = .ok a ∧ f a = b := by
  cases x <;> simp [Functor.map, Except.map]

@[simp] lemma fmap_eq_error {x : Except ε α} {f : α → β} {e : ε} :
    (f <$> x) = .error e ↔ x = .error e := by
  cases x <;> simp [Functor.map, Except.map]

@[simp] lemma map_eq_ok {x : Except ε α} {f : α → β} {b : β} :
    x.map f = .ok b ↔ ∃ a, x = .ok a ∧ f a = b := by
  cases x <;> simp [Except.map]

@[simp] lemma map_eq_error {x : Except ε α} {f : α → β} {e : ε} :
    x.map f = .error e ↔ x = .error e := by
  cases x <;> simp [Except.map]

@[simp] lemma mapError_eq_ok {x : Except ε α} {f : ε → γ} {a : α} :
    x.mapError f = .ok a ↔ x = .ok a := by
  cases x <;> simp [Except.mapError]

@[simp] lemma mapError_eq_error {x : Except ε α} {f : ε → γ} {e : γ} :
    x.mapError f = .error e ↔ ∃ d, x = .error d ∧ f d = e := by
  cases x <;> simp [Except.mapError]

@[simp] lemma toOption_eq_some {x : Except ε α} {a : α} : x.toOption = some a ↔ x = .ok a := by
  cases x <;> simp [Except.toOption]

@[simp] lemma pure_eq_ok {a b : α} : (pure a : Except ε α) = .ok b ↔ a = b := by
  simp [pure, Except.pure]

@[simp] lemma pure_ne_error {a : α} {e : ε} : (pure a : Except ε α) ≠ .error e := by
  simp [pure, Except.pure]

@[simp] lemma throw_ne_ok {a : α} {e : ε} : (throw e : Except ε α) ≠ .ok a := by
  simp [throw, throwThe, MonadExceptOf.throw]

@[simp] lemma throw_eq_error {e e' : ε} : (throw e : Except ε α) = .error e' ↔ e = e' := by
  simp [throw, throwThe, MonadExceptOf.throw]

/-- If all results that are there stay the same, then so does a list of them. -/
lemma mapM_of_ok {f g : α → Except ε β} {xs : List α} {ys : List β}
    (hfg : ∀ x ∈ xs, ∀ y, f x = .ok y → g x = .ok y) (h : xs.mapM f = .ok ys) :
    xs.mapM g = .ok ys := by
  induction xs generalizing ys with
  | nil => exact h
  | cons x rest ih =>
    obtain ⟨hx, hrest⟩ := List.forall_mem_cons.mp hfg
    rw [List.mapM_cons, bind_eq_ok] at h ⊢
    obtain ⟨y, hy, h⟩ := h
    rw [bind_eq_ok] at h
    obtain ⟨ys', hys, hpure⟩ := h
    refine ⟨y, hx y hy, ?_⟩
    rw [bind_eq_ok]
    exact ⟨ys', ih hrest hys, hpure⟩

/-- Every result is as the first property says, and every failure as the second. -/
def Meets (ok : α → Prop) (err : ε → Prop) : Except ε α → Prop
  | .ok a => ok a
  | .error e => err e

namespace Meets

variable {p : α → Prop} {q : β → Prop} {err : ε → Prop}

lemma error {x : Except ε α} (hx : Meets p err x) {e : ε} (h : x = .error e) : err e := by
  subst h
  exact hx

lemma bind {x : Except ε α} {f : α → Except ε β} (hx : Meets p err x)
    (hf : ∀ a, p a → Meets q err (f a)) : Meets q err (x >>= f) := by
  cases x with
  | ok a => exact hf a hx
  | error e => exact hx

lemma map {x : Except ε α} {f : α → β} (hx : Meets p err x) (hf : ∀ a, p a → q (f a)) :
    Meets q err (x.map f) := by
  cases x with
  | ok a => exact hf a hx
  | error e => exact hx

lemma ite {c : Prop} [Decidable c] {x y : Except ε α} (hx : c → Meets p err x)
    (hy : ¬ c → Meets p err y) : Meets p err (if c then x else y) := by
  by_cases h : c
  · rw [if_pos h]
    exact hx h
  · rw [if_neg h]
    exact hy h

lemma mapM {f : α → Except ε β} {xs : List α} (h : ∀ x ∈ xs, Meets q err (f x)) :
    Meets (fun ys => ∀ y ∈ ys, q y) err (xs.mapM f) := by
  induction xs with
  | nil => exact fun y hy => absurd hy List.not_mem_nil
  | cons x rest ih =>
    obtain ⟨hx, hrest⟩ := List.forall_mem_cons.mp h
    rw [List.mapM_cons]
    refine hx.bind fun y hy => (ih hrest).bind fun ys hys => ?_
    exact List.forall_mem_cons.mpr ⟨hy, hys⟩

lemma foldlM {f : β → α → Except ε β} {xs : List α}
    (step : ∀ x ∈ xs, ∀ b, q b → Meets q err (f b x)) {b : β} (hb : q b) :
    Meets q err (xs.foldlM f b) := by
  induction xs generalizing b with
  | nil => exact hb
  | cons x rest ih =>
    obtain ⟨hx, hrest⟩ := List.forall_mem_cons.mp step
    rw [List.foldlM_cons]
    exact (hx b hb).bind fun c hc => ih hrest hc

end Meets

/-- Both succeed with results that are related, or both fail with failures that are. -/
def Alike (ok : α → β → Prop) (fail : ε → δ → Prop) : Except ε α → Except δ β → Prop
  | .ok a, .ok b => ok a b
  | .error d, .error e => fail d e
  | _, _ => False

namespace Alike

universe v
variable {p : α → β → Prop} {fail : ε → δ → Prop} {x : Except ε α} {y : Except δ β}

lemma cases_on (h : Alike p fail x y) :
    (∃ a b, x = .ok a ∧ y = .ok b ∧ p a b) ∨ ∃ d e, x = .error d ∧ y = .error e ∧ fail d e := by
  cases x with
  | ok a =>
    cases y with
    | ok b => exact .inl ⟨a, b, rfl, rfl, h⟩
    | error e => exact h.elim
  | error d =>
    cases y with
    | ok b => exact h.elim
    | error e => exact .inr ⟨d, e, rfl, rfl, h⟩

lemma bind {α' β' : Type u} {q : α' → β' → Prop} {f : α → Except ε α'} {g : β → Except δ β'}
    (hxy : Alike p fail x y) (hfg : ∀ a b, p a b → Alike q fail (f a) (g b)) :
    Alike q fail (x >>= f) (y >>= g) := by
  obtain ⟨a, b, rfl, rfl, hab⟩ | ⟨d, e, rfl, rfl, hde⟩ := hxy.cases_on
  · exact hfg a b hab
  · exact hde

lemma map {α' β' : Type u} {q : α' → β' → Prop} {f : α → α'} {g : β → β'}
    (hxy : Alike p fail x y) (hfg : ∀ a b, p a b → q (f a) (g b)) :
    Alike q fail (x.map f) (y.map g) := by
  obtain ⟨a, b, rfl, rfl, hab⟩ | ⟨d, e, rfl, rfl, hde⟩ := hxy.cases_on
  · exact hfg a b hab
  · exact hde

lemma mono {q : α → β → Prop} (hxy : Alike p fail x y) (hpq : ∀ a b, p a b → q a b) :
    Alike q fail x y := by
  obtain ⟨a, b, rfl, rfl, hab⟩ | ⟨d, e, rfl, rfl, hde⟩ := hxy.cases_on
  · exact hpq a b hab
  · exact hde

lemma mono_fail {fail' : ε → δ → Prop} (hxy : Alike p fail x y)
    (hfail : ∀ d e, fail d e → fail' d e) : Alike p fail' x y := by
  obtain ⟨a, b, rfl, rfl, hab⟩ | ⟨d, e, rfl, rfl, hde⟩ := hxy.cases_on
  · exact hab
  · exact hfail d e hde

/-- What is like a third one is alike. -/
lemma of_common {fail : ε → ε → Prop} {x y z : Except ε α} (hx : Alike Eq fail x z)
    (hy : Alike Eq fail y z) (hfail : ∀ c d e, fail c e → fail d e → fail c d) :
    Alike Eq fail x y := by
  obtain ⟨a, c, rfl, rfl, hac⟩ | ⟨d, e, rfl, rfl, hde⟩ := hx.cases_on
  · obtain ⟨b, _, rfl, ⟨⟩, hbc⟩ | ⟨_, _, _, h, _⟩ := hy.cases_on
    · exact hac.trans hbc.symm
    · cases h
  · obtain ⟨_, _, _, h, _⟩ | ⟨c, _, rfl, ⟨⟩, hce⟩ := hy.cases_on
    · cases h
    · exact hfail d c e hde hce

/-- The first chain goes on with a step that cannot fail. -/
lemma bind_left {α' : Type u} {q : α' → β → Prop} {f : α → Except ε α'} (hxy : Alike p fail x y)
    (hf : ∀ a b, p a b → ∃ c, f a = .ok c ∧ q c b) : Alike q fail (x >>= f) y := by
  obtain ⟨a, b, rfl, rfl, hab⟩ | ⟨d, e, rfl, rfl, hde⟩ := hxy.cases_on
  · obtain ⟨c, hc, hcb⟩ := hf a b hab
    change Alike q fail (f a) (.ok b)
    rw [hc]
    exact hcb
  · exact hde

lemma map_left {α' : Type u} {q : α' → β → Prop} {f : α → α'} (hxy : Alike p fail x y)
    (hf : ∀ a b, p a b → q (f a) b) : Alike q fail (x.map f) y := by
  obtain ⟨a, b, rfl, rfl, hab⟩ | ⟨d, e, rfl, rfl, hde⟩ := hxy.cases_on
  · exact hf a b hab
  · exact hde

lemma map_right {β' : Type u} {q : α → β' → Prop} {g : β → β'} (hxy : Alike p fail x y)
    (hg : ∀ a b, p a b → q a (g b)) : Alike q fail x (y.map g) := by
  obtain ⟨a, b, rfl, rfl, hab⟩ | ⟨d, e, rfl, rfl, hde⟩ := hxy.cases_on
  · exact hg a b hab
  · exact hde

lemma ite {c d : Prop} [Decidable c] [Decidable d] {x' : Except ε α} {y' : Except δ β}
    (hcd : c ↔ d) (hpos : c → Alike p fail x y) (hneg : ¬ c → Alike p fail x' y') :
    Alike p fail (if c then x else x') (if d then y else y') := by
  by_cases h : c
  · rw [if_pos h, if_pos (hcd.mp h)]
    exact hpos h
  · rw [if_neg h, if_neg (mt hcd.mpr h)]
    exact hneg h

/-- Two runs over related steps come out alike if each pair of steps does. -/
lemma foldlM {σ τ : Type v} {step : σ → τ → Prop} {f : α → σ → Except ε α}
    {g : β → τ → Except δ β} {xs : List σ} {ys : List τ} (hsteps : List.Forall₂ step xs ys)
    (hstep : ∀ s t, step s t → ∀ a b, p a b → Alike p fail (f a s) (g b t)) {a : α} {b : β}
    (hab : p a b) : Alike p fail (xs.foldlM f a) (ys.foldlM g b) := by
  induction hsteps generalizing a b with
  | nil => exact hab
  | cons hst _ ih =>
    rw [List.foldlM_cons, List.foldlM_cons]
    exact (hstep _ _ hst a b hab).bind fun _ _ => ih

lemma isOk_iff (h : Alike p fail x y) : (∃ a, x = .ok a) ↔ ∃ b, y = .ok b := by
  obtain ⟨a, b, rfl, rfl, -⟩ | ⟨d, e, rfl, rfl, -⟩ := h.cases_on <;> simp

lemma error_iff {y : Except ε β} (h : Alike p Eq x y) {e : ε} :
    x = .error e ↔ y = .error e := by
  obtain ⟨a, b, rfl, rfl, -⟩ | ⟨d, _, rfl, rfl, rfl⟩ := h.cases_on <;> simp

end Alike

end SheetFormula.Result

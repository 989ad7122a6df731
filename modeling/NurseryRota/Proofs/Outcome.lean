import Mathlib.Data.List.Basic
import NurseryRota.Fault

/-!
# Computations that may be given up

A list of computations succeeds exactly when each of them does, and then their values stand in
the order of the list.
-/

namespace NurseryRota

universe u v

variable {ε : Type u} {α β : Type v}

/-- The computation yields a value. -/
def Succeeds (x : Except ε α) : Prop := ∃ a, x = .ok a

theorem succeeds_ok (a : α) : Succeeds (.ok a : Except ε α) := ⟨a, rfl⟩

theorem not_succeeds_error (e : ε) : ¬ Succeeds (.error e : Except ε α) := by
  rintro ⟨a, h⟩
  cases h

instance (x : Except ε α) : Decidable (Succeeds x) :=
  match x with
  | .ok a => isTrue (succeeds_ok a)
  | .error e => isFalse (not_succeeds_error e)

theorem not_succeeds_iff {x : Except ε α} : ¬ Succeeds x ↔ ∃ e, x = .error e := by
  cases x with
  | error e => exact iff_of_true (not_succeeds_error e) ⟨e, rfl⟩
  | ok a => exact iff_of_false (not_not_intro (succeeds_ok a)) (by simp)

theorem succeeds_map_iff {x : Except ε α} {f : α → β} : Succeeds (x.map f) ↔ Succeeds x := by
  cases x with
  | error e => exact iff_of_false (not_succeeds_error e) (not_succeeds_error e)
  | ok a => exact iff_of_true (succeeds_ok (f a)) (succeeds_ok a)

theorem succeeds_mapError_iff {ε' : Type u} {x : Except ε α} {f : ε → ε'} :
    Succeeds (x.mapError f) ↔ Succeeds x := by
  cases x with
  | error e => exact iff_of_false (not_succeeds_error (f e)) (not_succeeds_error e)
  | ok a => exact iff_of_true (succeeds_ok a) (succeeds_ok a)

theorem succeeds_elim_iff {γ : Type*} {o : Option γ} {a : α} {f : γ → Except ε α} :
    Succeeds (o.elim (.ok a) f) ↔ ∀ c, o = some c → Succeeds (f c) := by
  cases o with
  | none => exact iff_of_true (succeeds_ok a) (by simp)
  | some c => simp

theorem ok_bind (a : α) (f : α → Except ε β) : (Except.ok a >>= f) = f a := rfl

theorem bind_eq_ok_iff {x : Except ε α} {f : α → Except ε β} {b : β} :
    (x >>= f) = .ok b ↔ ∃ a, x = .ok a ∧ f a = .ok b := by
  cases x with
  | error e => simp [bind, Except.bind]
  | ok a => simp [ok_bind]

theorem bind_eq_error_iff {x : Except ε α} {f : α → Except ε β} {e : ε} :
    (x >>= f) = .error e ↔ x = .error e ∨ ∃ a, x = .ok a ∧ f a = .error e := by
  cases x with
  | error e' => simp [bind, Except.bind]
  | ok a => simp [ok_bind]

theorem map_eq_ok_iff {x : Except ε α} {f : α → β} {b : β} :
    x.map f = .ok b ↔ ∃ a, x = .ok a ∧ f a = b := by
  cases x <;> simp [Except.map]

theorem mapError_eq_ok_iff {ε' : Type u} {x : Except ε α} {f : ε → ε'} {a : α} :
    x.mapError f = .ok a ↔ x = .ok a := by
  cases x <;> simp [Except.mapError]

theorem eq_ok_iff_toOption {x : Except ε α} {a : α} : x = .ok a ↔ x.toOption = some a := by
  cases x <;> simp [Except.toOption]

theorem mapM_eq_ok {f : α → Except ε β} {g : α → β} {xs : List α}
    (h : ∀ x ∈ xs, f x = .ok (g x)) : xs.mapM f = .ok (xs.map g) := by
  induction xs with
  | nil => rfl
  | cons x xs ih =>
      rw [List.mapM_cons, h x (by simp), ih fun y hy => h y (by simp [hy])]
      rfl

theorem succeeds_of_mapM {f : α → Except ε β} {xs : List α} (h : Succeeds (xs.mapM f)) :
    ∀ x ∈ xs, Succeeds (f x) := by
  induction xs with
  | nil => simp
  | cons x xs ih =>
      obtain ⟨ys, h⟩ := h
      rw [List.mapM_cons] at h
      obtain ⟨y, hx, h⟩ := bind_eq_ok_iff.mp h
      obtain ⟨zs, htail, -⟩ := bind_eq_ok_iff.mp h
      intro z hz
      rcases List.mem_cons.mp hz with rfl | hz
      · exact ⟨y, hx⟩
      · exact ih ⟨zs, htail⟩ z hz

theorem mapM_ne_error {e : ε} {f : α → Except ε β} {xs : List α} (h : ∀ x ∈ xs, f x ≠ .error e) :
    xs.mapM f ≠ .error e := by
  induction xs with
  | nil => simp [pure, Except.pure]
  | cons x xs ih =>
      have hfirst := h x (by simp)
      have hothers := ih fun y hy => h y (by simp [hy])
      rw [List.mapM_cons]
      cases hx : f x with
      | error cause => simpa [bind, Except.bind, hx] using hfirst
      | ok y =>
          cases htail : xs.mapM f with
          | error cause => simpa [bind, Except.bind, htail] using hothers
          | ok ys => simp [bind, Except.bind, pure, Except.pure]

theorem exists_of_mapM_eq_error {e : ε} {f : α → Except ε β} {xs : List α}
    (h : xs.mapM f = .error e) : ∃ x ∈ xs, f x = .error e := by
  by_contra hnone
  exact mapM_ne_error (fun x hx hfx => hnone ⟨x, hx, hfx⟩) h

/-- What every step of a fold keeps holds at its end. -/
theorem invariant_of_foldlM {P : β → Prop} {f : β → α → Except ε β} {xs : List α} {b b' : β}
    (hstart : P b) (hstep : ∀ b a b', P b → f b a = .ok b' → P b')
    (h : xs.foldlM f b = .ok b') : P b' := by
  induction xs generalizing b with
  | nil =>
      cases h
      exact hstart
  | cons x xs ih =>
      rw [List.foldlM_cons] at h
      obtain ⟨next, hx, htail⟩ := bind_eq_ok_iff.mp h
      exact ih (hstep b x next hstart hx) htail

theorem mapM_map_eq_some {γ : Type*} {δ : Type v} {f : γ → Option δ} {k : α → γ} {g : α → δ}
    {xs : List α} (h : ∀ x ∈ xs, f (k x) = some (g x)) : (xs.map k).mapM f = some (xs.map g) := by
  induction xs with
  | nil => rfl
  | cons x xs ih =>
      rw [List.map_cons, List.mapM_cons, h x (by simp), ih fun y hy => h y (by simp [hy])]
      rfl

theorem mapM_eq_none {γ : Type*} {f : γ → Option β} {x : γ} {xs : List γ} (hx : x ∈ xs)
    (h : f x = none) : xs.mapM f = none := by
  induction xs with
  | nil => cases hx
  | cons y xs ih =>
      rw [List.mapM_cons]
      rcases List.mem_cons.mp hx with rfl | hx
      · rw [h]
        rfl
      · rw [ih hx]
        cases f y <;> rfl

end NurseryRota

import Mathlib.Data.List.Forall2

/-!
# Attempts

Computations in `Except`, one after the other. Two of them succeed if the first
does and the second does with its result (`bind_eq_ok_iff`), and they fail as
the first one that fails (`bind_eq_error_iff`). `List.mapM` makes one attempt for
each entry of a list, from left to right, and stops at the first that fails. It
succeeds with the results of all attempts (`mapM_eq_ok_iff`) and it fails as the
first failing one does (`mapM_eq_error_iff`).
-/

namespace CorpusMark

namespace Attempts

variable {α β ε : Type} {f : α → Except ε β}

theorem bind_ok (a : α) : (Except.ok a >>= f) = f a := rfl

theorem bind_eq_ok_iff {x : Except ε α} {b : β} :
    x >>= f = .ok b ↔ ∃ a, x = .ok a ∧ f a = .ok b := by
  cases x <;> simp [bind, Except.bind]

theorem bind_eq_error_iff {x : Except ε α} {e : ε} :
    x >>= f = .error e ↔ x = .error e ∨ ∃ a, x = .ok a ∧ f a = .error e := by
  cases x <;> simp [bind, Except.bind]

theorem map_eq_ok_iff {x : Except ε α} {g : α → β} {b : β} :
    x.map g = .ok b ↔ ∃ a, x = .ok a ∧ b = g a := by
  cases x <;> simp [Except.map, eq_comm]

theorem map_eq_error_iff {x : Except ε α} {g : α → β} {e : ε} :
    x.map g = .error e ↔ x = .error e := by
  cases x <;> simp [Except.map]

/-- Whether an attempt succeeds and how it fails is settled by conditions that imply
the outcomes and of which one always holds. -/
theorem outcome_iff {x : Except ε α} {P : α → Prop} {Q : ε → Prop}
    (hok : ∀ a, P a → x = .ok a) (herror : ∀ e, Q e → x = .error e)
    (hcases : (∃ a, P a) ∨ ∃ e, Q e) :
    (∀ a, x = .ok a ↔ P a) ∧ ∀ e, x = .error e ↔ Q e := by
  refine ⟨fun a => ⟨fun h => ?_, hok a⟩, fun e => ⟨fun h => ?_, herror e⟩⟩
  · rcases hcases with ⟨a', ha'⟩ | ⟨e, he⟩
    · rw [hok a' ha'] at h
      cases h
      exact ha'
    · rw [herror e he] at h
      cases h
  · rcases hcases with ⟨a, ha⟩ | ⟨e', he'⟩
    · rw [hok a ha] at h
      cases h
    · rw [herror e' he'] at h
      cases h
      exact he'

theorem mapM_cons_of_ok {x : α} {xs : List α} {y : β} (h : f x = .ok y) :
    (x :: xs).mapM f = (xs.mapM f).map (y :: ·) := by
  rw [List.mapM_cons, h]
  cases xs.mapM f <;> rfl

theorem mapM_cons_of_error {x : α} {xs : List α} {e : ε} (h : f x = .error e) :
    (x :: xs).mapM f = .error e := by
  rw [List.mapM_cons, h]
  rfl

theorem mapM_singleton (x : α) : [x].mapM f = (f x).map fun y => [y] := by
  rw [List.mapM_cons]
  cases f x <;> rfl

/-- All attempts succeed. -/
theorem mapM_eq_ok_iff {xs : List α} {ys : List β} :
    xs.mapM f = .ok ys ↔ List.Forall₂ (fun x y => f x = .ok y) xs ys := by
  induction xs generalizing ys with
  | nil => cases ys <;> simp [pure, Except.pure]
  | cons x xs ih =>
    cases hx : f x with
    | error e =>
      rw [mapM_cons_of_error hx]
      cases ys <;> simp [hx]
    | ok y =>
      rw [mapM_cons_of_ok hx]
      cases hxs : xs.mapM f with
      | error e =>
        cases ys <;> simp [Except.map, hx, ← ih, hxs]
      | ok rest =>
        cases ys <;> simp [Except.map, hx, ← ih, hxs]

/-- An attempt fails, and those before it succeed. -/
theorem mapM_eq_error_iff {xs : List α} {e : ε} :
    xs.mapM f = .error e ↔ ∃ pre x post, xs = pre ++ x :: post ∧
      (∀ y ∈ pre, ∃ v, f y = .ok v) ∧ f x = .error e := by
  induction xs with
  | nil => simp [pure, Except.pure]
  | cons x xs ih =>
    cases hx : f x with
    | error e' =>
      rw [mapM_cons_of_error hx]
      constructor
      · intro h
        cases h
        exact ⟨[], x, xs, rfl, by simp, hx⟩
      · rintro ⟨pre, z, post, heq, hpre, hz⟩
        cases pre with
        | nil =>
          obtain ⟨rfl, -⟩ := List.cons.inj heq
          rw [hx] at hz
          cases hz
          rfl
        | cons w ws =>
          obtain ⟨rfl, -⟩ := List.cons.inj heq
          obtain ⟨v, hv⟩ := hpre x List.mem_cons_self
          rw [hx] at hv
          cases hv
    | ok y =>
      have hmap : (x :: xs).mapM f = .error e ↔ xs.mapM f = .error e := by
        rw [mapM_cons_of_ok hx]
        cases xs.mapM f <;> simp [Except.map]
      rw [hmap, ih]
      constructor
      · rintro ⟨pre, z, post, rfl, hpre, hz⟩
        refine ⟨x :: pre, z, post, rfl, fun w hw => ?_, hz⟩
        rcases List.mem_cons.mp hw with rfl | hw
        · exact ⟨y, hx⟩
        · exact hpre w hw
      · rintro ⟨pre, z, post, heq, hpre, hz⟩
        cases pre with
        | nil =>
          obtain ⟨rfl, -⟩ := List.cons.inj heq
          rw [hx] at hz
          cases hz
        | cons w ws =>
          obtain ⟨rfl, rfl⟩ := List.cons.inj heq
          exact ⟨ws, z, post, rfl, fun v hv => hpre v (List.mem_cons_of_mem x hv), hz⟩

end Attempts

end CorpusMark

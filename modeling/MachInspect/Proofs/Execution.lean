-- SUMMARY: Running computations that can fail and that change a state.
import MachInspect.Error

/-!
# Execution

Requests to a session and readers of records are the same kind of computation over different states.
A failure keeps the state that was reached.
-/
namespace MachInspect

/-- What a computation gives, and the state after it. -/
def exec {σ α : Type} (m : ExceptT Error (StateM σ) α) (s : σ) : Except Error α × σ := m.run.run s

section

variable {σ α β : Type} (s : σ)

@[simp] theorem exec_get : exec (get : ExceptT Error (StateM σ) σ) s = (.ok s, s) := rfl

@[simp] theorem exec_modify (f : σ → σ) :
    exec (modify f : ExceptT Error (StateM σ) PUnit) s = (.ok ⟨⟩, f s) := rfl

@[simp] theorem exec_lift (x : Except Error α) :
    exec (liftM x : ExceptT Error (StateM σ) α) s = (x, s) := by
  cases x <;> rfl

theorem exec_bind (m : ExceptT Error (StateM σ) α) (f : α → ExceptT Error (StateM σ) β) :
    exec (m >>= f) s =
      match exec m s with
      | (.ok a, t) => exec (f a) t
      | (.error e, t) => (.error e, t) := by
  change ExceptT.bindCont f (exec m s).1 (exec m s).2 = _
  rcases exec m s with ⟨_ | a, t⟩ <;> rfl

theorem exec_bind_ok {s t : σ} {m : ExceptT Error (StateM σ) α} {a : α}
    (h : exec m s = (.ok a, t)) (f : α → ExceptT Error (StateM σ) β) :
    exec (m >>= f) s = exec (f a) t := by
  rw [exec_bind, h]

theorem exec_bind_error {s t : σ} {m : ExceptT Error (StateM σ) α} {e : Error}
    (h : exec m s = (.error e, t)) (f : α → ExceptT Error (StateM σ) β) :
    exec (m >>= f) s = (.error e, t) := by
  rw [exec_bind, h]

theorem exec_tryCatch (m : ExceptT Error (StateM σ) α)
    (handle : Error → ExceptT Error (StateM σ) α) :
    exec (tryCatch m handle) s =
      match exec m s with
      | (.ok a, t) => (.ok a, t)
      | (.error e, t) => exec (handle e) t := by
  simp only [exec, tryCatch, tryCatchThe, MonadExceptOf.tryCatch, ExceptT.tryCatch, ExceptT.run,
    ExceptT.mk, StateT.run, bind, StateT.bind]
  rcases m s with ⟨_ | a, t⟩ <;> rfl

end

/-! ## Results -/

/-- A chain that succeeds has succeeded at its first link. -/
theorem exists_ok_of_bind_ok {ε α β : Type} {x : Except ε α} {f : α → Except ε β} {b : β}
    (h : (x >>= f) = .ok b) : ∃ a, x = .ok a ∧ f a = .ok b := by
  cases x with
  | error e => cases h
  | ok a => exact ⟨a, rfl, h⟩

end MachInspect

/-!
# Rebuilds of a table, and computations that report them

Rebuilding a table moves its values to other slots, so which operations rebuild, and when, is part
of their meaning.  An operation that may rebuild answers in `Traced`, which carries the rebuilds it
made, oldest first; one that cannot answers with a plain value.

## Main definitions

* `Rebuild` — one rebuild: the two capacities, and what was carried over and dropped.
* `Traced` — a value and the rebuilds made on the way to it, a lawful monad.
-/

namespace Slotted

/-- One rebuild of a table. -/
structure Rebuild where
  /-- The number of slots before. -/
  oldCapacity : Nat
  /-- The number of slots after. -/
  newCapacity : Nat
  /-- The number of values carried over. -/
  live : Nat
  /-- The number of tombstones dropped. -/
  tombstones : Nat
  deriving DecidableEq, Repr

/-- A value, and the rebuilds made on the way to it, oldest first. -/
structure Traced (α : Type) where
  /-- The value. -/
  val : α
  /-- The rebuilds, oldest first. -/
  rebuilds : List Rebuild := []
  deriving DecidableEq, Repr

namespace Traced

variable {α β : Type}

/-- Runs `f` on the value and appends its rebuilds. -/
@[inline] def bind (x : Traced α) (f : α → Traced β) : Traced β :=
  match x with
  | ⟨a, earlier⟩ =>
    match f a with
    | ⟨b, later⟩ => ⟨b, earlier ++ later⟩

instance : Monad Traced where
  pure a := ⟨a, []⟩
  bind := bind

@[simp] theorem val_pure (a : α) : (pure a : Traced α).val = a := rfl

@[simp] theorem rebuilds_pure (a : α) : (pure a : Traced α).rebuilds = [] := rfl

@[simp] theorem val_bind (x : Traced α) (f : α → Traced β) : (x >>= f).val = (f x.val).val := rfl

@[simp] theorem rebuilds_bind (x : Traced α) (f : α → Traced β) :
    (x >>= f).rebuilds = x.rebuilds ++ (f x.val).rebuilds := rfl

@[simp] theorem val_map (f : α → β) (x : Traced α) : (f <$> x).val = f x.val := rfl

@[simp] theorem rebuilds_map (f : α → β) (x : Traced α) : (f <$> x).rebuilds = x.rebuilds := by
  show x.rebuilds ++ [] = x.rebuilds
  rw [List.append_nil]

@[ext] theorem ext {x y : Traced α} (hv : x.val = y.val) (hr : x.rebuilds = y.rebuilds) :
    x = y := by
  cases x; cases y; cases hv; cases hr; rfl

/-- What comes next is only asked of the value that there is. -/
theorem bind_congr_val (x : Traced α) {f g : α → Traced β} (h : f x.val = g x.val) :
    x >>= f = x >>= g := by
  refine ext ?_ ?_
  · rw [val_bind, val_bind, h]
  · rw [rebuilds_bind, rebuilds_bind, h]

instance : LawfulMonad Traced :=
  LawfulMonad.mk' Traced (fun _ => ext rfl (by simp)) (fun _ _ => ext rfl (by simp))
    (fun _ _ _ => ext rfl (by simp))

end Traced

end Slotted

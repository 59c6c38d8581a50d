import Mathlib.Data.List.Basic
import Mathlib.Data.Set.Basic

/-!
# Heap arrays and faults

What the C code does with memory, in the terms the rest of the model uses. An array of
pointers is a list of slots, `none` being a null pointer; `slot` reads one, and a slot past the
end, memory the code never wrote, reads as null. An array with live slots `[0, live)` is read
and written through `readLive` and `writeLive`, which report any access outside those slots as a
fault. A call that stops without returning (a failed `assert`, a dereference of `NULL`, such an
access, a `memcpy` past its source) ends in `Except.error`.
-/

namespace VulkanCore

/-- Ways a call of the C code stops instead of returning. -/
inductive Fault where
  /-- An `assert` failed. -/
  | assertion
  /-- An array was read or written outside its live slots, or an unwritten slot was read. -/
  | outOfBounds
  /-- `memcpy` read past the end of the buffer it copied from. -/
  | overread
  /-- A `NULL` pointer was dereferenced. -/
  | nullDereference
deriving DecidableEq, Repr

variable {α β : Type}

/-- Results of the model compare by value, so that a run on a concrete input can be decided. -/
instance [DecidableEq α] : DecidableEq (Except Fault α)
  | .ok a, .ok b => if same : a = b then isTrue (same ▸ rfl) else isFalse (same ∘ Except.ok.inj)
  | .error a, .error b =>
    if same : a = b then isTrue (same ▸ rfl) else isFalse (same ∘ Except.error.inj)
  | .ok _, .error _ => isFalse nofun
  | .error _, .ok _ => isFalse nofun

/-- A returned value is a success. -/
@[simp] theorem except_pure (value : α) : (pure value : Except Fault α) = .ok value := rfl

/-- A success goes on to the next stage. -/
@[simp] theorem except_ok_bind (value : α) (next : α → Except Fault β) :
    (Except.ok value >>= next) = next value := rfl

/-- A fault stops every later stage. -/
@[simp] theorem except_error_bind (fault : Fault) (next : α → Except Fault β) :
    (Except.error fault >>= next) = Except.error fault := rfl

/-- Mapping a success maps its value. -/
@[simp] theorem except_map_ok (f : α → β) (value : α) :
    Except.map f (Except.ok value : Except Fault α) = .ok (f value) := rfl

/-- Mapping a fault keeps the fault. -/
@[simp] theorem except_map_error (f : α → β) (fault : Fault) :
    Except.map f (Except.error fault : Except Fault α) = .error fault := rfl

/-- A check that returns 0 when `c` holds and goes on otherwise returns 1 when it goes on to 1. -/
@[simp] theorem ite_ok_false_eq_ok_true (c : Prop) [Decidable c] (x : Except Fault Bool) :
    (if c then .ok false else x) = .ok true ↔ ¬c ∧ x = .ok true := by
  by_cases c <;> simp [*]

/-- A computation that ends in a value ends in it through every stage it binds. -/
theorem except_bind_eq_ok {first : Except Fault α} {next : α → Except Fault β} {result : β} :
    (first >>= next) = .ok result ↔ ∃ value, first = .ok value ∧ next value = .ok result := by
  cases first <;> simp

/-- A loop that returns 0 at its first failed check returns 1 exactly when every check does. -/
theorem allM_eq_ok_true (check : α → Except Fault Bool) (xs : List α) :
    xs.allM check = .ok true ↔ ∀ x ∈ xs, check x = .ok true := by
  induction xs with
  | nil => simp [List.allM]
  | cons x rest ih =>
    simp only [List.allM, List.mem_cons, forall_eq_or_imp]
    cases check x with
    | error fault => simp
    | ok passed => cases passed <;> simp [ih]

/-- A `List.mapM` loop that faults faults in one of its rounds. -/
theorem mapM_eq_error_mem {f : α → Except Fault β} {xs : List α} {fault : Fault}
    (faulted : xs.mapM f = .error fault) : ∃ x ∈ xs, f x = .error fault := by
  induction xs with
  | nil => cases faulted
  | cons x rest ih =>
    rw [List.mapM_cons] at faulted
    cases first : f x with
    | error early =>
      rw [first, except_error_bind, Except.error.injEq] at faulted
      exact ⟨x, List.mem_cons_self _ _, faulted ▸ first⟩
    | ok _ =>
      rw [first, except_ok_bind] at faulted
      cases later : rest.mapM f with
      | error _ =>
        rw [later, except_error_bind] at faulted
        obtain ⟨y, mem, read⟩ := ih (faulted ▸ later)
        exact ⟨y, List.mem_cons_of_mem _ mem, read⟩
      | ok _ => rw [later] at faulted; cases faulted

/-- `array[i]` of an array of pointers: the pointer, `none` when it is null. -/
def slot (array : List (Option α)) (i : Nat) : Option α := (array[i]?).getD none

/-- Appending slots leaves the earlier ones in place. -/
@[simp] theorem slot_append_left (front back : List (Option α)) (i : Nat) (inside : i < front.length) :
    slot (front ++ back) i = slot front i := by
  simp [slot, List.getElem?_append_left inside]

/-- A written slot holds what was written. -/
@[simp] theorem slot_set_self (array : List (Option α)) (i : Nat) (value : Option α)
    (inside : i < array.length) : slot (array.set i value) i = value := by
  simp [slot, List.getElem?_set, inside]

/-- Writing one slot leaves every other slot unchanged. -/
@[simp] theorem slot_set_ne (array : List (Option α)) (i j : Nat) (value : Option α)
    (other : i ≠ j) : slot (array.set i value) j = slot array j := by
  simp [slot, List.getElem?_set, other]

/-- Slot `i` of an array whose slots below `n` point at `g 0, g 1, ...`. -/
theorem slot_map_range (g : Nat → α) (n i : Nat) (inside : i < n) :
    slot ((List.range n).map fun j => some (g j)) i = some (g i) := by
  simp only [slot, List.getElem?_map, List.getElem?_range inside, Option.map_some',
    Option.getD_some]

/-- The slots `realloc` leaves: those below both sizes keep their pointers, the new ones are not
written. -/
def resized (array : Option (List (Option α))) (size : Nat) : List (Option α) :=
  (array.getD [] ++ List.replicate size none).take size

/-- `realloc` of an array of pointers (`none` is `NULL`) to `size` slots, as glibc does it: the
slots `resized` gives, except that `realloc(p, 0)` of an allocated `p` frees it and returns
`NULL`. `realloc(NULL, 0)` is `malloc(0)`, a pointer to no slot. -/
def realloc (array : Option (List (Option α))) (size : Nat) : Option (List (Option α)) :=
  if array.isSome ∧ size = 0 then none else some (resized array size)

/-- A `realloc` to at least one slot returns the resized array. -/
theorem realloc_of_pos (array : Option (List (Option α))) {size : Nat} (positive : 0 < size) :
    realloc array size = some (resized array size) := by
  simp [realloc, Nat.pos_iff_ne_zero.mp positive]

/-- `realloc(p, 0)` of an allocated array returns `NULL`. -/
theorem realloc_zero (array : List (Option α)) : realloc (some array) 0 = none := by
  simp [realloc]

/-- What `realloc` returns, when it is not `NULL`, is the resized array. -/
theorem eq_resized_of_realloc {array : Option (List (Option α))} {size : Nat}
    {reallocated : List (Option α)} (returned : realloc array size = some reallocated) :
    reallocated = resized array size := by
  unfold realloc at returned
  split at returned
  · cases returned
  · exact (Option.some.inj returned).symm

/-- The resized array has exactly the asked number of slots. -/
@[simp] theorem length_resized (array : Option (List (Option α))) (size : Nat) :
    (resized array size).length = size := by
  simp [resized]

/-- A slot that survives a `realloc` holds what it held before. -/
theorem slot_resized (array : Option (List (Option α))) (size i : Nat) (inside : i < size) :
    slot (resized array size) i = array.bind fun old => slot old i := by
  cases array with
  | none => simp [resized, slot, List.getElem?_take, inside]
  | some old =>
    simp only [resized, slot, Option.getD_some, List.getElem?_take, inside, if_true,
      Option.some_bind]
    by_cases kept : i < old.length
    · rw [List.getElem?_append_left kept]
    · rw [List.getElem?_append_right (not_lt.mp kept), List.getElem?_eq_none (not_lt.mp kept),
        List.getElem?_replicate]
      split <;> rfl

/-- Read slot `i` of an array whose live slots are `[0, live)`. -/
def readLive (array : List α) (live i : Nat) : Except Fault α :=
  if i < live then (array[i]?).elim (.error .outOfBounds) .ok else .error .outOfBounds

/-- Write slot `i` of an array whose live slots are `[0, live)`. -/
def writeLive (array : List α) (live i : Nat) (value : α) : Except Fault (List α) :=
  if i < live ∧ i < array.length then .ok (array.set i value) else .error .outOfBounds

/-- A read inside the live slots returns the slot. -/
theorem readLive_of_lt (array : List α) (live i : Nat) (alive : i < live)
    (inside : i < array.length) : readLive array live i = .ok array[i] := by
  simp [readLive, alive, List.getElem?_eq_getElem inside]

/-- A write inside the live slots sets the slot. -/
theorem writeLive_of_lt (array : List α) (live i : Nat) (value : α) (alive : i < live)
    (inside : i < array.length) : writeLive array live i value = .ok (array.set i value) := by
  simp [writeLive, alive, inside]

end VulkanCore

import Mathlib.Data.List.Perm.Basic

/-!
# Heaps with removal by identifier

The interface of a priority queue whose items carry a numeric identifier:
`pop` takes an item no other one is less than, `remove` takes the item with a
given identifier out of the middle. A development that uses such a heap without
having its code works over any type `H` with a `Heap` instance; what it relies
on are the laws in the class, all of them stated about `items`, the list of
what the heap holds in an order of no meaning.

`listHeap` is a heap that is nothing but its list of items. It shows the laws
can be met and it runs.
-/

namespace Mlist.Lib

/-- What a heap asks of its items: an identifier to remove them by and the
order in which they are popped. -/
class HeapItem (α : Type) where
  ident : α → Nat
  less : α → α → Bool

/-- A priority queue over `α` with removal by identifier. -/
class Heap (H : Type) (α : outParam Type) [HeapItem α] where
  empty : H
  push : H → α → H
  pop : H → Option (α × H)
  remove : H → Nat → H
  len : H → Nat
  items : H → List α
  items_empty : items empty = []
  items_push : ∀ h x, (items (push h x)).Perm (x :: items h)
  pop_none : ∀ h, pop h = none ↔ items h = []
  items_pop : ∀ {h x h'}, pop h = some (x, h') → (items h).Perm (x :: items h')
  pop_least : ∀ {h x h'}, pop h = some (x, h') → ∀ y ∈ items h', HeapItem.less y x = false
  items_remove : ∀ h n, ((items h).map HeapItem.ident).Nodup →
    (items (remove h n)).Perm ((items h).filter fun x => HeapItem.ident x ≠ n)
  len_eq : ∀ h, len h = (items h).length

section Laws

variable {H α : Type} [HeapItem α] [Heap H α]

theorem mem_items_push {h : H} {x y : α} :
    y ∈ Heap.items (Heap.push h x) ↔ y = x ∨ y ∈ Heap.items h := by
  rw [(Heap.items_push h x).mem_iff, List.mem_cons]

/-- Popping makes the heap smaller. -/
theorem items_pop_length {h h' : H} {x : α} (hp : Heap.pop h = some (x, h')) :
    (Heap.items h).length = (Heap.items h').length + 1 := by
  rw [(Heap.items_pop hp).length_eq, List.length_cons]

theorem mem_items_remove {h : H} {n : Nat} {y : α}
    (hn : ((Heap.items h).map HeapItem.ident).Nodup) :
    y ∈ Heap.items (Heap.remove h n) ↔ y ∈ Heap.items h ∧ HeapItem.ident y ≠ n := by
  rw [(Heap.items_remove h n hn).mem_iff, List.mem_filter, decide_eq_true_iff]

end Laws

/-! ## The list heap -/

section ListHeap

variable {α : Type} [HeapItem α]

/-- The first element of `x :: l` that no other one is less than. -/
def leastOf (x : α) : List α → α
  | [] => x
  | y :: l => if HeapItem.less y x then leastOf y l else leastOf x l

theorem leastOf_mem (x : α) (l : List α) : leastOf x l ∈ x :: l := by
  induction l generalizing x with
  | nil => exact List.mem_cons_self ..
  | cons y l ih =>
    unfold leastOf
    split
    next => exact List.mem_cons_of_mem _ (ih y)
    next =>
      rcases List.mem_cons.mp (ih x) with he | hl
      · rw [he]; exact List.mem_cons_self ..
      · exact List.mem_cons_of_mem _ (List.mem_cons_of_mem _ hl)

/-- When `less` is the strict part of a total preorder, nothing in the list is
less than `leastOf`. -/
theorem leastOf_least (hasymm : ∀ x y : α, HeapItem.less x y = true → HeapItem.less y x = false)
    (htrans : ∀ x y z : α, HeapItem.less x y = false → HeapItem.less y z = false →
      HeapItem.less x z = false)
    (x : α) (l : List α) : ∀ z ∈ x :: l, HeapItem.less z (leastOf x l) = false := by
  have hirr : ∀ x : α, HeapItem.less x x = false := by
    intro x
    cases h : HeapItem.less x x with
    | false => rfl
    | true => rw [← h]; exact hasymm x x h
  induction l generalizing x with
  | nil =>
    intro z hz
    rw [List.mem_singleton.mp hz]
    exact hirr x
  | cons y l ih =>
    intro z hz
    unfold leastOf
    split
    next hlt =>
      have hy := ih y y (List.mem_cons_self ..)
      rcases List.mem_cons.mp hz with rfl | hz
      · exact htrans _ _ _ (hasymm _ _ hlt) hy
      · exact ih y z hz
    next hlt =>
      have hx := ih x x (List.mem_cons_self ..)
      rcases List.mem_cons.mp hz with rfl | hz
      · exact hx
      · rcases List.mem_cons.mp hz with rfl | hz
        · exact htrans _ _ _ (Bool.eq_false_iff.mpr hlt) hx
        · exact ih x z (List.mem_cons_of_mem _ hz)

/-- The heap that is its list of items. -/
@[reducible] def listHeap [DecidableEq α]
    (hasymm : ∀ x y : α, HeapItem.less x y = true → HeapItem.less y x = false)
    (htrans : ∀ x y z : α, HeapItem.less x y = false → HeapItem.less y z = false →
      HeapItem.less x z = false) : Heap (List α) α where
  empty := []
  push h x := x :: h
  pop h :=
    match h with
    | [] => none
    | x :: l => some (leastOf x l, (x :: l).erase (leastOf x l))
  remove h n := h.filter fun x => HeapItem.ident x ≠ n
  len := List.length
  items := id
  items_empty := rfl
  items_push _ _ := List.Perm.refl _
  pop_none h := by cases h <;> simp
  items_pop := by
    intro h x h' hp
    cases h with
    | nil => cases hp
    | cons y l =>
      obtain ⟨rfl, rfl⟩ := Prod.mk.inj (Option.some.inj hp)
      exact List.perm_cons_erase (leastOf_mem y l)
  pop_least := by
    intro h x h' hp y hy
    cases h with
    | nil => cases hp
    | cons z l =>
      obtain ⟨rfl, rfl⟩ := Prod.mk.inj (Option.some.inj hp)
      exact leastOf_least hasymm htrans z l y (List.mem_of_mem_erase hy)
  items_remove _ _ _ := List.Perm.refl _
  len_eq _ := rfl

end ListHeap

end Mlist.Lib

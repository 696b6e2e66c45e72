import Mathlib

namespace NovaKV.Lib

/-- An order in which a container without a specified order (a hash map, a hash
set or a directory) may list its elements. -/
structure IterationOrder (α : Type) where
  list : List α → List α
  perm : ∀ elements, (list elements).Perm elements

namespace IterationOrder

variable {α : Type}

def forward : IterationOrder α := ⟨id, fun _ => List.Perm.refl _⟩

theorem mem_list (order : IterationOrder α) {elements : List α} {a : α} :
    a ∈ order.list elements ↔ a ∈ elements :=
  (order.perm elements).mem_iff

theorem length_list (order : IterationOrder α) (elements : List α) :
    (order.list elements).length = elements.length :=
  (order.perm elements).length_eq

end IterationOrder

end NovaKV.Lib

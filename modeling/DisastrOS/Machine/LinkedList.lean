import Mathlib.Logic.Function.Basic
import DisastrOS.Library.LinkedSequence

/-!
# Intrusive linked lists

Every kernel object starts with a `ListItem`, and list heads are fields of other
objects or global variables. `ListMem` is the memory holding both: `α` are the
addresses of list items, `η` those of list heads.
-/
namespace DisastrOS.Machine

open DisastrOS.Library.LinkedSequence

structure ListMem (α η : Type) where
  item : α → Cell α
  head : η → Ends α

variable {α η : Type} [DecidableEq α] [DecidableEq η]

namespace ListMem

def setPrev (m : ListMem α η) (x : α) (p : Option α) : ListMem α η :=
  { m with item := Function.update m.item x { m.item x with prev := p } }

def setNext (m : ListMem α η) (x : α) (n : Option α) : ListMem α η :=
  { m with item := Function.update m.item x { m.item x with next := n } }

def setHead (m : ListMem α η) (l : η) (e : Ends α) : ListMem α η :=
  { m with head := Function.update m.head l e }

end ListMem

/-- `List_init`. -/
def listInit (m : ListMem α η) (head : η) : ListMem α η :=
  m.setHead head ⟨none, none, 0⟩

/-- `if (prev) { item->prev=prev; prev->next=item; }` -/
def linkAfter (m : ListMem α η) (prev : Option α) (item : α) : ListMem α η :=
  match prev with
  | some p => (m.setPrev item (some p)).setNext p (some item)
  | none => m

/-- `if (next) { item->next=next; next->prev=item; }` -/
def linkBefore (m : ListMem α η) (next : Option α) (item : α) : ListMem α η :=
  match next with
  | some n => (m.setNext item (some n)).setPrev n (some item)
  | none => m

/-- `prev ? prev->next : head->first` -/
def nextOf (m : ListMem α η) (head : η) (prev : Option α) : Option α :=
  match prev with
  | some p => (m.item p).next
  | none => (m.head head).first

/-- `List_insert`, compiled without `_LIST_DEBUG_`. The result is NULL when the
item still has a link. -/
def listInsert (m : ListMem α η) (head : η) (prev : Option α) (item : α) :
    Option α × ListMem α η :=
  if (m.item item).next ≠ none ∨ (m.item item).prev ≠ none then (none, m)
  else
    let next := nextOf m head prev
    let ends := m.head head
    (some item, (linkBefore (linkAfter m prev item) next item).setHead head
      { first := if prev = none then some item else ends.first
        last := if next = none then some item else ends.last
        size := ends.size + 1 })

/-- `List_detach` of a non-NULL item. -/
def listDetach (m : ListMem α η) (head : η) (item : α) : ListMem α η :=
  let prev := (m.item item).prev
  let next := (m.item item).next
  let ends := m.head head
  let m := match prev with
    | some p => m.setNext p next
    | none => m
  let m := match next with
    | some n => m.setPrev n prev
    | none => m
  let m := m.setHead head
    { first := if some item = ends.first then next else ends.first
      last := if some item = ends.last then prev else ends.last
      size := ends.size - 1 }
  (m.setNext item none).setPrev item none

end DisastrOS.Machine

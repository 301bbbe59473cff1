import Dataflow.Proofs.Order

/-!
# Topological sorts

A graph is put in order by a sort that is given to it.  Two things are known of a sort:
what an order is like, and that a key it reports in place of one is on a cycle.  Of keys
without a path between them a sort may put either first.
-/

namespace Dataflow

/-- A topological sort of keys. -/
structure Sorter where
  /-- The keys in order, or a key on a cycle, by the successors and the predecessors that
  keys have. -/
  sort (successors predecessors : String → List String) (keys : List String) :
    Except String (List String)
  /-- An order has every key once and each after its predecessors, and there is none for
  keys that succeed themselves. -/
  ordered {successors predecessors : String → List String} {keys order : List String} :
    keys.Nodup → sort successors predecessors keys = .ok order →
      order.Perm keys ∧ (∀ k ∈ keys, k ∉ successors k) ∧
        ∀ before key after, order = before ++ key :: after →
          ∀ p ∈ predecessors key, p ≠ key → p ∈ before
  /-- A key that is reported is on a cycle. -/
  cyclic {successors predecessors : String → List String} {keys : List String} {key : String} :
    keys.Nodup → (∀ k, ∀ next ∈ successors k, k ∈ keys ∧ next ∈ keys) →
      (∀ k, ∀ p ∈ predecessors k, k ∈ successors p) →
        sort successors predecessors keys = .error key →
          Relation.TransGen (Order.Steps successors) key key

/-- The sort that searches depth first. -/
def Sorter.depthFirst : Sorter where
  sort := Order.sort
  ordered := Order.sort_eq_ok
  cyclic := Order.cycle_of_sort_eq_error

end Dataflow

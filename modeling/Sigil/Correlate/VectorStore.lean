import Mathlib.Data.List.Sort

namespace Sigil
namespace Correlate

/-!
# The exact vector store

The store compares vectors by a similarity.  The code takes the dot product of float
vectors; here it is any function into a linear order, and the vectors are opaque.
-/

universe u v

variable {V : Type u} {S : Type v} [LinearOrder S]

/-- Exact nearest neighbours over the stored vectors. -/
structure FlatVectorStore (V : Type u) where
  items : List (String × V)

namespace FlatVectorStore

def new : FlatVectorStore V where
  items := []

/-- Insert a vector under an id. -/
def add (store : FlatVectorStore V) (id : String) (vector : V) : FlatVectorStore V where
  items := store.items ++ [(id, vector)]

/-- Top-`k` neighbours with their similarities, highest first. -/
def knn (dot : V → V → S) (store : FlatVectorStore V) (query : V) (k : Nat) :
    List (String × S) :=
  ((store.items.map fun item => (item.1, dot query item.2)).insertionSort
    fun a b => b.2 ≤ a.2).take k

end FlatVectorStore

end Correlate
end Sigil

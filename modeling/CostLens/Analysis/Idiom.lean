import CostLens.Text.Test

/-! # Sorting and searching idioms -/
namespace CostLens

/-- The idioms of sorting and searching that a text shows. -/
structure Idioms where
  /-- A built-in sort or one of the quadratic ones. -/
  quadraticSort : Bool := false
  /-- Quicksort or mergesort. -/
  linearithmicSort : Bool := false
  /-- The word for, or the shape of, a binary search. -/
  binarySearch : Bool := false
  deriving DecidableEq, Repr

namespace Idioms

open Test

/-- A loop whose condition compares with something that is divided by two. -/
def halving : Test :=
  somewhere <| lit "while" <| onLine <| lit "<" <| onLine <| lit "/" <| onLine <| lit "2" done

/-- Signs of a built-in or quadratic sort. -/
def quadraticSorts : List Test :=
  [has ".sort(", hasWord "sorted(", has "bubbleSort", has "selectionSort", has "insertionSort",
    has "bubble_sort", has "selection_sort", has "insertion_sort"]

/-- Signs of quicksort or mergesort. -/
def linearithmicSorts : List Test :=
  [has "quickSort", has "mergeSort", has "quick_sort", has "merge_sort"]

/-- Signs of a binary search. -/
def binarySearches : List Test := [has "binary", halving]

def find (span : Text) : Idioms where
  quadraticSort := quadraticSorts.any (· span)
  linearithmicSort := linearithmicSorts.any (· span)
  binarySearch := binarySearches.any (· span)

end Idioms

end CostLens

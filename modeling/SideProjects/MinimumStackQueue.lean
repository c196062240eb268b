import Mathlib.Data.List.DropRight
import Mathlib.Order.Lattice

/-!
# Minimum queue and minimum stack

`algorithms-data-structures/c++/minimum_stack_and_queue`: the two programs read numbers, and print the
least of them. The numbers are only compared, so any linear order will do. A deque is given from its
front to its back, and a stack from its top down.
-/

namespace SideProjects

namespace MinimumStackQueue

variable {α : Type*} [LinearOrder α]

/-- `while (!q.empty() && q.back() > x) q.pop_back();` -/
def popGreater (q : List α) (x : α) : List α := q.rdropWhile fun back => x < back

/-- The loop of `main_queue.cpp`. -/
def queue (xs : List α) : List α := xs.foldl (fun q x => popGreater q x ++ [x]) []

def push (st : List (α × α)) (x : α) : List (α × α) :=
  match st with
  | [] => [(x, x)]
  | top :: below => (x, min x top.2) :: top :: below

/-- The loop of `main_stack.cpp`. -/
def stack (xs : List α) : List (α × α) := xs.foldl push []

/-- `q.front()`. -/
def queueMinimum (xs : List α) : Option α := (queue xs).head?

/-- `st.top().second`. -/
def stackMinimum (xs : List α) : Option α := (stack xs).head?.map Prod.snd

end MinimumStackQueue

end SideProjects

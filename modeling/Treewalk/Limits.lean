/-!
What a run may use up. `depth` bounds how deeply grammar rules, trees and calls may nest; running
into it is an ordinary failure with a message of its own. `turns` bounds how often one loop may turn;
a loop that reaches it counts as one that does not end.
-/

namespace Treewalk

structure Limits where
  depth : Nat
  turns : Nat
deriving DecidableEq, Repr

/-- The limits of the command. The bound on turns is larger than any run can reach. -/
def Limits.standard : Limits := ⟨1000, 4611686018427387904⟩

/-- What is said when nesting goes too deep. -/
def depthMessage : String := "maximum recursion depth exceeded"

end Treewalk

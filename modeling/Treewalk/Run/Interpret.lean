import Treewalk.Diagnostic
import Treewalk.Run.Evaluate

/-!
Interpreting a program: its statements run in order, and the first runtime fault is recorded among the
diagnostics of the run and stops the statements after it. What already happened stays done.
-/

namespace Treewalk

/-- What interpreting statements comes to. -/
structure Interpretation where
  /-- Whether every statement ran; or why it is not known, when the run was cut short. -/
  ran : Except Stop Bool
  diagnostics : List Diagnostic
  world : World

/-- Interprets statements in a world, the diagnostics so far being given. -/
def Run.interpret (limits : Limits) (statements : List Stmt) (diagnostics : List Diagnostic)
    (w : World) : Interpretation :=
  match executeProgram limits statements w with
  | .ok _ w => ⟨.ok true, diagnostics, w⟩
  | .error (.fault f) w => ⟨.ok false, diagnostics ++ [.atRuntime f.token f.message], w⟩
  | .error stop w => ⟨.error stop, diagnostics, w⟩

end Treewalk

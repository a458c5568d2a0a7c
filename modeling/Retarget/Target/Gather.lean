/-!
# Gathering problems

Code generation goes on after a problem, so that all problems of a module are reported at once.
-/

namespace Retarget

def gather : List (Except (List ε) α) → Except (List ε) (List α)
  | [] => .ok []
  | .ok a :: more => (gather more).map (a :: ·)
  | .error errors :: more =>
    match gather more with
    | .ok _ => .error errors
    | .error others => .error (errors ++ others)

/-- Takes step after step, or gives the problems of all of them; a step with a problem changes nothing. -/
def gatherSteps (step : σ → α → Except ε σ) : σ → List α → Except (List ε) σ
  | s, [] => .ok s
  | s, a :: more =>
    match step s a with
    | .ok s => gatherSteps step s more
    | .error e =>
      match gatherSteps step s more with
      | .ok _ => .error [e]
      | .error others => .error (e :: others)

end Retarget

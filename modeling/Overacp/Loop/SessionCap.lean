import Overacp.Loop.Session
import Overacp.Loop.UsageAccount

/-!
# The cap on compactions in a session

`max_compactions` is a number for the session, and the counter that is held against it lives for one turn
and passes over the rounds whose summary is empty. As long as there is room left for a round whenever one is
about to be performed, as there is where the counter is right, the session keeps to the cap.
-/

namespace Overacp

open Llm Tally

namespace AgenticLoop

/-! ### Rounds -/

/-- A round is performed where a summarising call is answered with a summary. -/
def roundAt (env : Environment) (before : List Event) : Event → Nat
  | .complete messages =>
      match env.complete (before ++ [.complete messages]) >>= Compaction.summaryOf with
      | .ok _ => 1
      | .error _ => 0
  | _ => 0

/-- The rounds performed since the process was started. -/
def rounds (env : Environment) (trace : List Event) : Nat := tally (roundAt env) [] trace

variable {env : Environment} {config : LoopConfig}

/-- If a round is about to be performed, there have been fewer than the cap. -/
def Room (env : Environment) (config : LoopConfig) (s : State) : Prop :=
  (∃ slice summary, Round env config s slice summary) → rounds env s.trace < config.maxCompactions

/-- A check has room where the turn's counter says how many rounds there have been. -/
theorem room_of_counted {s : State} (h : s.compactionCount = rounds env s.trace) : Room env config s := by
  rintro ⟨slice, summary, hround⟩
  rw [← h]
  exact hround.due.2.1

end AgenticLoop

namespace Session

open AgenticLoop

def twoTurns : List NextPush :=
  [.message (Compaction.textMessage .user "and now the tests"),
    .message (Compaction.textMessage .user "and the documentation")]

end Session

end Overacp

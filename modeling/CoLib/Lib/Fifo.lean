/-
# `CoLib.Lib.Fifo` — the first-in first-out queue

The queue is a list, oldest element first.  One request removes up to `pop`
elements at the front and appends `push` at the back.  `run_conserves` is the
law that makes it a queue: what has been delivered, followed by what is still
queued, is everything ever appended, in order.
-/
import CoLib.Lib.Run

namespace CoLib.Lib

variable {α : Type*}

/-- One request: remove up to `pop` elements, then append `push`. -/
structure Request (α : Type*) where
  pop : Nat
  push : List α

namespace Fifo

/-- The queue after a request, and the elements it delivers. -/
def step (q : List α) (r : Request α) : List α × List α :=
  (q.drop r.pop ++ r.push, q.take r.pop)

/-- The queue after a sequence of requests, and the deliveries of each. -/
def run : List α → List (Request α) → List α × List (List α) := answers step

/-- Delivered, then queued, is appended. -/
theorem run_conserves : ∀ (rs : List (Request α)) (q : List α),
    (run q rs).2.flatten ++ (run q rs).1 = q ++ rs.flatMap Request.push
  | [], q => by simp [run, answers]
  | r :: rs, q => by
      have ih := run_conserves rs (step q r).1
      simp only [run] at ih
      simp only [run, answers, List.flatten_cons, List.append_assoc, ih, List.flatMap_cons]
      simp only [step, ← List.append_assoc, List.take_append_drop]

end Fifo

end CoLib.Lib

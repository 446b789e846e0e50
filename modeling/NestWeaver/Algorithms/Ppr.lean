import Mathlib.Algebra.Order.Group.Abs
import Mathlib.Data.Rat.Defs
import Mathlib.Tactic.FieldSimp
import Mathlib.Tactic.Ring
import NestWeaver.Algorithms.Graph
import NestWeaver.Framework.WorkLoop

/-!
# Personalized PageRank

`crates/nestweaver-algorithms/src/ppr.rs`, over rational numbers: power iteration
(`personalizedPagerank`), and forward push (`forwardPushPprCancellable`), which moves mass from the
residual of one node at a time to its estimate and to the residuals of its successors.

Both end with the same re-rank by interaction memory and the same selection.
-/

set_option linter.all false

namespace NestWeaver
namespace Algorithms

open Finset

/-! ## The two rankings -/

structure PprConfig where
  damping : ℚ
  maxIterations : ℕ
  minScore : ℚ
  interactionScores : Option (List (String × ℚ))
  interactionBiasWeight : ℚ

variable {n : ℕ}

abbrev Scores (n : ℕ) := Fin n → ℚ

def seedSet (adjacency : AdjacencyData n) (seedUids : List String) : Finset (Fin n) :=
  (seedUids.filterMap adjacency.uidToIdx).toFinset

/-- `1/|seeds|` for seeds. -/
def personalization (seeds : Finset (Fin n)) : Scores n :=
  fun i => if i ∈ seeds then 1 / seeds.card else 0

def applyInteractionRerank (uids : Fin n → String) (config : PprConfig) (estimate : Scores n) :
    Scores n :=
  match config.interactionScores with
  | none => estimate
  | some scores =>
    let maxScore := ((scores.map Prod.snd).filter (0 < ·)).foldl max 0
    if maxScore ≤ 0 then estimate
    else fun i =>
      match scores.lookup (uids i) with
      | some s =>
        if 0 < estimate i ∧ 0 < s then
          estimate i * (1 + config.interactionBiasWeight * s / maxScore)
        else estimate i
      | none => estimate i

/-- Seeds are always included.  The sort is stable. -/
def collectResults (uids : Fin n → String) (seeds : Finset (Fin n)) (config : PprConfig)
    (scores : Scores n) : List (String × ℚ) :=
  (((List.finRange n).filter fun i => i ∈ seeds ∨ config.minScore < scores i).map
    fun i => (uids i, scores i)).mergeSort fun a b => b.2 ≤ a.2

section Power

variable (adjacency : AdjacencyData n) (damping : ℚ) (teleport : Scores n)

def danglingSum (scores : Scores n) : ℚ :=
  ∑ i with adjacency.outWeight i = 0, scores i

def powerStep (scores : Scores n) : Scores n := fun v =>
  (adjacency.incoming v).foldl
    (fun score (u, w) =>
      if 0 < adjacency.outWeight u then score + damping * scores u * w / adjacency.outWeight u
      else score)
    ((1 - damping) * teleport v + damping * danglingSum adjacency scores * teleport v)

def maxChange (new old : Scores n) : ℚ :=
  (List.finRange n).foldl (fun delta i => max delta |new i - old i|) 0

/-- At most so many iterations, until the scores change by less than `1e-6`. -/
def powerIterate : ℕ → Scores n → Scores n
  | 0, scores => scores
  | k + 1, scores =>
    let new := powerStep adjacency damping teleport scores
    if maxChange new scores < 1 / 10 ^ 6 then new else powerIterate k new

end Power

def personalizedPagerank (uids : Fin n → String) (adjacency : AdjacencyData n)
    (seedUids : List String) (config : PprConfig) : List (String × ℚ) :=
  let seeds := seedSet adjacency seedUids
  if n = 0 ∨ seeds.card = 0 then []
  else
    let teleport := personalization seeds
    let scores := powerIterate adjacency config.damping teleport config.maxIterations teleport
    collectResults uids seeds config (applyInteractionRerank uids config scores)

section Push

variable (adjacency : AdjacencyData n) (damping : ℚ) (teleport : Scores n)

/-- The edges by their source. -/
def outgoing : Fin n → List (Fin n × ℚ) :=
  (List.finRange n).foldl (fun lists v =>
    (adjacency.incoming v).foldl (fun lists (u, w) =>
      Function.update lists u (lists u ++ [(v, w)])) lists) fun _ => []

/-- The residual threshold. -/
def residualMin : ℚ := 1 / 10 ^ 6

def cancelPollInterval : ℕ := 1024

structure PushState (n : ℕ) where
  estimate : Scores n
  residual : Scores n
  queue : List (Fin n)
  inQueue : Fin n → Bool
  pushCount : ℕ

/-- Mass arrives, and the node is queued. -/
def PushState.receive (s : PushState n) (share : Fin n × ℚ) : PushState n :=
  let (u, delta) := share
  let residual := Function.update s.residual u (s.residual u + delta)
  if s.inQueue u = false ∧ residualMin < |residual u| then
    { s with
      residual := residual
      queue := s.queue ++ [u]
      inQueue := Function.update s.inQueue u true }
  else { s with residual := residual }

/-- Who gets what of the mass that is pushed: the successors, or for a dangling node the seeds. -/
def shares (v : Fin n) (pushMass : ℚ) : List (Fin n × ℚ) :=
  if 0 < adjacency.outWeight v then
    (outgoing adjacency v).map fun (u, w) => (u, pushMass * w / adjacency.outWeight v)
  else
    ((List.finRange n).filter fun i => 0 < teleport i).map fun i => (i, pushMass * teleport i)

def PushState.push (s : PushState n) (v : Fin n) : PushState n :=
  let alpha := 1 - damping
  let mass := s.residual v
  let absorbed :=
    { s with estimate := Function.update s.estimate v (s.estimate v + alpha * mass) }
  let pushed := (shares adjacency teleport v ((1 - alpha) * mass)).foldl PushState.receive absorbed
  { pushed with residual := Function.update pushed.residual v 0 }

def PushState.pop (s : PushState n) (v : Fin n) (queue : List (Fin n)) : PushState n :=
  { s with
    queue := queue
    inQueue := Function.update s.inQueue v false
    pushCount := s.pushCount + 1 }

/-- One pass of the loop.  `cancel` answers at a push count; a run that is cancelled has no scores. -/
def pushStep (cancel : ℕ → Bool) (s : PushState n) : PushState n ⊕ Option (PushState n) :=
  match s.queue with
  | [] => .inr (some s)
  | v :: queue =>
    let popped := s.pop v queue
    if n * 10 < popped.pushCount then .inr (some popped)
    else if popped.pushCount % cancelPollInterval = 0 ∧ cancel popped.pushCount then .inr none
    else if |popped.residual v| < residualMin then .inl popped
    else .inl (popped.push adjacency damping teleport v)

def PushState.start : PushState n where
  estimate := fun _ => 0
  residual := teleport
  queue := (List.finRange n).filter fun i => 0 < teleport i
  inQueue := fun i => 0 < teleport i
  pushCount := 0

end Push

def forwardPushPprCancellable (uids : Fin n → String) (adjacency : AdjacencyData n)
    (seedUids : List String) (config : PprConfig) (cancel : ℕ → Bool) :
    Option (List (String × ℚ)) :=
  if cancel 0 then none
  else
    let seeds := seedSet adjacency seedUids
    if n = 0 ∨ seeds.card = 0 then some []
    else
      let teleport := personalization seeds
      match WorkLoop.runLoop (pushStep adjacency config.damping teleport cancel) (n * 10 + 2)
          (.start teleport) with
      | some (some s) =>
        some (collectResults uids seeds config (applyInteractionRerank uids config s.estimate))
      | _ => none

end Algorithms
end NestWeaver

import NestWeaver.Framework.Strings
import Mathlib.Data.Int.Notation

/-!
# Parameter lists of signatures

The helpers of `crates/nestweaver-engine/src/atomic_changes.rs` that read a signature as text: its
parameter list is what stands between the first `(` and the `)` that closes it, split at the commas that
no bracket encloses, without receivers.
-/

set_option linter.all false

namespace NestWeaver
namespace Signature

open Strings

/-- Whether a trimmed parameter is taken for a receiver. -/
def isSelfParam (p : List Char) : Bool :=
  "self".toList.isPrefixOf p || "&self".toList.isPrefixOf p || "&mut self".toList.isPrefixOf p ||
    "cls".toList.isPrefixOf p

/-- What comes before the `)` that closes the brackets open so far. -/
def upToClosing (depth : ℤ) : List Char → Option (List Char)
  | [] => none
  | c :: sig =>
    if c = '(' then (upToClosing (depth + 1) sig).map (c :: ·)
    else if c = ')' then
      if depth - 1 = 0 then some [] else (upToClosing (depth - 1) sig).map (c :: ·)
    else (upToClosing depth sig).map (c :: ·)

/-- The text between the first `(` and its matching `)`. -/
def extractParamList (sig : List Char) : Option (List Char) :=
  match sig.dropWhile (· ≠ '(') with
  | [] => none
  | _ :: rest => upToClosing 1 rest

/-- The parts between the top-level commas, the first of which begins with `start`. -/
def splitTopLevel (depth : ℤ) (start : List Char) : List Char → List (List Char)
  | [] => [start]
  | c :: params =>
    if c = '<' ∨ c = '(' ∨ c = '[' then splitTopLevel (depth + 1) (start ++ [c]) params
    else if c = '>' ∨ c = ')' ∨ c = ']' then splitTopLevel (depth - 1) (start ++ [c]) params
    else if c = ',' ∧ depth ≤ 0 then start :: splitTopLevel depth [] params
    else splitTopLevel depth (start ++ [c]) params

def splitTopLevelParams (params : List Char) : List (List Char) := splitTopLevel 0 [] params

/-- The real parameters, each trimmed. -/
def paramsOf (sig : List Char) : List (List Char) :=
  match extractParamList sig with
  | none => []
  | some params =>
    if trim params = [] then []
    else ((splitTopLevelParams (trim params)).map trim).filter fun p => !isSelfParam p

def countParams (sig : List Char) : ℕ :=
  match extractParamList sig with
  | none => 0
  | some params =>
    if trim params = [] then 0
    else ((splitTopLevelParams (trim params)).filter fun p => !isSelfParam (trim p)).length

/-- The count is that of the real parameters. -/
lemma countParams_eq (sig : List Char) : countParams sig = (paramsOf sig).length := by
  rw [countParams, paramsOf]
  cases extractParamList sig with
  | none => rfl
  | some params =>
    dsimp only
    split_ifs with hempty
    · rfl
    · rw [List.filter_map, List.length_map]
      rfl

end Signature
end NestWeaver

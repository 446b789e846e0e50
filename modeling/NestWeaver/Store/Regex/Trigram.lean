import Mathlib.Data.Finset.Basic
import Mathlib.Data.Finset.Dedup
import Mathlib.Data.Finset.Filter
import NestWeaver.Framework.Hir
import NestWeaver.Framework.Utf8

/-!
# The trigram condition of a pattern

The query planner of the regex search (`crates/nestweaver-store/src/regex.rs`): from the syntax
tree of a pattern it derives an OR of ANDs of trigrams that every matching text satisfies.  Texts
and patterns are sequences of Unicode scalar values.  A trigram set is a `HashSet<String>`, here a
`Finset`; a `BTreeSet<String>` is the ascending list of its elements, the order in which the
planner walks it.

The case fold is a parameter `lower` (`char::to_lowercase`, a context-free map from a character
to a string); the three size limits are the fields of `Caps`, with the source's values in
`Caps.source`.
-/

set_option linter.all false

namespace NestWeaver
namespace Regex

/-- A trigram, and any other string of the planner. -/
abbrev Str := List Char

/-- The size limits of the planner. -/
structure Caps where
  /-- `MAX_EXACT_STRINGS`: largest set of exact strings tracked for one sub-expression. -/
  maxExactStrings : ℕ
  /-- `MAX_CLASS_CHARS`: largest class expanded into its characters. -/
  maxClassChars : ℕ
  /-- `MAX_DNF_BRANCHES`: largest DNF kept. -/
  maxDnfBranches : ℕ

/-- The values the source compiles in. -/
def Caps.source : Caps := ⟨16, 8, 256⟩

/-! ## Trigrams of a text -/

/-- `slice::windows(3)`. -/
def windows3 : Str → List Str
  | a :: b :: c :: rest => [a, b, c] :: windows3 (b :: c :: rest)
  | _ => []

variable (lower : Char → Str)

/-- The per-character case fold of a text. -/
def foldCase (s : Str) : Str := s.flatMap lower

/-- Lowercase 3-grams of `s`, deduplicated. -/
def trigrams (s : Str) : Finset Str := (windows3 (foldCase lower s)).toFinset

/-! ## `BTreeSet<String>` -/

/-- Insertion into an ascending, duplicate-free list. -/
def setInsert (x : Str) : List Str → List Str
  | [] => [x]
  | y :: ys => if x < y then x :: y :: ys else if x = y then y :: ys else y :: setInsert x ys

/-- Collecting an iterator into a `BTreeSet`. -/
def setCollect (xs : List Str) : List Str := xs.foldl (fun s x => setInsert x s) []

/-- `BTreeSet::from([String::new()])`. -/
def setEmpty : List Str := [[]]

/-! ## Requirements -/

/-- Trigram requirement: `none` admits every text, `some` is an OR of ANDed trigram sets. -/
abbrev TrigramDnf := Option (List (Finset Str))

/-- What a sub-expression tells the planner: either the complete (small) set of strings it can
match, or a requirement on text containing any match. -/
structure TrigramInfo where
  exact : Option (List Str)
  required : TrigramDnf

def TrigramInfo.ofExact (strings : List Str) : TrigramInfo := ⟨some strings, none⟩

def TrigramInfo.unconstrained : TrigramInfo := ⟨none, none⟩

variable (caps : Caps)

/-- Every match satisfies some branch, and past the cap the trigrams all branches share. -/
def dnfOr (a b : TrigramDnf) : TrigramDnf :=
  match a, b with
  | some a, some b =>
    match a ++ b with
    | [] => none
    | first :: others =>
      if (first :: others).length > caps.maxDnfBranches then
        let shared := others.foldl (fun shared branch => shared.filter (· ∈ branch)) first
        if shared = ∅ then none else some [shared]
      else some (first :: others)
  | _, _ => none

/-- Past the cap a conjunct is dropped: the side with fewer alternatives is kept. -/
def dnfAnd (a b : TrigramDnf) : TrigramDnf :=
  match a, b with
  | none, other => other
  | other, none => other
  | some a, some b =>
    if a.length * b.length > caps.maxDnfBranches then
      some (if a.length ≤ b.length then a else b)
    else some (a.flatMap fun left => b.map fun right => left ∪ right)

/-- The loop of `dnfOfExact`: a string without trigrams admits every text. -/
def exactBranches : List Str → Option (List (Finset Str))
  | [] => some []
  | string :: rest =>
    if trigrams lower string = ∅ then none
    else (exactBranches rest).map (trigrams lower string :: ·)

/-- The OR of each string's trigrams. -/
def dnfOfExact (strings : List Str) : TrigramDnf :=
  match exactBranches lower strings with
  | none => none
  | some branches => dnfOr caps (some branches) (some [])

def TrigramInfo.requirement (info : TrigramInfo) : TrigramDnf :=
  match info.exact with
  | some strings => dnfOfExact lower caps strings
  | none => info.required

/-! ## Classes -/

/-- The characters from `lo` to `hi`, the surrogate gap skipped. -/
def charRange (lo hi : Char) : List Char :=
  (List.range' lo.toNat (hi.toNat + 1 - lo.toNat)).filterMap fun n =>
    if n.isValidChar then some (Char.ofNat n) else none

/-- The folds of a range's characters, unless one of them is not a single character or is changed
by folding again. -/
def foldRange (chars : List Char) (out : List Str) : Option (List Str) :=
  chars.foldlM (fun out c =>
    let folded := lower c
    if folded.length ≠ 1 ∨ foldCase lower folded ≠ folded then none
    else some (setInsert folded out)) out

/-- The loop of `classExact` over the ranges, with the running size. -/
def classRanges : List Hir.ClassUnicodeRange → ℕ → List Str → Option (List Str)
  | [], _, out => some out
  | range :: ranges, size, out =>
    let size := size + (range.end.toNat - range.start.toNat + 1)
    if size > caps.maxClassChars then none
    else
      match foldRange lower (charRange range.start range.end) out with
      | none => none
      | some out => classRanges ranges size out

/-- A class small enough to enumerate, as the per-character case folds `trigrams` applies. -/
def classExact : Hir.Class → Option (List Str)
  | .unicode ranges => classRanges lower caps ranges 0 []
  | .bytes _ => none

/-! ## The walk -/

/-- The loop variables of the walk over a concatenation. -/
structure ConcatState where
  required : TrigramDnf
  current : Option (List Str)
  allExact : Bool

def ConcatState.init : ConcatState := ⟨none, some setEmpty, true⟩

/-- One child of a concatenation. -/
def concatStep (st : ConcatState) (info : TrigramInfo) : ConcatState :=
  let pfx := st.current.getD setEmpty
  match info.exact with
  | some strings =>
    let product := setCollect (pfx.flatMap fun p => strings.map fun s => p ++ s)
    if product.length ≤ caps.maxExactStrings then { st with current := some product }
    else
      { required := dnfAnd caps st.required (dnfOfExact lower caps pfx)
        current := some strings
        allExact := false }
  | none =>
    { required := dnfAnd caps (dnfAnd caps st.required (dnfOfExact lower caps pfx)) info.required
      current := some setEmpty
      allExact := false }

/-- A concatenation, from what its children tell. -/
def concatInfo (infos : List TrigramInfo) : TrigramInfo :=
  let st := infos.foldl (concatStep lower caps) .init
  let tail := st.current.getD setEmpty
  if st.allExact then .ofExact tail
  else ⟨none, dnfAnd caps st.required (dnfOfExact lower caps tail)⟩

/-- The OR loop of an alternation, left as soon as it admits every text. -/
def orLoop : List TrigramInfo → TrigramDnf → TrigramDnf
  | [], required => required
  | info :: infos, required =>
    match dnfOr caps required (info.requirement lower caps) with
    | none => none
    | some dnf => orLoop infos (some dnf)

/-- An alternation, from what its children tell. -/
def alternationInfo (infos : List TrigramInfo) : TrigramInfo :=
  let union := setCollect (infos.flatMap fun info => info.exact.getD [])
  if (infos.all fun info => info.exact.isSome) ∧ union.length ≤ caps.maxExactStrings then
    .ofExact union
  else ⟨none, orLoop lower caps infos (some [])⟩

/-- A repetition, from what its operand tells. -/
def repetitionInfo (min : ℕ) (max : Option ℕ) (sub : TrigramInfo) : TrigramInfo :=
  if min = 1 ∧ max = some 1 then sub
  else if min = 0 ∧ max = some 1 then
    match sub.exact with
    | some strings =>
      if strings.length < caps.maxExactStrings then .ofExact (setInsert [] strings)
      else .unconstrained
    | none => .unconstrained
  else if min = 0 then .unconstrained
  else ⟨none, sub.requirement lower caps⟩

/-- `std::str::from_utf8`. -/
def fromUtf8 (bytes : List UInt8) : Option Str :=
  (String.fromUTF8? bytes.toByteArray).map String.toList

mutual

/-- What the tree of a sub-expression tells the planner. -/
def trigramInfo : Hir → TrigramInfo
  | .empty => .ofExact setEmpty
  | .look _ => .ofExact setEmpty
  | .literal bytes =>
    match fromUtf8 bytes with
    | some text => .ofExact [text]
    | none => .unconstrained
  | .class cls =>
    match classExact lower caps cls with
    | some strings => .ofExact strings
    | none => .unconstrained
  | .capture sub => trigramInfo sub
  | .repetition min max sub => repetitionInfo lower caps min max (trigramInfo sub)
  | .concat children => concatInfo lower caps (trigramInfos children)
  | .alternation children => alternationInfo lower caps (trigramInfos children)

def trigramInfos : List Hir → List TrigramInfo
  | [] => []
  | h :: hs => trigramInfo h :: trigramInfos hs

end

/-- The trigram condition any text matching the pattern must satisfy; `none` when the pattern does
not parse or no usable constraint remains, and the caller falls back to a full scan.  `parse` is
`regex_syntax::parse`. -/
def requiredTrigramClauses (parse : Str → Option Hir) (pattern : Str) : TrigramDnf :=
  match parse pattern with
  | none => none
  | some hir => (trigramInfo lower caps hir).requirement lower caps

end Regex
end NestWeaver

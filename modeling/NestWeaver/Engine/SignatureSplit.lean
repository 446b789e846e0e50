import NestWeaver.Engine.Signature

/-!
# Parameters are split apart

A parameter is a text whose brackets are balanced, with the arrows of function types and closures among its
characters (`Text`).  The parameter list of a signature is found whatever the parameters are
(`extractParamList_joined`).

The splitter keeps one count of the open brackets, and the `>` of an arrow takes one off it.  So it splits at a
comma inside brackets once as many arrows stand before the comma as brackets are open around it
(`recovers_iff`).
-/

set_option linter.all false

namespace NestWeaver
namespace Signature

open Strings

/-! ## Text in brackets -/

inductive Bracket
  | round | square | angle
  deriving DecidableEq, Repr

def Bracket.opening : Bracket → Char
  | .round => '('
  | .square => '['
  | .angle => '<'

def Bracket.closing : Bracket → Char
  | .round => ')'
  | .square => ']'
  | .angle => '>'

/-- The arrows `->` and `=>`. -/
inductive Arrow
  | thin | fat
  deriving DecidableEq, Repr

def Arrow.stem : Arrow → Char
  | .thin => '-'
  | .fat => '='

def isBracket (c : Char) : Bool := ['(', ')', '[', ']', '<', '>'].contains c

/-- A text in which every bracket is balanced. -/
inductive Text
  | nil
  | char (c : { c : Char // isBracket c = false }) (rest : Text)
  | arrow (a : Arrow) (rest : Text)
  | group (b : Bracket) (inner rest : Text)

namespace Text

def render : Text → List Char
  | nil => []
  | char c rest => c.1 :: rest.render
  | arrow a rest => a.stem :: '>' :: rest.render
  | group b inner rest => b.opening :: (inner.render ++ b.closing :: rest.render)

def arrows : Text → ℕ
  | nil => 0
  | char _ rest => rest.arrows
  | arrow _ rest => rest.arrows + 1
  | group _ inner rest => inner.arrows + rest.arrows

/-- No comma stands outside the brackets. -/
def noOuterComma : Text → Bool
  | nil => true
  | char c rest => c.1 ≠ ',' && rest.noOuterComma
  | arrow _ rest => rest.noOuterComma
  | group _ _ rest => rest.noOuterComma

end Text

/-- A comma, by the brackets around it and the arrows before it. -/
structure Comma where
  nesting : ℕ
  arrowsBefore : ℕ
  deriving DecidableEq, Repr

/-- The commas of a text within so many brackets and after so many arrows. -/
def Text.commas (nesting before : ℕ) : Text → List Comma
  | nil => []
  | char c rest =>
    if c.1 = ',' then ⟨nesting, before⟩ :: rest.commas nesting before else rest.commas nesting before
  | arrow _ rest => rest.commas nesting (before + 1)
  | group _ inner rest =>
    inner.commas (nesting + 1) before ++ rest.commas nesting (before + inner.arrows)

/-- A parameter. -/
structure Fragment where
  text : Text
  noOuterComma : text.noOuterComma = true

def Fragment.spell (f : Fragment) : List Char := f.text.render

/-- The parameters joined by commas. -/
def joined : List Fragment → List Char
  | [] => []
  | [f] => f.spell
  | f :: fs => f.spell ++ ',' :: joined fs

/-- The commas inside brackets, those of the first parameter after so many arrows. -/
def innerCommas (before : ℕ) : List Fragment → List Comma
  | [] => []
  | f :: fs => f.text.commas 0 before ++ innerCommas (before + f.text.arrows) fs

/-- The list is split into its parameters, and it is found in a signature. -/
structure Recovers (fragments : List Fragment) : Prop where
  split : splitTopLevelParams (joined fragments) = fragments.map Fragment.spell
  extract : ∀ name ret, '(' ∉ name →
    extractParamList (name ++ '(' :: (joined fragments ++ ')' :: ret)) = some (joined fragments)

variable {t : Text} {f : Fragment} {fs : List Fragment} {depth : ℤ} {nesting before : ℕ}
  {start more : List Char}

/-! ## Finding the list -/

lemma upToClosing_plain {c : Char} (hopening : c ≠ '(') (hclosing : c ≠ ')') :
    upToClosing depth (c :: more) = (upToClosing depth more).map (c :: ·) := by
  rw [upToClosing, if_neg hopening, if_neg hclosing]

/-- A balanced text is passed over. -/
lemma upToClosing_render (t : Text) {depth : ℤ} (hdepth : 1 ≤ depth) (more : List Char) :
    upToClosing depth (t.render ++ more) = (upToClosing depth more).map (t.render ++ ·) := by
  induction t generalizing depth more with
  | nil => simp [Text.render]
  | char c rest ih =>
    have hopening : c.1 ≠ '(' := fun h => absurd c.2 (by rw [h]; decide)
    have hclosing : c.1 ≠ ')' := fun h => absurd c.2 (by rw [h]; decide)
    rw [Text.render, List.cons_append, upToClosing_plain hopening hclosing, ih hdepth, Option.map_map]
    rfl
  | arrow a rest ih =>
    have hopening : a.stem ≠ '(' := by cases a <;> decide
    have hclosing : a.stem ≠ ')' := by cases a <;> decide
    rw [Text.render, List.cons_append, List.cons_append, upToClosing_plain hopening hclosing,
      upToClosing_plain (by decide) (by decide), ih hdepth, Option.map_map, Option.map_map]
    rfl
  | group b inner rest ihInner ihRest =>
    rw [Text.render, List.cons_append, List.append_assoc, List.cons_append]
    cases b with
    | round =>
      rw [Bracket.opening, upToClosing, if_pos rfl, ihInner (by omega), Bracket.closing, upToClosing,
        if_neg (by decide), if_pos rfl, if_neg (by omega), Int.add_sub_cancel, ihRest hdepth]
      simp [Function.comp_def]
    | square | angle =>
      rw [Bracket.opening, upToClosing_plain (by decide) (by decide), ihInner hdepth, Bracket.closing,
        upToClosing_plain (by decide) (by decide), ihRest hdepth]
      simp [Function.comp_def]

lemma upToClosing_joined (fs : List Fragment) {depth : ℤ} (hdepth : 1 ≤ depth) (more : List Char) :
    upToClosing depth (joined fs ++ more) = (upToClosing depth more).map (joined fs ++ ·) := by
  induction fs with
  | nil => simp [joined]
  | cons f fs ih =>
    cases fs with
    | nil => exact upToClosing_render f.text hdepth more
    | cons f' fs =>
      rw [joined, List.append_assoc, List.cons_append, Fragment.spell, upToClosing_render f.text hdepth,
        upToClosing_plain (by decide) (by decide), ih]
      · simp [Function.comp_def]
      · exact List.cons_ne_nil _ _

/-- The list is what stands between the parentheses. -/
lemma extractParamList_joined (fs : List Fragment) {name : List Char} (hname : '(' ∉ name)
    (ret : List Char) :
    extractParamList (name ++ '(' :: (joined fs ++ ')' :: ret)) = some (joined fs) := by
  have hdrop : (name ++ '(' :: (joined fs ++ ')' :: ret)).dropWhile (· ≠ '(') =
      '(' :: (joined fs ++ ')' :: ret) := by
    rw [List.dropWhile_append_of_pos, List.dropWhile_cons_of_neg (by simp)]
    intro c hc
    exact decide_eq_true fun h => hname (h ▸ hc)
  rw [extractParamList, hdrop]
  dsimp only
  rw [upToClosing_joined fs (by omega), upToClosing, if_neg (by decide), if_pos rfl,
    if_pos (Int.sub_self 1), Option.map_some, List.append_nil]

/-! ## One step of the splitter -/

lemma splitTopLevel_plain {c : Char} (hc : isBracket c = false) (hcomma : c ≠ ',') :
    splitTopLevel depth start (c :: more) = splitTopLevel depth (start ++ [c]) more := by
  have hbrackets : c ∉ ['(', ')', '[', ']', '<', '>'] := by
    rw [isBracket, List.contains_eq_mem, decide_eq_false_iff_not] at hc
    exact hc
  simp only [List.mem_cons, List.not_mem_nil, or_false, not_or] at hbrackets
  rw [splitTopLevel, if_neg (by tauto), if_neg (by tauto), if_neg (by tauto)]

lemma splitTopLevel_opening (b : Bracket) :
    splitTopLevel depth start (b.opening :: more) =
      splitTopLevel (depth + 1) (start ++ [b.opening]) more := by
  rw [splitTopLevel, if_pos (by cases b <;> decide)]

lemma splitTopLevel_closing (b : Bracket) :
    splitTopLevel depth start (b.closing :: more) =
      splitTopLevel (depth - 1) (start ++ [b.closing]) more := by
  rw [splitTopLevel, if_neg (by cases b <;> decide), if_pos (by cases b <;> decide)]

lemma splitTopLevel_arrow (a : Arrow) :
    splitTopLevel depth start (a.stem :: '>' :: more) =
      splitTopLevel (depth - 1) (start ++ [a.stem, '>']) more := by
  rw [splitTopLevel_plain (by cases a <;> decide) (by cases a <;> decide), splitTopLevel,
    if_neg (by decide), if_pos (by decide), List.append_assoc]
  rfl

lemma splitTopLevel_cut (hdepth : depth ≤ 0) :
    splitTopLevel depth start (',' :: more) = start :: splitTopLevel depth [] more := by
  rw [splitTopLevel, if_neg (by decide), if_neg (by decide), if_pos ⟨rfl, hdepth⟩]

lemma splitTopLevel_kept (hdepth : 0 < depth) :
    splitTopLevel depth start (',' :: more) = splitTopLevel depth (start ++ [',']) more := by
  rw [splitTopLevel, if_neg (by decide), if_neg (by decide), if_neg (by omega)]

/-! ## Splitting a text -/

/-- A text is kept together if none of its commas is a cut. -/
lemma splitTopLevel_render (t : Text) (h : ∀ c ∈ t.commas nesting before, c.arrowsBefore < c.nesting)
    (start more : List Char) :
    splitTopLevel (nesting - before : ℤ) start (t.render ++ more) =
      splitTopLevel (nesting - (before + t.arrows : ℕ) : ℤ) (start ++ t.render) more := by
  induction t generalizing nesting before start more with
  | nil => simp [Text.render, Text.arrows]
  | char c rest ih =>
    rw [Text.commas] at h
    rw [Text.render, Text.arrows, List.cons_append]
    have happend : start ++ [c.1] ++ rest.render = start ++ c.1 :: rest.render := by simp
    by_cases hcomma : c.1 = ','
    · rw [if_pos hcomma] at h
      have hnesting : before < nesting := h _ List.mem_cons_self
      rw [hcomma] at happend ⊢
      rw [splitTopLevel_kept (by omega), ih (fun c hc => h c (List.mem_cons_of_mem _ hc)), happend]
    · rw [if_neg hcomma] at h
      rw [splitTopLevel_plain c.2 hcomma, ih h, happend]
  | arrow a rest ih =>
    have hdepth : (nesting - before - 1 : ℤ) = nesting - (before + 1 : ℕ) := by omega
    have harrows : before + 1 + rest.arrows = before + (rest.arrows + 1) := by omega
    rw [Text.render, Text.arrows, List.cons_append, List.cons_append, splitTopLevel_arrow, hdepth, ih h,
      harrows]
    simp
  | group b inner rest ihInner ihRest =>
    rw [Text.commas, List.forall_mem_append] at h
    have hopened : (nesting - before + 1 : ℤ) = (nesting + 1 : ℕ) - before := by omega
    have hclosed : ((nesting + 1 : ℕ) - (before + inner.arrows : ℕ) - 1 : ℤ) =
        nesting - (before + inner.arrows : ℕ) := by omega
    rw [Text.render, Text.arrows, List.cons_append, List.append_assoc, List.cons_append,
      splitTopLevel_opening, hopened, ihInner h.1, splitTopLevel_closing, hclosed, ihRest h.2,
      Nat.add_assoc]
    simp

/-- Such a comma is a cut. -/
def Comma.isCut (c : Comma) : Bool := c.nesting ≤ c.arrowsBefore

lemma length_splitTopLevel (start : List Char) :
    (splitTopLevel depth start more).length = (splitTopLevel depth [] more).length := by
  induction more generalizing depth start with
  | nil => rfl
  | cons c more ih =>
    rw [splitTopLevel, splitTopLevel]
    split_ifs
    · rw [ih, ih ([] ++ [c])]
    · rw [ih, ih ([] ++ [c])]
    · rfl
    · rw [ih, ih ([] ++ [c])]

/-- A text adds one part for each of its cuts. -/
lemma length_splitTopLevel_render (t : Text) (nesting before : ℕ) (more : List Char) :
    (splitTopLevel (nesting - before : ℤ) [] (t.render ++ more)).length =
      (t.commas nesting before).countP Comma.isCut +
        (splitTopLevel (nesting - (before + t.arrows : ℕ) : ℤ) [] more).length := by
  induction t generalizing nesting before more with
  | nil => simp [Text.render, Text.arrows, Text.commas]
  | char c rest ih =>
    rw [Text.render, Text.arrows, Text.commas, List.cons_append]
    by_cases hcomma : c.1 = ','
    · rw [hcomma, if_pos rfl, List.countP_cons, ← Nat.add_right_comm, ← ih]
      by_cases hcut : nesting ≤ before
      · rw [splitTopLevel_cut (by omega), Comma.isCut, if_pos (decide_eq_true hcut)]
        rfl
      · rw [splitTopLevel_kept (by omega), Comma.isCut, if_neg (by simpa using hcut),
          length_splitTopLevel]
        rfl
    · rw [if_neg hcomma, splitTopLevel_plain c.2 hcomma, length_splitTopLevel, ih]
  | arrow a rest ih =>
    have hdepth : (nesting - before - 1 : ℤ) = nesting - (before + 1 : ℕ) := by omega
    have harrows : before + 1 + rest.arrows = before + (rest.arrows + 1) := by omega
    rw [Text.render, Text.arrows, Text.commas, List.cons_append, List.cons_append, splitTopLevel_arrow,
      length_splitTopLevel, hdepth, ih, harrows]
  | group b inner rest ihInner ihRest =>
    have hopened : (nesting - before + 1 : ℤ) = (nesting + 1 : ℕ) - before := by omega
    have hclosed : ((nesting + 1 : ℕ) - (before + inner.arrows : ℕ) - 1 : ℤ) =
        nesting - (before + inner.arrows : ℕ) := by omega
    rw [Text.render, Text.arrows, Text.commas, List.cons_append, List.append_assoc, List.cons_append,
      splitTopLevel_opening, length_splitTopLevel, hopened, ihInner, splitTopLevel_closing,
      length_splitTopLevel, hclosed, ihRest, List.countP_append, Nat.add_assoc before, Nat.add_assoc]

/-! ## Splitting a list -/

lemma splitTopLevelParams_eq (params : List Char) :
    splitTopLevelParams params = splitTopLevel ((0 : ℕ) - (0 : ℕ) : ℤ) [] params := rfl

lemma split_joined (f : Fragment) (fs : List Fragment)
    (h : ∀ c ∈ innerCommas before (f :: fs), c.arrowsBefore < c.nesting) :
    splitTopLevel ((0 : ℕ) - before : ℤ) [] (joined (f :: fs)) = (f :: fs).map Fragment.spell := by
  induction fs generalizing f before with
  | nil =>
    rw [innerCommas, List.forall_mem_append] at h
    have hrender := splitTopLevel_render f.text h.1 [] []
    rw [List.append_nil, List.nil_append, splitTopLevel] at hrender
    exact hrender
  | cons f' fs ih =>
    rw [innerCommas, List.forall_mem_append] at h
    have hrender := splitTopLevel_render f.text h.1 [] (',' :: joined (f' :: fs))
    rw [splitTopLevel_cut (by omega), ih f' h.2] at hrender
    exact hrender

lemma length_split_joined (before : ℕ) (f : Fragment) (fs : List Fragment) :
    (splitTopLevel ((0 : ℕ) - before : ℤ) [] (joined (f :: fs))).length =
      (innerCommas before (f :: fs)).countP Comma.isCut + (f :: fs).length := by
  induction fs generalizing f before with
  | nil =>
    have hrender := length_splitTopLevel_render f.text 0 before []
    rw [List.append_nil, splitTopLevel] at hrender
    rw [innerCommas, innerCommas, List.append_nil]
    exact hrender
  | cons f' fs ih =>
    have hrender := length_splitTopLevel_render f.text 0 before (',' :: joined (f' :: fs))
    rw [splitTopLevel_cut (by omega), List.length_cons, ih _ f'] at hrender
    rw [innerCommas, List.countP_append, List.length_cons, Nat.add_assoc]
    exact hrender

/-- **Parameters are recovered unless a nested comma is a cut.**  For all parameters with balanced brackets, arrows
among them or not, that no comma outside brackets divides: the list joined from them is split into them, and it is
found in every signature it stands in, if and only if there is a parameter and each comma inside brackets has more
brackets around it than arrows before it. -/
theorem recovers_iff (fragments : List Fragment) :
    Recovers fragments ↔
      fragments ≠ [] ∧ ∀ c ∈ innerCommas 0 fragments, c.arrowsBefore < c.nesting := by
  cases fragments with
  | nil =>
    refine ⟨fun h => ?_, fun h => absurd rfl h.1⟩
    have hsplit := h.split
    cases hsplit
  | cons f fs =>
    refine ⟨fun h => ⟨List.cons_ne_nil _ _, ?_⟩, fun h => ⟨?_, ?_⟩⟩
    · have hlength := length_split_joined 0 f fs
      rw [← splitTopLevelParams_eq, h.split, List.length_map, Nat.right_eq_add, List.countP_eq_zero]
        at hlength
      intro c hc
      simpa [Comma.isCut] using hlength c hc
    · rw [splitTopLevelParams_eq]
      exact split_joined f fs h.2
    · exact fun name ret hname => extractParamList_joined (f :: fs) hname ret

/-- The parameters of `g(f:()=>r,m:M<K,V>)`. -/
def callbackAndMap : List Fragment :=
  [⟨.char ⟨'f', rfl⟩ (.char ⟨':', rfl⟩ (.group .round .nil (.arrow .fat (.char ⟨'r', rfl⟩ .nil)))), rfl⟩,
    ⟨.char ⟨'m', rfl⟩ (.char ⟨':', rfl⟩ (.char ⟨'M', rfl⟩ (.group .angle
      (.char ⟨'K', rfl⟩ (.char ⟨',', rfl⟩ (.char ⟨'V', rfl⟩ .nil))) .nil))), rfl⟩]

/-- After the arrow of the callback, the comma of the map divides. -/
theorem callbackAndMap_divided :
    splitTopLevelParams (joined callbackAndMap) =
        ["f:()=>r".toList, "m:M<K".toList, "V>".toList] ∧
      countParams "g(f:()=>r,m:M<K,V>)".toList = 3 ∧ ¬Recovers callbackAndMap := by
  have hsplit : splitTopLevelParams (joined callbackAndMap) =
      ["f:()=>r".toList, "m:M<K".toList, "V>".toList] := by decide
  refine ⟨hsplit, by decide, fun h => ?_⟩
  have hlength := congrArg List.length (h.split.symm.trans hsplit)
  exact absurd hlength (by decide)

end Signature
end NestWeaver

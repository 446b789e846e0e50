import Mathlib.Algebra.BigOperators.Group.Finset.Piecewise
import Mathlib.Algebra.Ring.Nat
import Mathlib.Data.Finset.Card
import Mathlib.Data.Finset.Union

/-!
# Postings of keyed documents

An inverted index holds, of every document, the pairs of its key and its terms (`pairs`).  Two indexes are
told apart by the pairs that one has and the other has not, and these are found at the keys whose
documents differ (`card_sdiff_pairs`): the other documents need not be looked at.
-/

set_option linter.all false

namespace NestWeaver
namespace Postings

variable {δ κ τ : Type*} [DecidableEq κ] [DecidableEq τ]

/-- No two documents have one key. -/
def Keyed (key : δ → κ) (docs : List δ) : Prop := (docs.map key).Nodup

section

variable (key : δ → κ) (terms : δ → Finset τ)

def pairs : List δ → Finset (κ × τ)
  | [] => ∅
  | d :: docs => (terms d).image (key d, ·) ∪ pairs docs

/-- The terms under a key. -/
def content (docs : List δ) (k : κ) : Finset τ := ((docs.find? (key · = k)).map terms).getD ∅

/-- In how many documents a term is. -/
def frequency (docs : List δ) (t : τ) : ℕ := docs.countP (t ∈ terms ·)

end

variable {key : δ → κ} {terms : δ → Finset τ} {docs old new : List δ} {d : δ} {k : κ} {t : τ}

lemma mem_pairs : (k, t) ∈ pairs key terms docs ↔ ∃ d ∈ docs, key d = k ∧ t ∈ terms d := by
  induction docs with
  | nil => simp [pairs]
  | cons d docs ih =>
    rw [pairs, Finset.mem_union, ih, Finset.mem_image]
    constructor
    · rintro (⟨t', ht, heq⟩ | ⟨d', hd, hk⟩)
      · obtain ⟨rfl, rfl⟩ := Prod.mk.inj heq
        exact ⟨d, List.mem_cons_self, rfl, ht⟩
      · exact ⟨d', List.mem_cons_of_mem _ hd, hk⟩
    · rintro ⟨d', hd, rfl, ht⟩
      obtain rfl | hd := List.mem_cons.mp hd
      · exact .inl ⟨t, ht, rfl⟩
      · exact .inr ⟨d', hd, rfl, ht⟩

omit [DecidableEq τ] in
lemma content_of_mem (hkeyed : Keyed key docs) (hd : d ∈ docs) :
    content key terms docs (key d) = terms d := by
  have hfind : docs.find? (fun d' => key d' = key d) = some d := by
    induction docs with
    | nil => cases hd
    | cons d' docs ih =>
      obtain ⟨hnot, hkeyed⟩ := List.nodup_cons.mp hkeyed
      obtain rfl | hd := List.mem_cons.mp hd
      · exact List.find?_cons_of_pos (by simp)
      · have hne : ¬key d' = key d := fun heq => hnot (heq ▸ List.mem_map_of_mem hd)
        rw [List.find?_cons_of_neg (by simpa using hne)]
        exact ih hkeyed hd
  rw [content, hfind]
  rfl

omit [DecidableEq τ] in
lemma content_of_notMem (h : k ∉ docs.map key) : content key terms docs k = ∅ := by
  have hfind : docs.find? (fun d => key d = k) = none := by
    rw [List.find?_eq_none]
    intro d hd heq
    exact h (List.mem_map.mpr ⟨d, hd, by simpa using heq⟩)
  rw [content, hfind]
  rfl

omit [DecidableEq τ] in
/-- Under a key there is at most one document. -/
lemma filter_key (terms : δ → Finset τ) (hkeyed : Keyed key docs) (k : κ) :
    (docs.filter fun d => key d = k) = [] ∧ content key terms docs k = ∅ ∨
      ∃ d, (docs.filter fun d => key d = k) = [d] ∧ content key terms docs k = terms d := by
  by_cases hk : k ∈ docs.map key
  · obtain ⟨d, hd, rfl⟩ := List.mem_map.mp hk
    refine .inr ⟨d, ?_, content_of_mem hkeyed hd⟩
    have hnodup : (docs.filter fun d' => key d' = key d).Nodup := hkeyed.of_map.filter _
    refine ((List.perm_ext_iff_of_nodup hnodup (List.nodup_singleton d)).mpr fun d' => ?_).eq_singleton
    rw [List.mem_filter, List.mem_singleton, decide_eq_true_eq]
    constructor
    · rintro ⟨hd', heq⟩
      exact List.inj_on_of_nodup_map hkeyed hd' hd heq
    · rintro rfl
      exact ⟨hd, rfl⟩
  · refine .inl ⟨?_, content_of_notMem hk⟩
    rw [List.filter_eq_nil_iff]
    intro d hd heq
    exact hk (List.mem_map.mpr ⟨d, hd, by simpa using heq⟩)

lemma mem_content (hkeyed : Keyed key docs) :
    t ∈ content key terms docs k ↔ (k, t) ∈ pairs key terms docs := by
  rw [mem_pairs]
  constructor
  · intro ht
    by_cases hk : k ∈ docs.map key
    · obtain ⟨d, hd, rfl⟩ := List.mem_map.mp hk
      rw [content_of_mem hkeyed hd] at ht
      exact ⟨d, hd, rfl, ht⟩
    · rw [content_of_notMem hk] at ht
      exact absurd ht (Finset.notMem_empty t)
  · rintro ⟨d, hd, rfl, ht⟩
    rw [content_of_mem hkeyed hd]
    exact ht

/-- The pairs with a property are counted document by document. -/
lemma card_filter_pairs (hkeyed : Keyed key docs) (p : κ × τ → Prop) [DecidablePred p] :
    ((pairs key terms docs).filter p).card =
      (docs.map fun d => ((terms d).filter fun t => p (key d, t)).card).sum := by
  induction docs with
  | nil => rfl
  | cons d docs ih =>
    obtain ⟨hnot, hkeyed⟩ := List.nodup_cons.mp hkeyed
    have hdisjoint : Disjoint (((terms d).image (key d, ·)).filter p)
        ((pairs key terms docs).filter p) := by
      rw [Finset.disjoint_left]
      rintro ⟨k, t⟩ hleft hright
      obtain ⟨t', -, heq⟩ := Finset.mem_image.mp (Finset.mem_filter.mp hleft).1
      obtain ⟨d', hd', hk, -⟩ := mem_pairs.mp (Finset.mem_filter.mp hright).1
      exact hnot (List.mem_map.mpr ⟨d', hd', hk.trans (Prod.mk.inj heq).1.symm⟩)
    rw [pairs, Finset.filter_union, Finset.card_union_of_disjoint hdisjoint, ih hkeyed,
      List.map_cons, List.sum_cons, Finset.filter_image,
      Finset.card_image_of_injective _ (Prod.mk_right_injective (key d))]

lemma card_pairs (hkeyed : Keyed key docs) :
    (pairs key terms docs).card = (docs.map fun d => (terms d).card).sum := by
  have h : ((pairs key terms docs).filter fun _ => True).card = _ :=
    card_filter_pairs hkeyed fun _ => True
  simpa using h

/-- A sum over keys depends on those only where it is not zero. -/
lemma sum_map_eq {f : κ → ℕ} {ks ks' : List κ} (hks : ks.Nodup) (hks' : ks'.Nodup)
    (h : ∀ k, f k ≠ 0 → (k ∈ ks ↔ k ∈ ks')) : (ks.map f).sum = (ks'.map f).sum := by
  rw [← List.sum_toFinset f hks, ← List.sum_toFinset f hks',
    ← Finset.sum_filter_ne_zero ks.toFinset, ← Finset.sum_filter_ne_zero ks'.toFinset]
  refine Finset.sum_congr ?_ fun _ _ => rfl
  ext k
  rw [Finset.mem_filter, Finset.mem_filter, List.mem_toFinset, List.mem_toFinset]
  exact and_congr_left (h k)

/-- **The changes are at the keys that changed.**  Whatever keys are looked at, if every key with another
content is one of them, the pairs of one index that the other has not are counted there. -/
lemma card_sdiff_pairs (hold : Keyed key old) (hnew : Keyed key new) {ks : List κ} (hks : ks.Nodup)
    (hchanged : ∀ k, content key terms new k ≠ content key terms old k → k ∈ ks) :
    (pairs key terms new \ pairs key terms old).card =
      (ks.map fun k => (content key terms new k \ content key terms old k).card).sum := by
  have hcard : (pairs key terms new \ pairs key terms old).card =
      ((new.map key).map fun k => (content key terms new k \ content key terms old k).card).sum := by
    rw [← Finset.filter_notMem_eq_sdiff, card_filter_pairs hnew, List.map_map]
    refine congrArg List.sum (List.map_congr_left fun d hd => ?_)
    rw [Function.comp_apply, content_of_mem hnew hd, ← Finset.filter_notMem_eq_sdiff]
    simp only [mem_content hold]
  rw [hcard]
  refine sum_map_eq hnew hks fun k hk => ⟨fun _ => hchanged k fun heq => hk ?_, fun _ => ?_⟩
  · rw [heq, sdiff_self]
    rfl
  · by_contra hnot
    rw [content_of_notMem hnot, Finset.empty_sdiff] at hk
    exact hk Finset.card_empty

/-- Shared pairs are counted at the documents of one of the two. -/
lemma card_inter_pairs (hold : Keyed key old) (hnew : Keyed key new) :
    (pairs key terms new ∩ pairs key terms old).card =
      (old.map fun d => ((terms d).filter (· ∈ content key terms new (key d))).card).sum := by
  rw [Finset.inter_comm, ← Finset.filter_mem_eq_inter, card_filter_pairs hold]
  simp only [mem_content hnew]

/-- A frequency loses no more than it has. -/
lemma frequency_eq (hkeyed : Keyed key docs) :
    frequency terms docs t = ((pairs key terms docs).filter (·.2 = t)).card := by
  rw [card_filter_pairs hkeyed, frequency, List.countP_eq_length_filter]
  clear hkeyed
  induction docs with
  | nil => rfl
  | cons d docs ih =>
    rw [List.map_cons, List.sum_cons, List.filter_cons]
    by_cases ht : t ∈ terms d
    · have hone : (terms d).filter (· = t) = {t} := by
        ext t'
        rw [Finset.mem_filter, Finset.mem_singleton]
        exact ⟨fun h => h.2, fun h => ⟨h ▸ ht, h⟩⟩
      rw [if_pos (by simpa using ht), List.length_cons, ih, hone, Finset.card_singleton, Nat.add_comm]
    · have hnone : (terms d).filter (· = t) = ∅ := by
        rw [Finset.filter_eq_empty_iff]
        rintro t' ht' rfl
        exact ht ht'
      rw [if_neg (by simpa using ht), ih, hnone, Finset.card_empty, Nat.zero_add]

omit [DecidableEq κ] [DecidableEq τ] in
lemma card_filter_change [DecidableEq (κ × τ)] (new old : Finset (κ × τ)) (p : κ × τ → Prop)
    [DecidablePred p] :
    ((old \ new).filter p).card ≤ (old.filter p).card ∧
      (old.filter p).card - ((old \ new).filter p).card + ((new \ old).filter p).card =
        (new.filter p).card := by
  have hsplit : ∀ s s' : Finset (κ × τ), (s.filter p).card =
      ((s \ s').filter p).card + ((s ∩ s').filter p).card := by
    intro s s'
    rw [← Finset.card_union_of_disjoint, ← Finset.filter_union, Finset.sdiff_union_inter]
    exact Finset.disjoint_filter_filter (Finset.disjoint_sdiff_inter s s')
  have hold := hsplit old new
  have hnew := hsplit new old
  rw [Finset.inter_comm] at hold
  omega

/-- Term by term and document by document the same pairs are counted. -/
lemma sum_countP_terms {ts : List τ} (hts : ts.Nodup) (hall : ∀ d ∈ docs, ∀ t ∈ terms d, t ∈ ts)
    (q : δ → τ → Prop) [∀ d, DecidablePred (q d)] :
    (ts.map fun t => docs.countP fun d => t ∈ terms d ∧ q d t).sum =
      (docs.map fun d => ((terms d).filter (q d)).card).sum := by
  induction docs with
  | nil => simp
  | cons d docs ih =>
    have hcount : ∀ t, (d :: docs).countP (fun d => t ∈ terms d ∧ q d t) =
        (docs.countP fun d => t ∈ terms d ∧ q d t) + if t ∈ terms d ∧ q d t then 1 else 0 := by
      intro t
      rw [List.countP_cons]
      simp
    have hdoc : (ts.map fun t => if t ∈ terms d ∧ q d t then 1 else 0).sum =
        ((terms d).filter (q d)).card := by
      rw [← List.sum_toFinset _ hts, ← Finset.card_filter]
      congr 1
      ext t
      rw [Finset.mem_filter, Finset.mem_filter, List.mem_toFinset]
      exact ⟨fun h => h.2, fun h => ⟨hall d List.mem_cons_self t h.1, h⟩⟩
    simp only [hcount]
    rw [List.sum_map_add, ih fun d' hd' => hall d' (List.mem_cons_of_mem _ hd'), hdoc,
      List.map_cons, List.sum_cons, Nat.add_comm]

end Postings
end NestWeaver

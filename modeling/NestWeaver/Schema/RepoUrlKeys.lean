import NestWeaver.Schema.RepoUrl

/-!
# Repository keys are separate

A checkout whose path is kept whole has its canonical path as key (`repoKey_spell`), which is empty or
starts with a slash; the key of a clone URL starts with another character (`repoKey_cloneUrl`).
-/

set_option linter.all false

namespace NestWeaver
namespace RepoUrl

open Strings

variable {s path path' : List Char} {form form' : LocalForm}

/-! ## Lower case -/

lemma toAsciiLowercase_append (s t : List Char) :
    toAsciiLowercase (s ++ t) = toAsciiLowercase s ++ toAsciiLowercase t := List.map_append

lemma toNat_toLower (c : Char) :
    c.toLower.toNat = if 65 ≤ c.toNat ∧ c.toNat ≤ 90 then c.toNat + 32 else c.toNat := by
  have hA : 'A'.val.toNat = 65 := rfl
  have hZ : 'Z'.val.toNat = 90 := rfl
  have hval : ∀ d : Char, d.toNat = d.val.toNat := fun _ => rfl
  delta Char.toLower
  split
  · rename_i hupper
    have hlow := UInt32.le_iff_toNat_le.mp hupper.1
    have hhigh := UInt32.le_iff_toNat_le.mp hupper.2
    have hshift : ('a'.val - 'A'.val).toNat = 32 := rfl
    rw [hA] at hlow
    rw [hZ] at hhigh
    rw [hval c, if_pos ⟨hlow, hhigh⟩, hval, UInt32.toNat_add, hshift]
    omega
  · rename_i hupper
    rw [if_neg]
    rintro ⟨hlow, hhigh⟩
    rw [← hA] at hlow
    rw [← hZ] at hhigh
    exact hupper ⟨UInt32.le_iff_toNat_le.mpr hlow, UInt32.le_iff_toNat_le.mpr hhigh⟩

lemma toLower_eq_self {c : Char} (h : c.toNat < 65 ∨ 90 < c.toNat) : c.toLower = c := by
  have heq := toNat_toLower c
  rw [if_neg (by omega)] at heq
  exact Char.toNat_inj.mp heq

/-- Lower case adds no character below the letters. -/
lemma eq_of_toLower_eq {c d : Char} (hlow : d.toNat < 65) (h : c.toLower = d) : c = d := by
  have heq := toNat_toLower c
  rw [h] at heq
  split_ifs at heq with hupper
  · omega
  · exact Char.toNat_inj.mp heq.symm

lemma mem_toAsciiLowercase {c : Char} (hlow : c.toNat < 65) :
    c ∈ toAsciiLowercase s ↔ c ∈ s := by
  rw [toAsciiLowercase, List.mem_map]
  constructor
  · rintro ⟨d, hd, heq⟩
    exact eq_of_toLower_eq hlow heq ▸ hd
  · intro hc
    exact ⟨c, hc, toLower_eq_self (.inl hlow)⟩

/-! ## Suffixes -/

lemma stripGitSuffix_eq (s : List Char) :
    ∃ suffix, (suffix = [] ∨ suffix = gitSuffix) ∧ s = stripGitSuffix s ++ suffix := by
  by_cases h : gitSuffix <:+ s
  · obtain ⟨front, rfl⟩ := h
    refine ⟨gitSuffix, .inr rfl, ?_⟩
    rw [stripGitSuffix, stripSuffix_append, Option.getD_some]
  · refine ⟨[], .inl rfl, ?_⟩
    rw [stripGitSuffix, stripSuffix_of_not_suffix h, Option.getD_none, List.append_nil]

/-- A character that is not of `.git` bounds what is stripped. -/
lemma stripGitSuffix_append {front : List Char} {c : Char} (hc : c ∉ gitSuffix) (back : List Char) :
    stripGitSuffix (front ++ c :: back) = front ++ c :: stripGitSuffix back := by
  have hsuffix : gitSuffix <:+ front ++ c :: back ↔ gitSuffix <:+ back := by
    constructor
    · intro h
      obtain hshort | hlong := List.suffix_or_suffix_of_suffix h (List.suffix_append front (c :: back))
      · obtain heq | hback := List.suffix_cons_iff.mp hshort
        · exact absurd (heq ▸ List.mem_cons_self) hc
        · exact hback
      · exact absurd (hlong.subset List.mem_cons_self) hc
    · intro h
      exact h.trans ((List.suffix_cons c back).trans (List.suffix_append front _))
  by_cases h : gitSuffix <:+ back
  · obtain ⟨rest, rfl⟩ := h
    have hassoc : front ++ c :: (rest ++ gitSuffix) = (front ++ c :: rest) ++ gitSuffix := by simp
    rw [hassoc, stripGitSuffix, stripGitSuffix, stripSuffix_append, stripSuffix_append]
    rfl
  · rw [stripGitSuffix, stripGitSuffix, stripSuffix_of_not_suffix h,
      stripSuffix_of_not_suffix (mt hsuffix.mp h)]
    rfl

lemma exists_trimEndSlashes (s : List Char) :
    ∃ n, s = trimEndSlashes s ++ List.replicate n '/' := by
  obtain ⟨tail, heq, htail⟩ := exists_rdropWhile (· = '/') s
  refine ⟨tail.length, ?_⟩
  have hslashes : tail = List.replicate tail.length '/' :=
    List.eq_replicate_iff.mpr ⟨rfl, fun c hc => by simpa using htail c hc⟩
  rw [← hslashes]
  exact heq

lemma trimEndSlashes_isPrefix (s : List Char) : trimEndSlashes s <+: s := List.rdropWhile_prefix _ s

lemma stem_isPrefix (path : List Char) : stem path <+: path := by
  obtain ⟨suffix, -, heq⟩ := stripGitSuffix_eq (trimEndSlashes path)
  have hstem : stem path <+: trimEndSlashes path := ⟨suffix, heq.symm⟩
  exact hstem.trans (trimEndSlashes_isPrefix path)

/-! ## Checkouts -/

/-- The canonical path of a checkout. -/
def canonicalPath (path : List Char) : List Char := toAsciiLowercase (trimEndSlashes (stem path))

lemma isVariant_canonicalPath (path : List Char) : IsVariant (canonicalPath path) path := by
  obtain ⟨j, hj⟩ := exists_trimEndSlashes path
  obtain ⟨suffix, hsuffix, hstem⟩ := stripGitSuffix_eq (trimEndSlashes path)
  obtain ⟨i, hi⟩ := exists_trimEndSlashes (stem path)
  refine ⟨i, j, suffix, hsuffix, ?_⟩
  have hlower : ∀ n, toAsciiLowercase (List.replicate n '/') = List.replicate n '/' := by
    intro n
    rw [toAsciiLowercase, List.map_replicate]
    rfl
  have hgit : toAsciiLowercase suffix = suffix := by
    obtain rfl | rfl := hsuffix
    · rfl
    · decide
  calc toAsciiLowercase path
      = toAsciiLowercase (stem path) ++ suffix ++ List.replicate j '/' := by
        conv_lhs => rw [hj, hstem]
        rw [toAsciiLowercase_append, toAsciiLowercase_append, hgit, hlower]
        rfl
    _ = canonicalPath path ++ List.replicate i '/' ++ suffix ++ List.replicate j '/' := by
        conv_lhs => rw [hi]
        rw [toAsciiLowercase_append, hlower]
        rfl

lemma canonicalPath_head (habsolute : ['/'] <+: path) :
    canonicalPath path = [] ∨ ['/'] <+: canonicalPath path := by
  have hpre : trimEndSlashes (stem path) <+: path :=
    (trimEndSlashes_isPrefix _).trans (stem_isPrefix path)
  rw [canonicalPath]
  cases hcanonical : trimEndSlashes (stem path) with
  | nil => exact .inl rfl
  | cons c rest =>
    obtain ⟨front, rfl⟩ := habsolute
    rw [hcanonical] at hpre
    obtain ⟨rfl, -⟩ := List.cons_prefix_cons.mp hpre
    exact .inr ⟨toAsciiLowercase rest, rfl⟩

lemma stripUrlSuffix_append {front : List Char} (h : ∀ c ∈ front, c ≠ '?' ∧ c ≠ '#')
    (back : List Char) : stripUrlSuffix (front ++ back) = front ++ stripUrlSuffix back := by
  rw [stripUrlSuffix, List.takeWhile_append_of_pos fun c hc => decide_eq_true (h c hc)]
  rfl

lemma stripUrlSuffix_eq_self (h : ∀ c ∈ s, c ≠ '?' ∧ c ≠ '#') : stripUrlSuffix s = s := by
  have hself := stripUrlSuffix_append h []
  rw [List.append_nil] at hself
  exact hself.trans (List.append_nil s)

/-- The cut goes through to the path, however it is given. -/
lemma cut_spell {rest : List Char} (form : LocalForm) (hpath : '/' :: rest = path) :
    stripUrlSuffix (trim (form.spell path)) = form.spell (cutPath path) := by
  have hslash : isWhiteSpace '/' = false := by decide
  have hkept : ∀ b ∈ ['/'].getLast?, isWhiteSpace b = false := by simpa using hslash
  cases form with
  | plain =>
    rw [LocalForm.spell, LocalForm.spell, trim, ← hpath,
      List.dropWhile_cons_of_neg (by simp [hslash])]
    rfl
  | fileUrl =>
    have hdrop : (fileScheme ++ path).dropWhile isWhiteSpace = fileScheme ++ path :=
      List.dropWhile_cons_of_neg (by decide)
    have htrimmed : path.rdropWhile isWhiteSpace = '/' :: rest.rdropWhile isWhiteSpace := by
      rw [← hpath]
      exact rdropWhile_append hkept
    rw [LocalForm.spell, LocalForm.spell, trim, hdrop,
      rdropWhile_append_of_ne_nil fileScheme (by simp [htrimmed]),
      stripUrlSuffix_append (by simp [fileScheme])]
    rfl

lemma cutPath_eq_self (hblank : ∀ c ∈ path.getLast?, isWhiteSpace c = false)
    (hsuffix : ∀ c ∈ path, c ≠ '?' ∧ c ≠ '#') : cutPath path = path := by
  have htrim : path.rdropWhile isWhiteSpace = path := by
    have happend : (path ++ []).rdropWhile isWhiteSpace = path ++ [].rdropWhile isWhiteSpace :=
      rdropWhile_append hblank
    rwa [List.append_nil, List.rdropWhile_nil, List.append_nil] at happend
  rw [cutPath, htrim, stripUrlSuffix_eq_self hsuffix]

/-- **The key of a checkout** that is kept whole is its canonical path. -/
lemma repoKey_spell (h : KeptWhole form path) : repoKey (form.spell path) = canonicalPath path := by
  obtain ⟨rest, hpath⟩ := h.absolute
  have hcut : stripUrlSuffix (trim (form.spell path)) = form.spell path := by
    rw [cut_spell form hpath, cutPath_eq_self h.noBlank h.noSuffix]
  cases form with
  | plain =>
    have hrepo : stripGitSuffix (trimEndSlashes path) = stem path := rfl
    have hpre := stem_isPrefix path
    rw [repoKey, hcut, LocalForm.spell, hrepo]
    have hnofile : stripPrefix fileScheme (stem path) = none := by
      rw [stripPrefix_eq_none]
      intro hfile
      have hboth := hfile.trans hpre
      rw [← hpath] at hboth
      exact absurd (List.cons_prefix_cons.mp hboth).1 (by decide)
    have hnohost : (splitOnce ['@'] (stem path)).bind (fun split => splitOnce [':'] split.2) = none := by
      rw [Option.bind_eq_none_iff]
      rintro ⟨front, back⟩ hsplit
      rw [splitOnce_eq_none (by simp), List.singleton_infix_iff]
      have heq := splitOnce_eq_some hsplit
      rw [List.append_assoc] at heq
      exact h.noHost rfl front back heq
    rw [hnofile]
    dsimp only
    rw [(splitOnce_eq_none (by decide)).mpr (h.noScheme rfl)]
    dsimp only
    rw [hnohost]
    dsimp only
    cases hstem : stem path with
    | nil => rw [canonicalPath, hstem]; rfl
    | cons c rest' =>
      rw [hstem, ← hpath] at hpre
      obtain ⟨rfl, -⟩ := List.cons_prefix_cons.mp hpre
      rw [if_pos (.inl ⟨rest', rfl⟩), canonicalPath, hstem]
  | fileUrl =>
    obtain ⟨n, hn⟩ := exists_trimEndSlashes path
    obtain ⟨c, hc, hne⟩ := h.notRoot rfl
    have hrest : ∃ rest', trimEndSlashes path = '/' :: rest' := by
      have hpre := trimEndSlashes_isPrefix path
      cases htrimmed : trimEndSlashes path with
      | nil =>
        rw [htrimmed, List.nil_append] at hn
        rw [hn] at hc
        exact absurd (List.eq_of_mem_replicate hc) hne
      | cons d rest' =>
        rw [htrimmed, ← hpath] at hpre
        obtain ⟨rfl, -⟩ := List.cons_prefix_cons.mp hpre
        exact ⟨rest', rfl⟩
    obtain ⟨rest', hrest⟩ := hrest
    have htrimmed : trimEndSlashes (fileScheme ++ path) = fileScheme ++ trimEndSlashes path := by
      refine rdropWhile_append_of_ne_nil fileScheme ?_
      change trimEndSlashes path ≠ []
      rw [hrest]
      exact List.cons_ne_nil _ _
    have hstripped : stripGitSuffix (fileScheme ++ '/' :: rest') = fileScheme ++ stem path := by
      have hslash : '/' ∉ gitSuffix := by decide
      have hstem : stem path = '/' :: stripGitSuffix rest' := by
        rw [stem, hrest]
        have happend : stripGitSuffix ([] ++ '/' :: rest') = [] ++ '/' :: stripGitSuffix rest' :=
          stripGitSuffix_append hslash rest'
        exact happend
      rw [stripGitSuffix_append hslash, hstem]
    rw [repoKey, hcut, LocalForm.spell, htrimmed, hrest, hstripped, stripPrefix_append]
    rfl

/-! ## Clone URLs -/

/-- The key begins with a character that is no slash. -/
def Rootless (key : List Char) : Prop := key ≠ [] ∧ ¬['/'] <+: key

lemma rootless_trimSlashes {c : Char} (hc : c ≠ '/') (rest : List Char) :
    Rootless (toAsciiLowercase (trimSlashes (c :: rest))) := by
  have htrim : trimSlashes (c :: rest) = c :: trimEndSlashes rest := by
    have hlast : ∀ b ∈ [c].getLast?, decide (b = '/') = false := by simpa using hc
    rw [trimSlashes, List.dropWhile_cons_of_neg (by simpa using hc)]
    exact rdropWhile_append hlast
  rw [htrim]
  refine ⟨List.cons_ne_nil _ _, ?_⟩
  rintro ⟨back, hback⟩
  exact hc (eq_of_toLower_eq (by decide) (List.cons.inj hback).1.symm)

/-- What is cut off behind a part that stays. -/
lemma cut_append {front : List Char} (hfirst : ∀ c ∈ front.head?, isWhiteSpace c = false)
    (hlast : ∀ c ∈ front.getLast?, isWhiteSpace c = false ∧ c ≠ '/')
    (hchars : ∀ c ∈ front, c ≠ '?' ∧ c ≠ '#') (hne : front ≠ []) (tail : List Char) :
    trimEndSlashes (stripUrlSuffix (trim (front ++ tail))) =
      front ++ trimEndSlashes (stripUrlSuffix (tail.rdropWhile isWhiteSpace)) := by
  have hdrop : (front ++ tail).dropWhile isWhiteSpace = front ++ tail := by
    cases front with
    | nil => exact absurd rfl hne
    | cons c rest => exact List.dropWhile_cons_of_neg (by simp [hfirst c rfl])
  have hslash : ∀ c ∈ front.getLast?, decide (c = '/') = false :=
    fun c hc => decide_eq_false (hlast c hc).2
  rw [trim, hdrop, rdropWhile_append fun c hc => (hlast c hc).1, stripUrlSuffix_append hchars]
  exact rdropWhile_append hslash

/-- What is cut off a tail leaves nothing, or a path. -/
lemma cut_tail {tail : List Char}
    (htail : tail = [] ∨ ['/'] <+: tail ∨ ['?'] <+: tail ∨ ['#'] <+: tail) :
    trimEndSlashes (stripUrlSuffix (tail.rdropWhile isWhiteSpace)) = [] ∨
      ∃ rest, trimEndSlashes (stripUrlSuffix (tail.rdropWhile isWhiteSpace)) = '/' :: rest := by
  have hpre : trimEndSlashes (stripUrlSuffix (tail.rdropWhile isWhiteSpace)) <+:
      tail.rdropWhile isWhiteSpace := (trimEndSlashes_isPrefix _).trans ( List.takeWhile_prefix _)
  have hwhole : tail.rdropWhile isWhiteSpace <+: tail := List.rdropWhile_prefix _ tail
  cases hcut : trimEndSlashes (stripUrlSuffix (tail.rdropWhile isWhiteSpace)) with
  | nil => exact .inl rfl
  | cons c rest =>
    rw [hcut] at hpre
    have hfirst : ∀ d, [d] <+: tail → c = d := by
      rintro d ⟨back, rfl⟩
      exact (List.cons_prefix_cons.mp (hpre.trans hwhole)).1
    have hkept : c ≠ '?' ∧ c ≠ '#' := by
      have hmem : c ∈ stripUrlSuffix (tail.rdropWhile isWhiteSpace) := by
        refine (trimEndSlashes_isPrefix _).subset ?_
        rw [hcut]
        exact List.mem_cons_self
      simpa using List.mem_takeWhile_imp hmem
    obtain rfl | hslash | hquery | hfragment := htail
    · have hnil := hpre.trans hwhole
      simp at hnil
    · exact .inr ⟨rest, by rw [hfirst '/' hslash]⟩
    · exact absurd (hfirst '?' hquery) hkept.1
    · exact absurd (hfirst '#' hfragment) hkept.2

lemma getLast?_append_cons_cons (front : List Char) (c d : Char) (rest : List Char) :
    (front ++ c :: d :: rest).getLast? = (d :: rest).getLast? := by
  rw [List.getLast?_append, List.getLast?_cons_cons, List.getLast?_eq_some_getLast (by simp),
    Option.some_or]

/-- What an authority looks like. -/
structure IsAuthority (authority : List Char) : Prop where
  chars : ∀ c ∈ authority, c ∉ ['/', '?', '#']
  last : ∀ c ∈ authority.getLast?, isWhiteSpace c = false
  host : authority.rtakeWhile (· ≠ '@') ≠ []
  notGit : authority ≠ gitSuffix

lemma Authority.isAuthority {authority : List Char} (h : Authority authority) :
    IsAuthority authority := by
  have hat : ∀ {l : List Char}, (∀ c ∈ l, c ≠ '@') → l.rtakeWhile (· ≠ '@') = l := by
    intro l hl
    rw [List.rtakeWhile_eq_self_iff]
    exact fun c hc => decide_eq_true (hl c hc)
  induction h with
  | host host hhost =>
    obtain ⟨hne, hdot, hchars⟩ := hhost
    refine ⟨fun c hc => ?_, fun c hc => (hchars c (List.mem_of_getLast? hc)).2, ?_, ?_⟩
    · have hnot := (hchars c hc).1
      simp only [List.mem_cons, List.not_mem_nil, or_false, not_or] at hnot ⊢
      exact ⟨hnot.1, hnot.2.1, hnot.2.2.1⟩
    · rw [hat fun c hc heq => (hchars c hc).1 (by simp [heq])]
      exact hne
    · rintro rfl
      exact hdot ⟨_, rfl⟩
  | port host port hhost hport hdigits =>
    obtain ⟨hne, hdot, hchars⟩ := hhost
    have hdigit : ∀ c ∈ port, c ≠ '/' ∧ c ≠ '?' ∧ c ≠ '#' ∧ c ≠ '@' := by
      intro c hc
      have hd := hdigits c hc
      refine ⟨?_, ?_, ?_, ?_⟩ <;> rintro rfl <;> revert hd <;> decide
    refine ⟨fun c hc => ?_, fun c hc => ?_, ?_, ?_⟩
    · obtain hmem | hmem := List.mem_append.mp hc
      · have hnot := (hchars c hmem).1
        simp only [List.mem_cons, List.not_mem_nil, or_false, not_or] at hnot ⊢
        exact ⟨hnot.1, hnot.2.1, hnot.2.2.1⟩
      · obtain rfl | hmem := List.mem_cons.mp hmem
        · decide
        · simp [hdigit c hmem]
    · obtain ⟨d, rest, rfl⟩ := List.exists_cons_of_ne_nil hport
      have hlast := getLast?_append_cons_cons host ':' d rest
      exact isWhiteSpace_of_isDigit (hdigits c (List.mem_of_getLast? (hlast ▸ hc)))
    · rw [hat fun c hc => ?_]
      · simp
      · obtain hmem | hmem := List.mem_append.mp hc
        · exact fun heq => (hchars c hmem).1 (by simp [heq])
        · obtain rfl | hmem := List.mem_cons.mp hmem
          · decide
          · exact (hdigit c hmem).2.2.2
    · intro heq
      have hmem : ':' ∈ gitSuffix := heq ▸ List.mem_append_right _ List.mem_cons_self
      exact absurd hmem (by decide)
  | credentials user authority hauthority huser ih =>
    refine ⟨fun c hc => ?_, fun c hc => ?_, ?_, ?_⟩
    · obtain hmem | hmem := List.mem_append.mp hc
      · exact huser c hmem
      · obtain rfl | hmem := List.mem_cons.mp hmem
        · decide
        · exact ih.chars c hmem
    · have hne : authority ≠ [] := by
        rintro rfl
        exact ih.host rfl
      obtain ⟨d, rest, rfl⟩ := List.exists_cons_of_ne_nil hne
      have hlast := getLast?_append_cons_cons user '@' d rest
      exact ih.last c (hlast ▸ hc)
    · rw [rtakeWhile_append user (by decide) authority]
      exact ih.host
    · intro heq
      have hmem : '@' ∈ gitSuffix := heq ▸ List.mem_append_right _ List.mem_cons_self
      exact absurd hmem (by decide)

lemma IsAuthority.ne_nil {authority : List Char} (h : IsAuthority authority) : authority ≠ [] := by
  rintro rfl
  exact h.host rfl

/-- A remote path, with or without a path behind the authority. -/
lemma rootless_normalizeRemotePath {authority tail : List Char} (h : IsAuthority authority)
    (htail : tail = [] ∨ ∃ rest, tail = '/' :: rest) :
    Rootless (normalizeRemotePath (stripGitSuffix (authority ++ tail))) := by
  have hslash : '/' ∉ authority := fun hmem => h.chars '/' hmem (by simp)
  obtain rfl | ⟨rest, rfl⟩ := htail
  · rw [List.append_nil]
    obtain ⟨suffix, hsuffix, heq⟩ := stripGitSuffix_eq authority
    cases hrest : stripGitSuffix authority with
    | nil =>
      rw [hrest, List.nil_append] at heq
      obtain rfl | rfl := hsuffix
      · exact absurd heq h.ne_nil
      · exact absurd heq h.notGit
    | cons c rest =>
      rw [hrest] at heq
      have hnone : splitOnce ['/'] (c :: rest) = none := by
        rw [splitOnce_eq_none (by simp), List.singleton_infix_iff]
        intro hmem
        exact hslash (heq ▸ List.mem_append_left _ hmem)
      rw [normalizeRemotePath, hnone]
      refine rootless_trimSlashes ?_ rest
      rintro rfl
      exact hslash (heq ▸ List.mem_append_left _ List.mem_cons_self)
  · rw [stripGitSuffix_append (by decide), normalizeRemotePath, splitOnce_singleton hslash]
    dsimp only
    obtain ⟨c, back, hhost⟩ := List.exists_cons_of_ne_nil h.host
    rw [hhost, List.cons_append]
    refine rootless_trimSlashes ?_ _
    rintro rfl
    have hmem : '/' ∈ authority.rtakeWhile (· ≠ '@') := hhost ▸ List.mem_cons_self
    exact hslash ((List.rtakeWhile_suffix _ authority).subset hmem)

/-- A scheme of a clone URL has no character that cuts the URL elsewhere. -/
lemma scheme_chars {scheme : List Char} (hscheme : toAsciiLowercase scheme ∈
      ["http".toList, "https".toList, "ssh".toList, "git".toList]) :
    scheme ≠ [] ∧ scheme ≠ ['f', 'i', 'l', 'e'] ∧
      ∀ c ∈ scheme, c ∉ [':', '/', '?', '#'] ∧ isWhiteSpace c = false := by
  have hlower : ∀ s ∈ ["http".toList, "https".toList, "ssh".toList, "git".toList],
      s ≠ [] ∧ s ≠ ['f', 'i', 'l', 'e'] ∧ ∀ c ∈ s, 97 ≤ c.toNat ∧ c.toNat ≤ 122 := by simp
  obtain ⟨hne, hfile, hletters⟩ := hlower _ hscheme
  refine ⟨?_, ?_, fun c hc => ?_⟩
  · rintro rfl
    exact hne rfl
  · rintro rfl
    exact hfile (by decide)
  · obtain ⟨hlow, hhigh⟩ := hletters c.toLower (List.mem_map_of_mem hc)
    by_cases hupper : 65 ≤ c.toNat ∧ c.toNat ≤ 90
    · refine ⟨?_, ?_⟩
      · intro hmem
        simp only [List.mem_cons, List.not_mem_nil, or_false] at hmem
        obtain rfl | rfl | rfl | rfl := hmem <;> revert hupper <;> decide
      · simp [isWhiteSpace]
        omega
    · have heq : c.toLower = c := toLower_eq_self (by omega)
      rw [heq] at hlow hhigh
      refine ⟨?_, ?_⟩
      · intro hmem
        simp only [List.mem_cons, List.not_mem_nil, or_false] at hmem
        obtain rfl | rfl | rfl | rfl := hmem <;> revert hlow <;> decide
      · simp [isWhiteSpace]
        omega

/-- The scheme is what stands before the first `://`. -/
lemma stripPrefix_fileScheme {scheme : List Char} (hcolon : ':' ∉ scheme)
    (hfile : scheme ≠ ['f', 'i', 'l', 'e']) (rest : List Char) :
    stripPrefix fileScheme (scheme ++ schemeEnd ++ rest) = none := by
  rw [stripPrefix_eq_none]
  rintro ⟨back, hback⟩
  have hsplit : splitOnce schemeEnd (['f', 'i', 'l', 'e'] ++ schemeEnd ++ back) =
      some (['f', 'i', 'l', 'e'], back) :=
    splitOnce_append (a := ':') (by decide)
  have hfront : ['f', 'i', 'l', 'e'] ++ schemeEnd ++ back = fileScheme ++ back := rfl
  rw [hfront, hback, schemeEnd, splitOnce_append hcolon] at hsplit
  exact hfile (Prod.mk.inj (Option.some.inj hsplit)).1

lemma repoKey_url {scheme authority tail : List Char}
    (hscheme : toAsciiLowercase scheme ∈
      ["http".toList, "https".toList, "ssh".toList, "git".toList])
    (hauthority : IsAuthority authority)
    (htail : tail = [] ∨ ['/'] <+: tail ∨ ['?'] <+: tail ∨ ['#'] <+: tail) :
    Rootless (repoKey (scheme ++ schemeEnd ++ (authority ++ tail))) := by
  obtain ⟨hne, hfile, hchars⟩ := scheme_chars hscheme
  obtain ⟨c, rest, rfl⟩ := List.exists_cons_of_ne_nil hne
  obtain ⟨d, host, rfl⟩ := List.exists_cons_of_ne_nil hauthority.ne_nil
  have hcolon : ':' ∉ c :: rest := fun hmem => (hchars ':' hmem).1 (by simp)
  set front := (c :: rest) ++ schemeEnd ++ d :: host with hfront
  set tail' := trimEndSlashes (stripUrlSuffix (tail.rdropWhile isWhiteSpace)) with htail'
  have hlast : front.getLast? = (d :: host).getLast? := by
    rw [hfront, List.getLast?_append, List.getLast?_eq_some_getLast (by simp), Option.some_or]
  have hcut : trimEndSlashes (stripUrlSuffix (trim (front ++ tail))) = front ++ tail' := by
    refine cut_append (fun e he => ?_) (fun e he => ?_) (fun e he => ?_) (by simp [hfront]) tail
    · obtain rfl : c = e := by simpa [hfront] using he
      exact (hchars c List.mem_cons_self).2
    · rw [hlast] at he
      refine ⟨hauthority.last e he, ?_⟩
      rintro rfl
      exact hauthority.chars '/' (List.mem_of_getLast? he) (by simp)
    · have hnot : e ∉ ['?', '#'] := by
        rw [hfront, List.mem_append, List.mem_append] at he
        obtain (hmem | hmem) | hmem := he
        · have hnot := (hchars e hmem).1
          simp only [List.mem_cons, List.not_mem_nil, or_false, not_or] at hnot ⊢
          exact hnot.2.2
        · have hkept : ∀ e ∈ schemeEnd, e ∉ ['?', '#'] := by simp [schemeEnd]
          exact hkept e hmem
        · have hnot := hauthority.chars e hmem
          simp only [List.mem_cons, List.not_mem_nil, or_false, not_or] at hnot ⊢
          exact hnot.2
      simpa using hnot
  have hgit : stripGitSuffix (front ++ tail') =
      (c :: rest) ++ schemeEnd ++ stripGitSuffix ((d :: host) ++ tail') := by
    have hassoc : front ++ tail' = ((c :: rest) ++ [':', '/']) ++ '/' :: ((d :: host) ++ tail') := by
      simp [hfront, schemeEnd]
    rw [hassoc, stripGitSuffix_append (by decide)]
    simp [schemeEnd]
  have hnofile := stripPrefix_fileScheme hcolon hfile (stripGitSuffix ((d :: host) ++ tail'))
  rw [← List.append_assoc, ← hfront, repoKey, hcut, hgit, hnofile]
  dsimp only
  rw [schemeEnd, splitOnce_append hcolon]
  dsimp only
  exact rootless_normalizeRemotePath hauthority (cut_tail htail)

lemma stripGitSuffix_isPrefix (s : List Char) : stripGitSuffix s <+: s := by
  obtain ⟨suffix, -, heq⟩ := stripGitSuffix_eq s
  exact ⟨suffix, heq.symm⟩

lemma repoKey_scp {user host path : List Char} (hhost : HostName host)
    (huser : user ≠ [] ∧ ∀ c ∈ user, c ∉ ['/', '?', '#', '@', ':'] ∧ isWhiteSpace c = false)
    (hscheme : ¬schemeEnd <:+: user ++ '@' :: (host ++ ':' :: path)) :
    Rootless (repoKey (user ++ '@' :: (host ++ ':' :: path))) := by
  obtain ⟨hne, huser⟩ := huser
  obtain ⟨hnehost, -, hhost⟩ := hhost
  obtain ⟨c, rest, rfl⟩ := List.exists_cons_of_ne_nil hne
  obtain ⟨d, back, rfl⟩ := List.exists_cons_of_ne_nil hnehost
  have hkept : ∀ e, e ∉ ['/', '?', '#', '@', ':'] →
      e ≠ '/' ∧ e ≠ '?' ∧ e ≠ '#' ∧ e ≠ '@' ∧ e ≠ ':' := by simp
  set front := (c :: rest) ++ '@' :: ((d :: back) ++ [':']) with hfront
  set path' := trimEndSlashes (stripUrlSuffix (path.rdropWhile isWhiteSpace)) with hpath'
  have hwhole : (c :: rest) ++ '@' :: ((d :: back) ++ ':' :: path) = front ++ path := by
    simp [hfront]
  have hcut : trimEndSlashes (stripUrlSuffix (trim (front ++ path))) = front ++ path' := by
    refine cut_append (fun e he => ?_) (fun e he => ?_) (fun e he => ?_) (by simp [hfront]) path
    · obtain rfl : c = e := by simpa [hfront] using he
      exact (huser c List.mem_cons_self).2
    · have hcolon : front.getLast? = some ':' := by
        have hassoc : front = ((c :: rest) ++ '@' :: d :: back) ++ [':'] := by simp [hfront]
        rw [hassoc, List.getLast?_concat]
      obtain rfl : ':' = e := by simpa [hcolon] using he
      decide
    · have hparts : e ∈ c :: rest ∨ e = '@' ∨ e ∈ d :: back ∨ e = ':' := by
        simpa [hfront, or_assoc] using he
      obtain hmem | rfl | hmem | rfl := hparts
      · exact ⟨(hkept e (huser e hmem).1).2.1, (hkept e (huser e hmem).1).2.2.1⟩
      · decide
      · exact ⟨(hkept e (hhost e hmem).1).2.1, (hkept e (hhost e hmem).1).2.2.1⟩
      · decide
  have hgit : stripGitSuffix (front ++ path') =
      (c :: rest) ++ '@' :: ((d :: back) ++ ':' :: stripGitSuffix path') := by
    have hassoc : front ++ path' = ((c :: rest) ++ '@' :: d :: back) ++ ':' :: path' := by
      simp [hfront]
    rw [hassoc, stripGitSuffix_append (by decide)]
    simp
  -- what is left is a prefix, so there is no scheme in it either
  have hpre : stripGitSuffix (front ++ path') <+: front ++ path := by
    have htail : path' <+: path :=
      (trimEndSlashes_isPrefix _).trans
        (( List.takeWhile_prefix _).trans ( List.rdropWhile_prefix _ path))
    exact (stripGitSuffix_isPrefix _).trans (List.prefix_append_right_inj front |>.mpr htail)
  have hnoscheme : ¬schemeEnd <:+: stripGitSuffix (front ++ path') :=
    fun hin => hscheme (hwhole ▸ hin.trans hpre.isInfix)
  have hnofile : stripPrefix fileScheme (stripGitSuffix (front ++ path')) = none := by
    rw [stripPrefix_eq_none]
    intro hfile
    have hin : schemeEnd <:+: fileScheme := by decide
    exact hnoscheme (hin.trans hfile.isInfix)
  have huserat : '@' ∉ c :: rest := fun hmem => (huser '@' hmem).1 (by simp)
  have hhostcolon : ':' ∉ d :: back := fun hmem => (hhost ':' hmem).1 (by simp)
  rw [hwhole, repoKey, hcut, hnofile]
  dsimp only
  rw [(splitOnce_eq_none (by decide)).mpr hnoscheme, hgit, splitOnce_singleton huserat]
  dsimp only [Option.bind_some]
  rw [splitOnce_singleton hhostcolon]
  dsimp only
  exact rootless_trimSlashes (hkept d (hhost d List.mem_cons_self).1).1 _

/-- **The key of a clone URL** begins with its host. -/
lemma repoKey_cloneUrl {u : List Char} (h : CloneUrl u) : Rootless (repoKey u) := by
  cases h with
  | url scheme authority tail hscheme hauthority htail =>
    exact repoKey_url hscheme hauthority.isAuthority htail
  | scp user host path hhost huser hscheme => exact repoKey_scp hhost huser hscheme

/-! ## Separation -/

lemma normalizedRepoKey_ofList (s : List Char) :
    normalizedRepoKey (.ofList s) = .ofList (repoKey s) := by
  rw [normalizedRepoKey, String.toList_ofList]

/-- Nothing may be left out behind a character that ends neither a slash nor `.git`. -/
lemma IsVariant.canonical_eq {canonical : List Char} {c : Char} (h : IsVariant canonical path)
    (hlast : (toAsciiLowercase path).getLast? = some c) (hslash : c ≠ '/') (hgit : c ≠ 't') :
    canonical = toAsciiLowercase path := by
  have hnone : ∀ {front : List Char} {n : ℕ},
      (front ++ List.replicate n '/').getLast? = some c → n = 0 := by
    intro front n hc
    cases n with
    | zero => rfl
    | succ n =>
      rw [List.replicate_succ', ← List.append_assoc, List.getLast?_concat] at hc
      exact absurd (Option.some.inj hc).symm hslash
  obtain ⟨i, j, suffix, hsuffix, heq⟩ := h
  rw [heq] at hlast ⊢
  obtain rfl := hnone hlast
  rw [List.replicate_zero, List.append_nil] at hlast ⊢
  obtain rfl | rfl := hsuffix
  · rw [List.append_nil] at hlast ⊢
    obtain rfl := hnone hlast
    rw [List.replicate_zero, List.append_nil]
  · have ht : ∀ front : List Char, (front ++ gitSuffix).getLast? = some 't' := by
      intro front
      rw [List.getLast?_append]
      rfl
    rw [ht] at hlast
    exact absurd (Option.some.inj hlast).symm hgit

lemma IsVariant.mem_iff {canonical : List Char} {c : Char} (h : IsVariant canonical path)
    (hc : c ∉ '/' :: gitSuffix) : c ∈ toAsciiLowercase path ↔ c ∈ canonical := by
  obtain ⟨i, j, suffix, hsuffix, heq⟩ := h
  have hslash : ∀ n, c ∉ List.replicate n '/' :=
    fun n hmem => hc (List.eq_of_mem_replicate hmem ▸ List.mem_cons_self)
  have hgit : c ∉ suffix := by
    obtain rfl | rfl := hsuffix
    · exact List.not_mem_nil
    · exact fun hmem => hc (List.mem_cons_of_mem _ hmem)
  simp [heq, hslash, hgit]

lemma IsVariant.length_le {canonical : List Char} (h : IsVariant canonical path) :
    canonical.length ≤ path.length := by
  obtain ⟨i, j, suffix, -, heq⟩ := h
  have hlength := congrArg List.length heq
  simp only [toAsciiLowercase, List.length_map, List.length_append] at hlength
  omega

/-- **A path that is cut** has the key of the path that is left, though it is not the same. -/
lemma cutPath_collides (h : KeptWhole form (cutPath path)) (hne : cutPath path ≠ path) :
    repoKey (form.spell path) = repoKey (form.spell (cutPath path)) ∧
      ¬SameCheckout path (cutPath path) := by
  have hpre : cutPath path <+: path :=
    ( List.takeWhile_prefix _).trans ( List.rdropWhile_prefix _ path)
  obtain ⟨rest, hcut⟩ := h.absolute
  obtain ⟨back, hback⟩ := hpre
  have hpath : '/' :: (rest ++ back) = path := by
    rw [← hback, ← hcut]
    rfl
  refine ⟨?_, ?_⟩
  · rw [repoKey, repoKey, cut_spell form hpath, cut_spell form hcut,
      cutPath_eq_self h.noBlank h.noSuffix]
  · rintro ⟨canonical, hvariant, hvariant'⟩
    by_cases hchars : ∀ c ∈ path, c ≠ '?' ∧ c ≠ '#'
    · -- a blank at the end was cut, which may not be left out
      have hblank : path.rdropWhile isWhiteSpace ≠ path := by
        intro heq
        refine hne ?_
        rw [cutPath, heq, stripUrlSuffix_eq_self hchars]
      have hnonempty : path ≠ [] := by simp [← hpath]
      have hlast : isWhiteSpace (path.getLast hnonempty) = true := by
        by_contra hkept
        exact hblank (List.rdropWhile_eq_self_iff.mpr fun _ => hkept)
      have hstays : ∀ c, isWhiteSpace c = true → c ≠ '/' ∧ c ≠ 't' ∧ c.toLower = c := by
        intro c hc
        refine ⟨?_, ?_, toLower_eq_self ?_⟩
        · rintro rfl
          exact absurd hc (by decide)
        · rintro rfl
          exact absurd hc (by decide)
        · simp [isWhiteSpace] at hc
          omega
      obtain ⟨hslash, hgit, hlower⟩ := hstays _ hlast
      have hgetLast : (toAsciiLowercase path).getLast? = some (path.getLast hnonempty) := by
        rw [toAsciiLowercase, List.getLast?_map, List.getLast?_eq_some_getLast hnonempty,
          Option.map_some, hlower]
      have hlength := hvariant'.length_le
      rw [hvariant.canonical_eq hgetLast hslash hgit, toAsciiLowercase, List.length_map] at hlength
      have hpre : cutPath path <+: path := ⟨back, hback⟩
      exact hne (hpre.eq_of_length_le hlength)
    · push Not at hchars
      obtain ⟨c, hc, hsuffix⟩ := hchars
      have hcases : c = '?' ∨ c = '#' := by
        by_cases hquery : c = '?'
        · exact .inl hquery
        · exact .inr (hsuffix hquery)
      have hforbidden : c.toNat < 65 ∧ c ∉ '/' :: gitSuffix := by
        obtain rfl | rfl := hcases <;> decide
      have hcanonical := (hvariant.mem_iff hforbidden.2).mp
        ((mem_toAsciiLowercase hforbidden.1).mpr hc)
      have hleft := (mem_toAsciiLowercase hforbidden.1).mp
        ((hvariant'.mem_iff hforbidden.2).mpr hcanonical)
      have hkept := h.noSuffix c hleft
      exact hcases.elim hkept.1 hkept.2

lemma hash_eq_of_repoUid_eq {truncatedHash : String → String} {instanceId url url' : String}
    (h : repoUid truncatedHash instanceId url = repoUid truncatedHash instanceId url') :
    truncatedHash (normalizedRepoKey url) = truncatedHash (normalizedRepoKey url') :=
  String.append_right_inj _ |>.mp h

/-- **Checkouts that are kept whole are separate**: two of them have one key only if they are the same
up to case, trailing slashes, a `.git` suffix and the `file://` prefix, and no clone URL has the key of
one.  The same goes for their UIDs, as far as the hash does not collide on the keys at hand.  A longer path
that is cut to one of them is not the same checkout, but has its key. -/
theorem normalizedRepoKey_separates (truncatedHash : String → String) (instanceId : String)
    (h : KeptWhole form path) (h' : KeptWhole form' path') :
    (normalizedRepoKey (.ofList (form.spell path)) =
        normalizedRepoKey (.ofList (form'.spell path')) → SameCheckout path path') ∧
      (∀ u, CloneUrl u →
        normalizedRepoKey (.ofList (form.spell path)) ≠ normalizedRepoKey (.ofList u)) ∧
      (NoCollision truncatedHash (normalizedRepoKey (.ofList (form.spell path)))
          (normalizedRepoKey (.ofList (form'.spell path'))) →
        repoUid truncatedHash instanceId (.ofList (form.spell path)) =
          repoUid truncatedHash instanceId (.ofList (form'.spell path')) →
        SameCheckout path path') ∧
      (∀ u, CloneUrl u →
        NoCollision truncatedHash (normalizedRepoKey (.ofList (form.spell path)))
          (normalizedRepoKey (.ofList u)) →
        repoUid truncatedHash instanceId (.ofList (form.spell path)) ≠
          repoUid truncatedHash instanceId (.ofList u)) ∧
      ∀ longer, cutPath longer = path → longer ≠ path →
        normalizedRepoKey (.ofList (form.spell longer)) =
            normalizedRepoKey (.ofList (form.spell path)) ∧
          ¬SameCheckout longer path := by
  have hkeys : normalizedRepoKey (.ofList (form.spell path)) =
      normalizedRepoKey (.ofList (form'.spell path')) → SameCheckout path path' := by
    intro heq
    rw [normalizedRepoKey_ofList, normalizedRepoKey_ofList, repoKey_spell h, repoKey_spell h',
      String.ofList_inj] at heq
    exact ⟨canonicalPath path, isVariant_canonicalPath path, heq ▸ isVariant_canonicalPath path'⟩
  have hremote : ∀ u, CloneUrl u →
      normalizedRepoKey (.ofList (form.spell path)) ≠ normalizedRepoKey (.ofList u) := by
    intro u hu heq
    rw [normalizedRepoKey_ofList, normalizedRepoKey_ofList, repoKey_spell h,
      String.ofList_inj] at heq
    obtain ⟨hne, hroot⟩ := repoKey_cloneUrl hu
    rw [← heq] at hne hroot
    exact (canonicalPath_head h.absolute).elim hne hroot
  refine ⟨hkeys, hremote, fun hhash heq => ?_, fun u hu hhash heq => ?_, ?_⟩
  · exact hkeys (hhash (hash_eq_of_repoUid_eq heq))
  · exact hremote u hu (hhash (hash_eq_of_repoUid_eq heq))
  · rintro longer rfl hne
    obtain ⟨heq, hnot⟩ := cutPath_collides h hne.symm
    refine ⟨?_, hnot⟩
    rw [normalizedRepoKey_ofList, normalizedRepoKey_ofList, heq]

lemma cloneUrl_acme : CloneUrl "https://github.com/acme/api".toList :=
  .url "https".toList "github.com".toList "/acme/api".toList (by decide +kernel)
    (.host _ ⟨by decide +kernel, by decide +kernel, by simp [isWhiteSpace]⟩)
    (.inr (.inl (by decide +kernel)))

/-- A repository, given as a plain path and as a URL, and another. -/
theorem normalizedRepoKey_separates_srv :
    (normalizedRepoKey "/srv/api" ≠ normalizedRepoKey "https://github.com/acme/api") ∧
      SameCheckout "/srv/api".toList "/srv/API.git/".toList := by
  have hplain : KeptWhole .plain "/srv/api".toList := by
    refine ⟨by decide +kernel, by simp, by simp [isWhiteSpace], fun _ => by decide +kernel,
      fun _ front back heq => ?_, by simp⟩
    have hmem : '@' ∈ stem "/srv/api".toList := heq ▸ List.mem_append_right _ List.mem_cons_self
    exact absurd hmem (by decide +kernel)
  have hfile : KeptWhole .fileUrl "/srv/API.git/".toList :=
    ⟨by decide +kernel, by simp, by simp [isWhiteSpace], by simp, by simp, fun _ => ⟨'s', by simp⟩⟩
  have hseparate := normalizedRepoKey_separates id "local" hplain hfile
  exact ⟨hseparate.2.1 _ cloneUrl_acme, hseparate.1 (by decide +kernel)⟩

/-- What follows a `#` is cut off a path, and a path with a host in it is taken for a URL. -/
theorem normalizedRepoKey_collides :
    normalizedRepoKey "/srv/a#1" = normalizedRepoKey "/srv/a#2" ∧
      ¬SameCheckout "/srv/a#1".toList "/srv/a#2".toList ∧
      CloneUrl "https://github.com/acme/api".toList ∧
      normalizedRepoKey "/srv/git@github.com:acme/api" =
        normalizedRepoKey "https://github.com/acme/api" ∧
      ∀ truncatedHash instanceId,
        repoUid truncatedHash instanceId "/srv/a#1" = repoUid truncatedHash instanceId "/srv/a#2" := by
  have hcut : normalizedRepoKey "/srv/a#1" = normalizedRepoKey "/srv/a#2" := by decide +kernel
  refine ⟨hcut, ?_, cloneUrl_acme, by decide +kernel, fun truncatedHash instanceId => ?_⟩
  · rintro ⟨canonical, h1, h2⟩
    have heq1 := h1.canonical_eq (c := '1') (by decide +kernel) (by decide +kernel) (by decide +kernel)
    have heq2 := h2.canonical_eq (c := '2') (by decide +kernel) (by decide +kernel) (by decide +kernel)
    exact absurd (heq1.symm.trans heq2) (by decide +kernel)
  · rw [repoUid, repoUid, hcut]

end RepoUrl
end NestWeaver

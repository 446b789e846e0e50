import NestWeaver.Schema.RepoUrlKeys

/-!
# The spellings of a remote

A remote is cloned by URLs of several schemes and by the form of `scp`, with and without credentials, a
`.git` suffix, slashes, a query or a fragment, and in any case.  Which of them have one key
(`normalizedRepoKey_spellings_iff`) is decided by the suffix, which is stripped before the case is
folded, and by what in the path looks like another form.

Nothing that is cut off comes back, so a key is its own key exactly if nothing is cut off it
(`repoKey_eq_self_iff`).
-/

set_option linter.all false

namespace NestWeaver
namespace RepoUrl

open Strings

/-! ## Spellings -/

inductive Form
  | url (scheme : List Char) (credentials : Option (List Char))
  /-- `user@host:path`. -/
  | scp (user : List Char)
  deriving DecidableEq, Repr

structure Spelling where
  form : Form
  host : List Char
  port : Option (List Char)
  path : List Char
  /-- `.git`, or nothing. -/
  git : List Char
  slashes : ℕ
  /-- A query, a fragment, or nothing. -/
  tail : List Char
  deriving DecidableEq, Repr

namespace Spelling

/-- The host with its port. -/
def authority (sp : Spelling) : List Char := sp.host ++ (sp.port.map (':' :: ·)).getD []

/-- What is before the host. -/
def front (sp : Spelling) : List Char :=
  match sp.form with
  | .url scheme credentials => scheme ++ schemeEnd ++ (credentials.map (· ++ ['@'])).getD []
  | .scp user => user ++ ['@']

/-- What separates the host from the path. -/
def separator (sp : Spelling) : Char :=
  match sp.form with
  | .url _ _ => '/'
  | .scp _ => ':'

def text (sp : Spelling) : List Char :=
  sp.front ++ sp.authority ++ sp.separator :: (sp.path ++ sp.git) ++
    (List.replicate sp.slashes '/' ++ sp.tail)

/-- The key of the remote. -/
def canonical (sp : Spelling) : List Char := toAsciiLowercase (sp.authority ++ '/' :: sp.path)

end Spelling

/-- The form of a clone URL. -/
inductive Form.Valid : Form → Option (List Char) → Prop
  | url (scheme : List Char) (credentials port : Option (List Char))
      (hscheme : toAsciiLowercase scheme ∈
        ["http".toList, "https".toList, "ssh".toList, "git".toList])
      (hcredentials : ∀ user ∈ credentials, ∀ c ∈ user, c ∉ ['/', '?', '#']) :
      Form.Valid (.url scheme credentials) port
  | scp (user : List Char)
      (huser : user ≠ [] ∧ ∀ c ∈ user, c ∉ ['/', '?', '#', '@', ':'] ∧ isWhiteSpace c = false) :
      Form.Valid (.scp user) none

/-- A spelling of an owner and a name at a host. -/
structure Spelling.Valid (sp : Spelling) : Prop where
  form : sp.form.Valid sp.port
  host : HostName sp.host
  port : ∀ port ∈ sp.port, port ≠ [] ∧ ∀ c ∈ port, c.isDigit
  path_ne_nil : sp.path ≠ []
  path_chars : ∀ c ∈ sp.path, c ≠ '?' ∧ c ≠ '#'
  path_first : ¬['/'] <+: sp.path
  path_last : ¬['/'] <:+ sp.path
  git : sp.git = [] ∨ toAsciiLowercase sp.git = gitSuffix
  tail : sp.tail = [] ∨ ['?'] <+: sp.tail ∨ ['#'] <+: sp.tail

/-- The suffix is in lower case or there is none, the path has no suffix of its own then and no blank at
the end of the text, and in the form of `scp` nothing in it looks like a URL. -/
structure Spelling.Recognised (sp : Spelling) : Prop where
  git : sp.git = gitSuffix ∨ sp.git = [] ∧ ¬gitSuffix <:+ sp.path
  blank : sp.git = [] → sp.slashes = 0 → sp.tail = [] →
    ∀ c ∈ sp.path.getLast?, isWhiteSpace c = false
  scheme : sp.separator = ':' → ¬schemeEnd <:+: sp.path

/-! ## Lengths -/

lemma length_toAsciiLowercase (s : List Char) : (toAsciiLowercase s).length = s.length :=
  List.length_map _

lemma length_trimSlashes_le (s : List Char) : (trimSlashes s).length ≤ s.length :=
  (trimEndSlashes_isPrefix _).length_le.trans (List.dropWhile_suffix _).length_le

lemma length_normalizeRemotePath_le (remote : List Char) :
    (normalizeRemotePath remote).length ≤ remote.length := by
  rw [normalizeRemotePath, length_toAsciiLowercase]
  refine (length_trimSlashes_le _).trans ?_
  split
  · rename_i host path hsplit
    have hhost := (List.rtakeWhile_suffix (· ≠ '@') host).length_le
    rw [splitOnce_eq_some hsplit]
    simp only [List.length_append, List.length_cons, List.length_nil] at hhost ⊢
    omega
  · exact le_rfl

/-- What is left when the parts that may be left out are cut off. -/
def cut (repoUrl : List Char) : List Char :=
  stripGitSuffix (trimEndSlashes (stripUrlSuffix (trim repoUrl)))

/-- The key of what is left. -/
def cutKey (repo : List Char) : List Char :=
  match stripPrefix fileScheme repo with
  | some path => toAsciiLowercase (trimEndSlashes path)
  | none =>
    match splitOnce schemeEnd repo with
    | some (_, rest) => normalizeRemotePath rest
    | none =>
      match (splitOnce ['@'] repo).bind fun split => splitOnce [':'] split.2 with
      | some (host, path) => toAsciiLowercase (trimSlashes (host ++ '/' :: path))
      | none =>
        if ['/'] <+: repo ∨ ['.', '/'] <+: repo ∨ ['.', '.', '/'] <+: repo then
          toAsciiLowercase (trimEndSlashes repo)
        else toAsciiLowercase (trimSlashes repo)

lemma repoKey_eq (repoUrl : List Char) : repoKey repoUrl = cutKey (cut repoUrl) := rfl

/-- Something in the text looks like a URL or like the form of `scp`. -/
def LooksRemote (repo : List Char) : Prop :=
  schemeEnd <:+: repo ∨ ∃ user host path, repo = user ++ '@' :: (host ++ ':' :: path)

lemma splitOnce_of_mem {c : Char} {s : List Char} (hc : c ∈ s) :
    ∃ front back, splitOnce [c] s = some (front, back) ∧ s = front ++ c :: back ∧ c ∉ front := by
  obtain ⟨front, back, rfl, hfront⟩ := List.eq_append_cons_of_mem hc
  exact ⟨front, back, splitOnce_singleton hfront, rfl, hfront⟩

/-- The first `@` and what is behind it. -/
lemma mem_of_first {c d : Char} {front back user rest : List Char}
    (heq : front ++ c :: back = user ++ c :: rest) (hfront : c ∉ front) (hd : d ∈ rest) : d ∈ back := by
  obtain ⟨middle, rfl, hmiddle⟩ | ⟨middle, rfl, hmiddle⟩ := List.append_eq_append_iff.mp heq
  · cases middle with
    | nil => exact (List.cons.inj hmiddle).2 ▸ hd
    | cons b middle =>
      rw [List.cons_append] at hmiddle
      rw [(List.cons.inj hmiddle).2]
      exact List.mem_append_right _ (List.mem_cons_of_mem _ hd)
  · cases middle with
    | nil => exact (List.cons.inj hmiddle).2 ▸ hd
    | cons b middle =>
      rw [List.cons_append] at hmiddle
      rw [(List.cons.inj hmiddle).1] at hfront
      exact absurd (List.mem_append_right _ List.mem_cons_self) hfront

lemma scpSplit_eq_none {repo : List Char} (h : ¬LooksRemote repo) :
    ((splitOnce ['@'] repo).bind fun split => splitOnce [':'] split.2) = none := by
  rw [Option.bind_eq_none_iff]
  rintro ⟨user, rest⟩ huser
  refine (splitOnce_eq_none (by simp)).mpr fun hcolon => h (.inr ?_)
  rw [List.singleton_infix_iff] at hcolon
  obtain ⟨host, path, rfl⟩ := List.append_of_mem hcolon
  exact ⟨user, host, path, by rw [splitOnce_eq_some huser]; simp⟩

/-- Text in which something looks like another form loses a part of it. -/
lemma length_cutKey_lt {repo : List Char} (h : LooksRemote repo) :
    (cutKey repo).length < repo.length := by
  unfold cutKey
  split
  · rename_i path hfile
    have hlen := (trimEndSlashes_isPrefix path).length_le
    have hfront : repo = fileScheme ++ path := by
      rw [stripPrefix] at hfile
      split_ifs at hfile with hpre
      obtain ⟨back, rfl⟩ := hpre
      rw [List.drop_left] at hfile
      rw [Option.some.inj hfile]
    rw [hfront, length_toAsciiLowercase, List.length_append]
    simp only [fileScheme, List.length_cons, List.length_nil]
    omega
  · split
    · rename_i rest hsplit
      have hlen := length_normalizeRemotePath_le rest
      rw [splitOnce_eq_some hsplit]
      simp only [List.length_append, schemeEnd, List.length_cons, List.length_nil]
      omega
    · rename_i hscheme
      rw [splitOnce_eq_none (by decide)] at hscheme
      obtain hin | ⟨user, host, path, rfl⟩ := h
      · exact absurd hin hscheme
      obtain ⟨user', rest, hat, heq, huser'⟩ :=
        splitOnce_of_mem (s := user ++ '@' :: (host ++ ':' :: path))
          (List.mem_append_right _ List.mem_cons_self)
      have hcolon : ':' ∈ rest :=
        mem_of_first heq.symm huser' (List.mem_append_right _ List.mem_cons_self)
      obtain ⟨host', path', hsplit, rfl, -⟩ := splitOnce_of_mem hcolon
      have hlen := length_trimSlashes_le (host' ++ '/' :: path')
      rw [hat, Option.bind_some, hsplit]
      dsimp only
      rw [length_toAsciiLowercase, heq]
      simp only [List.length_append, List.length_cons] at hlen ⊢
      omega

lemma cutKey_of_not_looksRemote {repo : List Char} (h : ¬LooksRemote repo) : cutKey repo =
    if ['/'] <+: repo ∨ ['.', '/'] <+: repo ∨ ['.', '.', '/'] <+: repo then
      toAsciiLowercase (trimEndSlashes repo)
    else toAsciiLowercase (trimSlashes repo) := by
  have hscheme : splitOnce schemeEnd repo = none :=
    (splitOnce_eq_none (by decide)).mpr fun hin => h (.inl hin)
  have hfile : stripPrefix fileScheme repo = none := by
    rw [stripPrefix_eq_none]
    intro hpre
    have hin : schemeEnd <:+: fileScheme := by decide
    exact h (.inl (hin.trans hpre.isInfix))
  simp only [cutKey, hfile, hscheme, scpSplit_eq_none h]

lemma length_cutKey_le (repo : List Char) : (cutKey repo).length ≤ repo.length := by
  by_cases h : LooksRemote repo
  · exact (length_cutKey_lt h).le
  · rw [cutKey_of_not_looksRemote h]
    split_ifs
    · rw [length_toAsciiLowercase]
      exact (trimEndSlashes_isPrefix repo).length_le
    · rw [length_toAsciiLowercase]
      exact length_trimSlashes_le repo

/-! ## Keys of keys -/

/-- Nothing would be cut off this key. -/
structure Settled (key : List Char) : Prop where
  first : ∀ c ∈ key.head?, isWhiteSpace c = false
  last : ∀ c ∈ key.getLast?, isWhiteSpace c = false
  git : ¬gitSuffix <:+ key
  remote : ¬LooksRemote key

lemma toAsciiLowercase_idem (s : List Char) :
    toAsciiLowercase (toAsciiLowercase s) = toAsciiLowercase s := by
  rw [toAsciiLowercase, toAsciiLowercase, List.map_map]
  refine List.map_congr_left fun c _ => toLower_eq_self ?_
  rw [toNat_toLower]
  split_ifs
  · omega
  · omega

/-- A key is in lower case and has no slash at its end and no `?` or `#`. -/
lemma exists_cutKey (repo : List Char) : ∃ s, cutKey repo = toAsciiLowercase (trimEndSlashes s) ∧
    ∀ c ∈ trimEndSlashes s, c ∈ repo ∨ c = '/' := by
  have htrim : ∀ s : List Char, ∀ c ∈ trimEndSlashes s, c ∈ s :=
    fun s c hc => (trimEndSlashes_isPrefix s).subset hc
  have hslashes : ∀ s : List Char, ∀ c ∈ trimEndSlashes (s.dropWhile (· = '/')), c ∈ s :=
    fun s c hc => (List.dropWhile_suffix _).subset (htrim _ c hc)
  unfold cutKey
  split
  · rename_i path hfile
    refine ⟨path, rfl, fun c hc => .inl ?_⟩
    rw [stripPrefix] at hfile
    split_ifs at hfile with hpre
    rw [← Option.some.inj hfile] at hc
    exact List.mem_of_mem_drop (htrim _ c hc)
  · split
    · rename_i rest hsplit
      have hmem : ∀ c ∈ rest, c ∈ repo := fun c hc => by
        rw [splitOnce_eq_some hsplit]
        exact List.mem_append_right _ hc
      rw [normalizeRemotePath]
      refine ⟨_, rfl, fun c hc => ?_⟩
      have hauth := hslashes _ c hc
      split at hauth
      · rename_i host path hslash
        rw [splitOnce_eq_some hslash] at hmem
        obtain hhost | hpath := List.mem_append.mp hauth
        · have := (List.rtakeWhile_suffix _ host).subset hhost
          exact .inl (hmem c (by simp [this]))
        · obtain rfl | hpath := List.mem_cons.mp hpath
          · exact .inr rfl
          · exact .inl (hmem c (by simp [hpath]))
      · exact .inl (hmem c hauth)
    · split
      · rename_i host path hsplit
        obtain ⟨⟨user, rest⟩, huser, hrest⟩ := Option.bind_eq_some_iff.mp hsplit
        have hpath : splitOnce [':'] rest = some (host, path) := hrest
        refine ⟨_, rfl, fun c hc => ?_⟩
        have hmem := hslashes _ c hc
        rw [splitOnce_eq_some huser, splitOnce_eq_some hpath]
        simp only [List.mem_append, List.mem_cons] at hmem ⊢
        obtain h | rfl | h := hmem
        · simp [h]
        · simp
        · simp [h]
      · split_ifs
        · exact ⟨repo, rfl, fun c hc => .inl (htrim _ c hc)⟩
        · exact ⟨_, rfl, fun c hc => .inl (hslashes _ c hc)⟩

lemma cut_sublist (s : List Char) : List.Sublist (cut s) s :=
  (stripGitSuffix_isPrefix _).sublist.trans ((trimEndSlashes_isPrefix _).sublist.trans
    ((List.takeWhile_prefix _).sublist.trans ((List.rdropWhile_prefix _ _).sublist.trans
      (List.dropWhile_suffix _).sublist)))

/-- What is kept has no blanks at its ends and no suffix. -/
lemma cut_eq_self {s : List Char} (hcut : cut s = s) :
    (∀ c ∈ s.head?, isWhiteSpace c = false) ∧ (∀ c ∈ s.getLast?, isWhiteSpace c = false) ∧
      ¬gitSuffix <:+ s := by
  have hgit : List.Sublist (cut s) (trimEndSlashes (stripUrlSuffix (trim s))) :=
    (stripGitSuffix_isPrefix _).sublist
  have hurl : List.Sublist (trimEndSlashes (stripUrlSuffix (trim s))) (trim s) :=
    (trimEndSlashes_isPrefix _).sublist.trans (List.takeWhile_prefix _).sublist
  have hend : List.Sublist (trim s) (s.dropWhile isWhiteSpace) := (List.rdropWhile_prefix _ _).sublist
  have hfront : List.Sublist (s.dropWhile isWhiteSpace) s := (List.dropWhile_suffix _).sublist
  -- every part is as long as the whole
  rw [hcut] at hgit
  have hdrop : s.dropWhile isWhiteSpace = s :=
    hfront.eq_of_length_le (hgit.trans (hurl.trans hend)).length_le
  have htrim : trim s = s := by
    have hlen := (hgit.trans hurl).length_le
    rw [hdrop] at hend
    exact hend.eq_of_length_le hlen
  have hslashes : trimEndSlashes (stripUrlSuffix (trim s)) = s := by
    rw [htrim] at hurl hgit ⊢
    exact hurl.eq_of_length_le hgit.length_le
  refine ⟨fun c hc => ?_, fun c hc => ?_, ?_⟩
  · cases s with
    | nil => cases hc
    | cons d rest =>
      obtain rfl : d = c := by simpa using hc
      by_contra hblank
      rw [List.dropWhile_cons_of_pos (by simpa using hblank)] at hdrop
      have hlen := (List.dropWhile_suffix (l := rest) isWhiteSpace).length_le
      rw [hdrop, List.length_cons] at hlen
      omega
  · rw [trim, hdrop, List.rdropWhile_eq_self_iff] at htrim
    obtain ⟨hne, rfl⟩ := List.mem_getLast?_eq_getLast hc
    simpa using htrim hne
  · rintro ⟨rest, rfl⟩
    rw [cut, hslashes, stripGitSuffix, stripSuffix_append, Option.getD_some] at hcut
    have hlen := congrArg List.length hcut
    simp [gitSuffix] at hlen

/-- **The key of a key.**  A key is its own key if and only if nothing would be cut off it. -/
lemma repoKey_eq_self_iff (s : List Char) :
    repoKey (repoKey s) = repoKey s ↔ Settled (repoKey s) := by
  obtain ⟨x, hx, hchars⟩ := exists_cutKey (cut s)
  rw [← repoKey_eq] at hx
  constructor
  · intro hself
    have hle := (cut_sublist (repoKey s)).length_le
    have hlen : (cutKey (cut (repoKey s))).length = (repoKey s).length := by rw [← repoKey_eq, hself]
    have hkey := length_cutKey_le (cut (repoKey s))
    have hcut : cut (repoKey s) = repoKey s := (cut_sublist _).eq_of_length (by omega)
    obtain ⟨hfirst, hlast, hgit⟩ := cut_eq_self hcut
    refine ⟨hfirst, hlast, hgit, fun hremote => ?_⟩
    have hlt := length_cutKey_lt hremote
    rw [hcut] at hlen
    omega
  · intro h
    have hlower : toAsciiLowercase (repoKey s) = repoKey s := by rw [hx, toAsciiLowercase_idem]
    have hkept : ∀ c ∈ repoKey s, c ≠ '?' ∧ c ≠ '#' := by
      have hcut : ∀ c ∈ cut s, c ≠ '?' ∧ c ≠ '#' := fun c hc => by
        have hmem := (trimEndSlashes_isPrefix _).subset ((stripGitSuffix_isPrefix _).subset hc)
        simpa using List.mem_takeWhile_imp hmem
      have hmark : ∀ d, d.toNat < 65 → d ≠ '/' → (∀ c ∈ cut s, c ≠ d) → ∀ c ∈ repoKey s, c ≠ d := by
        rintro d hlow hslash hnot c hc rfl
        rw [hx, mem_toAsciiLowercase hlow] at hc
        exact (hchars c hc).elim (fun hmem => hnot c hmem rfl) hslash
      exact fun c hc => ⟨hmark '?' (by decide) (by decide) (fun c hc => (hcut c hc).1) c hc,
        hmark '#' (by decide) (by decide) (fun c hc => (hcut c hc).2) c hc⟩
    have hend : trimEndSlashes (repoKey s) = repoKey s := by
      rw [trimEndSlashes, List.rdropWhile_eq_self_iff]
      intro hne
      have hlast : ∀ y ≠ [], trimEndSlashes y = y → ∀ c ∈ (toAsciiLowercase y).getLast?, c ≠ '/' := by
        rintro y hy htrim c hc rfl
        rw [toAsciiLowercase, List.getLast?_map] at hc
        obtain ⟨d, hd, hslash⟩ := Option.map_eq_some_iff.mp hc
        obtain ⟨hne, rfl⟩ := List.mem_getLast?_eq_getLast hd
        rw [trimEndSlashes, List.rdropWhile_eq_self_iff] at htrim
        exact htrim hne (decide_eq_true (eq_of_toLower_eq (by decide) hslash))
      have htrimmed : trimEndSlashes x ≠ [] := by
        intro hnil
        rw [hx, hnil] at hne
        exact hne rfl
      have hidem : trimEndSlashes (trimEndSlashes x) = trimEndSlashes x := by
        rw [trimEndSlashes, trimEndSlashes, List.rdropWhile_idempotent]
      have hmem : (repoKey s).getLast hne ∈ (toAsciiLowercase (trimEndSlashes x)).getLast? := by
        rw [← hx]
        exact List.getLast_mem_getLast? hne
      simpa using hlast _ htrimmed hidem _ hmem
    have hcut : cut (repoKey s) = repoKey s := by
      have hdrop : (repoKey s).dropWhile isWhiteSpace = repoKey s := by
        cases hkey : repoKey s with
        | nil => rfl
        | cons c rest => exact List.dropWhile_cons_of_neg (by simp [h.first c (by simp [hkey])])
      have htrim : trim (repoKey s) = repoKey s := by
        rw [trim, hdrop, List.rdropWhile_eq_self_iff]
        intro hne
        simp [h.last _ (List.getLast_mem_getLast? hne)]
      rw [cut, htrim, stripUrlSuffix_eq_self hkept, hend, stripGitSuffix,
        stripSuffix_of_not_suffix h.git, Option.getD_none]
    rw [repoKey_eq (repoKey s), hcut, cutKey_of_not_looksRemote h.remote]
    split_ifs with hlocal
    · rw [hend, hlower]
    · have hfirst : (repoKey s).dropWhile (· = '/') = repoKey s := by
        cases hkey : repoKey s with
        | nil => rfl
        | cons c rest =>
          refine List.dropWhile_cons_of_neg fun hslash => hlocal (.inl ?_)
          rw [hkey, of_decide_eq_true hslash]
          exact ⟨rest, rfl⟩
      rw [trimSlashes, hfirst, hend, hlower]

/-! ## The key of a spelling -/

namespace Spelling

variable {sp : Spelling}

/-- The path with its suffix, behind its separator. -/
def rest (sp : Spelling) : List Char := sp.separator :: (sp.path ++ sp.git)

lemma Valid.isAuthority (h : sp.Valid) : IsAuthority sp.authority := by
  refine Authority.isAuthority ?_
  cases hport : sp.port with
  | none =>
    have hhost : sp.authority = sp.host := by simp [authority, hport]
    rw [hhost]
    exact .host _ h.host
  | some port =>
    have hboth : sp.authority = sp.host ++ ':' :: port := by simp [authority, hport]
    obtain ⟨hne, hdigits⟩ := h.port port hport
    rw [hboth]
    exact .port _ _ h.host hne hdigits

/-- What is before the path is not touched by a cut. -/
lemma Valid.front (h : sp.Valid) :
    (∀ c ∈ (sp.front ++ sp.authority).head?, isWhiteSpace c = false) ∧
      ∀ c ∈ sp.front, c ≠ '?' ∧ c ≠ '#' := by
  have hkept : ∀ c, c ∉ ['/', '?', '#'] → c ≠ '?' ∧ c ≠ '#' := by simp
  obtain ⟨form, host, port, path, git, slashes, tail⟩ := sp
  obtain ⟨hform, -⟩ := h
  cases hform with
  | url scheme credentials port hscheme hcredentials =>
    obtain ⟨hne, -, hchars⟩ := scheme_chars hscheme
    obtain ⟨d, letters, rfl⟩ := List.exists_cons_of_ne_nil hne
    refine ⟨fun c hc => ?_, fun c hc => ?_⟩
    · obtain rfl : d = c := by simpa [Spelling.front] using hc
      exact (hchars d List.mem_cons_self).2
    · obtain hmem | hmem := List.mem_append.mp hc
      · obtain hmem | hmem := List.mem_append.mp hmem
        · have hnot := (hchars c hmem).1
          simp only [List.mem_cons, List.not_mem_nil, or_false, not_or] at hnot
          exact hnot.2.2
        · have hend : ∀ c ∈ schemeEnd, c ≠ '?' ∧ c ≠ '#' := by simp [schemeEnd]
          exact hend c hmem
      · cases credentials with
        | none => cases hmem
        | some user =>
          obtain hmem | hmem := List.mem_append.mp hmem
          · exact hkept c (hcredentials user rfl c hmem)
          · obtain rfl := List.mem_singleton.mp hmem
            decide
  | scp user huser =>
    obtain ⟨hne, hchars⟩ := huser
    obtain ⟨d, letters, rfl⟩ := List.exists_cons_of_ne_nil hne
    refine ⟨fun c hc => ?_, fun c hc => ?_⟩
    · obtain rfl : d = c := by simpa [Spelling.front] using hc
      exact (hchars d List.mem_cons_self).2
    · obtain hmem | hmem := List.mem_append.mp hc
      · have hnot := (hchars c hmem).1
        simp only [List.mem_cons, List.not_mem_nil, or_false, not_or] at hnot
        exact ⟨hnot.2.1, hnot.2.2.1⟩
      · obtain rfl := List.mem_singleton.mp hmem
        decide

lemma getLast_of_lower_git {git : List Char} (h : toAsciiLowercase git = gitSuffix) {c : Char}
    (hc : c ∈ git.getLast?) : c ≠ '/' ∧ isWhiteSpace c = false := by
  have hlast : (toAsciiLowercase git).getLast? = some c.toLower := by
    rw [toAsciiLowercase, List.getLast?_map, hc]
    rfl
  rw [h] at hlast
  have ht : c.toLower = 't' := (Option.some.inj hlast).symm
  have hnat := toNat_toLower c
  rw [ht] at hnat
  have htnat : 't'.toNat = 116 := rfl
  constructor
  · rintro rfl
    revert ht
    decide
  · simp only [isWhiteSpace, List.contains_eq_mem, List.mem_cons, List.not_mem_nil, or_false]
    split_ifs at hnat
    all_goals simp; omega

lemma getLast_rest {c : Char} (h : sp.Valid) (hc : c ∈ sp.rest.getLast?) :
    c ≠ '/' ∧ (sp.git ≠ [] ∨ (∀ d ∈ sp.path.getLast?, isWhiteSpace d = false) →
      isWhiteSpace c = false) := by
  have hne : sp.path ++ sp.git ≠ [] := by simp [h.path_ne_nil]
  rw [rest, List.getLast?_cons_of_ne_nil hne] at hc
  obtain hgit | hgit := h.git
  · rw [hgit, List.append_nil] at hc
    refine ⟨?_, fun hkept => ?_⟩
    · rintro rfl
      obtain ⟨hne', heq⟩ := List.mem_getLast?_eq_getLast hc
      refine h.path_last ⟨sp.path.dropLast, ?_⟩
      rw [heq]
      exact List.dropLast_append_getLast hne'
    · exact hkept.elim (fun hne => absurd hgit hne) fun hblank => hblank c hc
  · have hnegit : sp.git ≠ [] := by
      intro hnil
      rw [hnil] at hgit
      cases hgit
    rw [List.getLast?_append_of_ne_nil _ hnegit] at hc
    have hlast := getLast_of_lower_git hgit hc
    exact ⟨hlast.1, fun _ => hlast.2⟩

/-- There is a blank at the very end. -/
def Blank (sp : Spelling) : Prop :=
  sp.git = [] ∧ sp.slashes = 0 ∧ sp.tail = [] ∧ ∃ c ∈ sp.path.getLast?, isWhiteSpace c = true

lemma Valid.rest_chars (h : sp.Valid) : ∀ c ∈ sp.rest, c ≠ '?' ∧ c ≠ '#' := by
  intro c hc
  obtain rfl | hc := List.mem_cons.mp hc
  · unfold separator
    split
    · decide
    · decide
  · obtain hmem | hmem := List.mem_append.mp hc
    · exact h.path_chars c hmem
    · obtain hgit | hgit := h.git
      · rw [hgit] at hmem
        cases hmem
      · have hmark : ∀ d ∈ gitSuffix, d ≠ '?' ∧ d ≠ '#' := by simp [gitSuffix]
        have hlower : c.toLower ∈ gitSuffix := hgit ▸ List.mem_map_of_mem hmem
        refine ⟨?_, ?_⟩
        · rintro rfl
          exact absurd hlower (by decide)
        · rintro rfl
          exact absurd hlower (by decide)

lemma trimEndSlashes_rest (h : sp.Valid) (slashes : ℕ) :
    trimEndSlashes (sp.rest ++ List.replicate slashes '/') = sp.rest := by
  have hlast : ∀ c ∈ sp.rest.getLast?, decide (c = '/') = false :=
    fun c hc => decide_eq_false (getLast_rest h hc).1
  rw [trimEndSlashes, rdropWhile_append hlast]
  have hslashes : (List.replicate slashes '/').rdropWhile (fun c => decide (c = '/')) = [] := by
    rw [List.rdropWhile_eq_nil_iff]
    intro c hc
    exact decide_eq_true (List.eq_of_mem_replicate hc)
  rw [hslashes, List.append_nil]

/-- What is cut off behind the path. -/
lemma cut_rest (h : sp.Valid) : ∃ kept, kept <+: sp.rest ∧ (kept ≠ sp.rest → sp.Blank) ∧
    (sp.Blank → kept ≠ sp.rest) ∧
    trimEndSlashes (stripUrlSuffix
      ((sp.rest ++ (List.replicate sp.slashes '/' ++ sp.tail)).rdropWhile isWhiteSpace)) = kept := by
  have hslashes : ∀ n, ∀ c ∈ List.replicate n '/', c ≠ '?' ∧ c ≠ '#' := by
    intro n c hc
    rw [List.eq_of_mem_replicate hc]
    decide
  have hchars : ∀ c ∈ sp.rest ++ List.replicate sp.slashes '/', c ≠ '?' ∧ c ≠ '#' := fun c hc =>
    (List.mem_append.mp hc).elim (h.rest_chars c) (hslashes _ c)
  cases htail : sp.tail with
  | cons d tail =>
    -- a query or a fragment
    have hnot : ¬sp.Blank := fun hblank => by
      rw [hblank.2.2.1] at htail
      cases htail
    have hd : isWhiteSpace d = false ∧ stripUrlSuffix (d :: tail.rdropWhile isWhiteSpace) = [] := by
      have hmark := h.tail
      rw [htail] at hmark
      obtain hnil | hquery | hfragment := hmark
      · cases hnil
      · obtain rfl := (List.cons_prefix_cons.mp hquery).1
        exact ⟨by decide, rfl⟩
      · obtain rfl := (List.cons_prefix_cons.mp hfragment).1
        exact ⟨by decide, rfl⟩
    refine ⟨sp.rest, List.prefix_rfl, fun hne => absurd rfl hne, fun hblank => absurd hblank hnot, ?_⟩
    have hassoc : sp.rest ++ (List.replicate sp.slashes '/' ++ d :: tail) =
        (sp.rest ++ List.replicate sp.slashes '/' ++ [d]) ++ tail := by simp
    rw [hassoc, rdropWhile_append (by simpa using hd.1), List.append_assoc,
      stripUrlSuffix_append hchars, List.singleton_append, hd.2, List.append_nil, trimEndSlashes_rest h]
  | nil =>
    rw [List.append_nil]
    cases hn : sp.slashes with
    | succ n =>
      have hnot : ¬sp.Blank := fun hblank => by
        rw [hblank.2.1] at hn
        cases hn
      refine ⟨sp.rest, List.prefix_rfl, fun hne => absurd rfl hne, fun hblank => absurd hblank hnot, ?_⟩
      have hself : (sp.rest ++ List.replicate (n + 1) '/').rdropWhile isWhiteSpace =
          sp.rest ++ List.replicate (n + 1) '/' := by
        rw [List.replicate_succ', ← List.append_assoc]
        exact List.rdropWhile_concat_neg _ _ _ (by decide)
      rw [hself, stripUrlSuffix_eq_self (hn ▸ hchars), trimEndSlashes_rest h]
    | zero =>
      rw [List.replicate_zero, List.append_nil]
      have hpre : sp.rest.rdropWhile isWhiteSpace <+: sp.rest := List.rdropWhile_prefix _ _
      have hkept : stripUrlSuffix (sp.rest.rdropWhile isWhiteSpace) = sp.rest.rdropWhile isWhiteSpace :=
        stripUrlSuffix_eq_self fun c hc => h.rest_chars c (hpre.subset hc)
      rw [hkept]
      refine ⟨_, (trimEndSlashes_isPrefix _).trans hpre, fun hne => ?_, fun hblank heq => ?_, rfl⟩
      · by_contra hnot
        refine hne ?_
        have hself : sp.rest.rdropWhile isWhiteSpace = sp.rest := by
          rw [List.rdropWhile_eq_self_iff]
          intro hrest
          have hlast := (getLast_rest h (List.getLast_mem_getLast? hrest)).2 ?_
          · simp [hlast]
          · by_cases hgit : sp.git = []
            · refine .inr fun d hd => ?_
              by_contra hblank
              exact hnot ⟨hgit, hn, htail, d, hd, by simpa using hblank⟩
            · exact .inl hgit
        rw [hself]
        simpa using trimEndSlashes_rest h 0
      · obtain ⟨hgit, -, -, c, hc, hblank⟩ := hblank
        have hself : sp.rest.rdropWhile isWhiteSpace = sp.rest :=
          hpre.eq_of_length_le (by rw [← congrArg List.length heq]; exact (trimEndSlashes_isPrefix _).length_le)
        rw [List.rdropWhile_eq_self_iff] at hself
        have hrest : sp.rest ≠ [] := List.cons_ne_nil _ _
        have hlast : c ∈ sp.rest.getLast? := by
          rw [rest, hgit, List.append_nil, List.getLast?_cons_of_ne_nil h.path_ne_nil]
          exact hc
        obtain ⟨hne, rfl⟩ := List.mem_getLast?_eq_getLast hlast
        exact hself hne hblank

lemma cut_text (h : sp.Valid) : ∃ kept, kept <+: sp.rest ∧ (kept ≠ sp.rest ↔ sp.Blank) ∧
    cut sp.text = stripGitSuffix (sp.front ++ sp.authority ++ kept) := by
  obtain ⟨kept, hpre, hblank, hblank', hkept⟩ := cut_rest h
  refine ⟨kept, hpre, ⟨hblank, hblank'⟩, ?_⟩
  have hne : sp.authority ≠ [] := h.isAuthority.ne_nil
  have hlast : (sp.front ++ sp.authority).getLast? = sp.authority.getLast? :=
    List.getLast?_append_of_ne_nil _ hne
  have hcut := cut_append h.front.1 (fun c hc => ?_) (fun c hc => ?_)
    (fun hnil => hne (List.append_eq_nil_iff.mp hnil).2)
    (sp.rest ++ (List.replicate sp.slashes '/' ++ sp.tail))
  · rw [hkept] at hcut
    have htext : sp.text = sp.front ++ sp.authority ++
        (sp.rest ++ (List.replicate sp.slashes '/' ++ sp.tail)) := by
      simp [text, rest]
    rw [cut, htext, hcut]
  · rw [hlast] at hc
    refine ⟨h.isAuthority.last c hc, ?_⟩
    rintro rfl
    exact h.isAuthority.chars '/' (List.mem_of_getLast? hc) (by simp)
  · obtain hmem | hmem := List.mem_append.mp hc
    · exact h.front.2 c hmem
    · have hnot := h.isAuthority.chars c hmem
      simp only [List.mem_cons, List.not_mem_nil, or_false, not_or] at hnot
      exact hnot.2

/-- The key of the remote with this path. -/
def remoteKey (sp : Spelling) (path : List Char) : List Char :=
  toAsciiLowercase (trimSlashes (sp.authority ++ '/' :: path))

lemma Valid.authority_chars (h : sp.Valid) : ∀ c ∈ sp.authority, c ≠ '@' ∧ c ≠ '/' := by
  intro c hc
  obtain hmem | hmem := List.mem_append.mp hc
  · have hnot := (h.host.2.2 c hmem).1
    simp only [List.mem_cons, List.not_mem_nil, or_false, not_or] at hnot
    exact ⟨hnot.2.2.2.1, hnot.1⟩
  · cases hport : sp.port with
    | none =>
      rw [hport] at hmem
      cases hmem
    | some port =>
      rw [hport] at hmem
      obtain rfl | hmem := List.mem_cons.mp hmem
      · decide
      · have hd := (h.port port hport).2 c hmem
        refine ⟨?_, ?_⟩ <;> rintro rfl <;> revert hd <;> decide

/-- The parts of a URL. -/
lemma Valid.url (h : sp.Valid) (hsep : sp.separator = '/') : ∃ scheme user,
    sp.front = scheme ++ schemeEnd ++ user ∧ ':' ∉ scheme ∧ scheme ≠ ['f', 'i', 'l', 'e'] ∧
      '/' ∉ user ++ sp.authority ∧ (user ++ sp.authority).rtakeWhile (· ≠ '@') = sp.authority := by
  have hauthority := h.authority_chars
  unfold separator at hsep
  split at hsep
  · rename_i scheme credentials hform
    obtain ⟨hvalid, -⟩ := h
    rw [hform] at hvalid
    obtain ⟨hscheme, hcredentials⟩ : toAsciiLowercase scheme ∈
        ["http".toList, "https".toList, "ssh".toList, "git".toList] ∧
          ∀ user ∈ credentials, ∀ c ∈ user, c ∉ ['/', '?', '#'] := by
      cases hvalid with
      | url _ _ _ hscheme hcredentials => exact ⟨hscheme, hcredentials⟩
    obtain ⟨-, hfile, hchars⟩ := scheme_chars hscheme
    have hcolon : ':' ∉ scheme := fun hmem => (hchars ':' hmem).1 (by simp)
    refine ⟨scheme, (credentials.map (· ++ ['@'])).getD [], by simp [Spelling.front, hform], hcolon,
      hfile, fun hmem => ?_, ?_⟩
    · obtain hmem | hmem := List.mem_append.mp hmem
      · cases credentials with
        | none => cases hmem
        | some name =>
          obtain hmem | hmem := List.mem_append.mp hmem
          · exact hcredentials name rfl '/' hmem (by simp)
          · exact absurd hmem (by decide)
      · exact (hauthority '/' hmem).2 rfl
    · have hself : sp.authority.rtakeWhile (· ≠ '@') = sp.authority := by
        rw [List.rtakeWhile_eq_self_iff]
        exact fun c hc => decide_eq_true (hauthority c hc).1
      cases credentials with
      | none => exact hself
      | some name =>
        have hassoc : (Option.map (· ++ ['@']) (some name)).getD [] ++ sp.authority =
            name ++ '@' :: sp.authority := by simp
        rw [hassoc, rtakeWhile_append name (by decide), hself]
  · cases hsep

/-- The key of what is left of a URL. -/
lemma cutKey_url (h : sp.Valid) (hsep : sp.separator = '/') (path : List Char) :
    cutKey (sp.front ++ sp.authority ++ sp.separator :: path) = sp.remoteKey path := by
  obtain ⟨scheme, user, hfront, hcolon, hfile, hslash, hhost⟩ := h.url hsep
  have hrepo : sp.front ++ sp.authority ++ sp.separator :: path =
      scheme ++ schemeEnd ++ ((user ++ sp.authority) ++ '/' :: path) := by simp [hfront, hsep]
  rw [hrepo, cutKey, stripPrefix_fileScheme hcolon hfile]
  dsimp only
  rw [schemeEnd, splitOnce_append hcolon]
  dsimp only
  rw [normalizeRemotePath, splitOnce_singleton hslash]
  dsimp only
  rw [hhost, remoteKey]

/-- The parts of the form of `scp`. -/
lemma Valid.scp (h : sp.Valid) (hsep : sp.separator = ':') : ∃ user, sp.front = user ++ ['@'] ∧
    (∀ c ∈ user, c ≠ '/' ∧ c ≠ '@') ∧ ∀ c ∈ sp.authority, c ≠ ':' ∧ c ≠ '/' := by
  have hauthority := h.authority_chars
  unfold separator at hsep
  split at hsep
  · cases hsep
  · rename_i user hform
    obtain ⟨hvalid, hhost, -⟩ := h
    rw [hform] at hvalid
    obtain ⟨huser, hport⟩ : (∀ c ∈ user, c ∉ ['/', '?', '#', '@', ':']) ∧ sp.port = none := by
      generalize sp.port = port at hvalid
      cases hvalid with
      | scp _ huser => exact ⟨fun c hc => (huser.2 c hc).1, rfl⟩
    refine ⟨user, by simp [Spelling.front, hform], fun c hc => ?_, fun c hc => ⟨?_, (hauthority c hc).2⟩⟩
    · have hnot : c ∉ ['/', '?', '#', '@', ':'] := huser c hc
      simp only [List.mem_cons, List.not_mem_nil, or_false, not_or] at hnot
      exact ⟨hnot.1, hnot.2.2.2.1⟩
    · have hmem : c ∈ sp.host := by simpa [authority, hport] using hc
      have hnot : c ∉ ['/', '?', '#', '@', ':'] := (hhost.2.2 c hmem).1
      simp only [List.mem_cons, List.not_mem_nil, or_false, not_or] at hnot
      exact hnot.2.2.2.2

/-- Where a URL may be found in the form of `scp`. -/
lemma scheme_in_scp {user host path front back : List Char} (huser : '/' ∉ user) (hhost : '/' ∉ host)
    (hfirst : ¬['/'] <+: path) (heq : user ++ '@' :: (host ++ ':' :: path) = front ++ schemeEnd ++ back) :
    ∃ middle, path = middle ++ schemeEnd ++ back := by
  have hno : '/' ∉ user ++ '@' :: (host ++ [':']) := by simp [huser, hhost]
  have hsplit : (user ++ '@' :: (host ++ [':'])) ++ path = front ++ (schemeEnd ++ back) := by
    rw [← List.append_assoc, ← heq]
    simp
  obtain ⟨middle, hfront, hmiddle⟩ | ⟨middle, hfront, hmiddle⟩ := List.append_eq_append_iff.mp hsplit
  · exact ⟨middle, by rw [hmiddle, List.append_assoc]⟩
  · -- the `://` begins before the path
    have hslash : '/' ∉ middle := fun hmem => hno (hfront ▸ List.mem_append_right _ hmem)
    match middle, hmiddle with
    | [], hmiddle => exact ⟨[], hmiddle.symm⟩
    | [c], hmiddle =>
      refine absurd ⟨'/' :: back, ?_⟩ hfirst
      exact (List.cons.inj hmiddle).2
    | c :: d :: middle, hmiddle =>
      have hd : '/' = d := (List.cons.inj (List.cons.inj hmiddle).2).1
      rw [← hd] at hslash
      simp at hslash

/-- The key of what is left of the form of `scp`. -/
lemma cutKey_scp (h : sp.Valid) (hsep : sp.separator = ':') {path : List Char}
    (hfirst : ¬['/'] <+: path) :
    (¬schemeEnd <:+: path →
      cutKey (sp.front ++ sp.authority ++ sp.separator :: path) = sp.remoteKey path) ∧
    (schemeEnd <:+: path →
      (cutKey (sp.front ++ sp.authority ++ sp.separator :: path)).length + 3 ≤ path.length) := by
  obtain ⟨user, hfront, huser, hauthority⟩ := h.scp hsep
  have hrepo : sp.front ++ sp.authority ++ sp.separator :: path =
      user ++ '@' :: (sp.authority ++ ':' :: path) := by simp [hfront, hsep]
  have hslash : '/' ∉ user := fun hmem => (huser '/' hmem).1 rfl
  have hslash' : '/' ∉ sp.authority := fun hmem => (hauthority '/' hmem).2 rfl
  rw [hrepo]
  constructor
  · intro hscheme
    have hnone : splitOnce schemeEnd (user ++ '@' :: (sp.authority ++ ':' :: path)) = none := by
      rw [splitOnce_eq_none (by decide)]
      rintro ⟨front, back, heq⟩
      obtain ⟨middle, rfl⟩ := scheme_in_scp hslash hslash' hfirst heq.symm
      exact hscheme ⟨middle, back, rfl⟩
    have hfile : stripPrefix fileScheme (user ++ '@' :: (sp.authority ++ ':' :: path)) = none := by
      rw [stripPrefix_eq_none]
      intro hpre
      have hin : schemeEnd <:+: fileScheme := by decide
      exact (splitOnce_eq_none (by decide)).mp hnone (hin.trans hpre.isInfix)
    rw [cutKey, hfile, hnone]
    dsimp only
    rw [splitOnce_singleton fun hmem => (huser '@' hmem).2 rfl]
    dsimp only [Option.bind_some]
    rw [splitOnce_singleton fun hmem => (hauthority ':' hmem).1 rfl]
    rfl
  · rintro ⟨first, last, hpath⟩
    -- the text is cut at the first `://`, which is within the path
    cases hsplit : splitOnce schemeEnd (user ++ '@' :: (sp.authority ++ ':' :: path)) with
    | none =>
      rw [splitOnce_eq_none (by decide)] at hsplit
      refine absurd ⟨user ++ '@' :: (sp.authority ++ ':' :: first), last, ?_⟩ hsplit
      rw [← hpath]
      simp
    | some split =>
      obtain ⟨front, back⟩ := split
      obtain ⟨middle, hmiddle⟩ := scheme_in_scp hslash hslash' hfirst (splitOnce_eq_some hsplit)
      have hfile : stripPrefix fileScheme (user ++ '@' :: (sp.authority ++ ':' :: path)) = none := by
        rw [stripPrefix_eq_none]
        rintro ⟨rest, hrest⟩
        have hassoc : user ++ '@' :: (sp.authority ++ ':' :: path) =
            ['f', 'i', 'l', 'e'] ++ schemeEnd ++ rest := hrest.symm
        obtain ⟨middle', rfl⟩ := scheme_in_scp hslash hslash' hfirst hassoc
        have hcancel : user ++ '@' :: (sp.authority ++ ':' :: middle') = ['f', 'i', 'l', 'e'] := by
          apply List.append_cancel_right
          calc _ = user ++ '@' :: (sp.authority ++ ':' :: (middle' ++ schemeEnd ++ rest)) := by
                rw [List.append_assoc middle']
                simp
            _ = ['f', 'i', 'l', 'e'] ++ (schemeEnd ++ rest) := by
                rw [hassoc, List.append_assoc]
        have hat : '@' ∈ ['f', 'i', 'l', 'e'] := hcancel ▸ List.mem_append_right _ List.mem_cons_self
        exact absurd hat (by decide)
      have hlen := length_normalizeRemotePath_le back
      rw [cutKey, hfile, hsplit]
      dsimp only
      rw [hmiddle]
      simp only [List.length_append, schemeEnd, List.length_cons, List.length_nil]
      omega

lemma length_canonical (sp : Spelling) :
    sp.canonical.length = sp.authority.length + 1 + sp.path.length := by
  simp [canonical, length_toAsciiLowercase]
  omega

lemma remoteKey_eq (h : sp.Valid) {path : List Char} (hlast : ¬['/'] <:+ path) (hne : path ≠ []) :
    sp.remoteKey path = toAsciiLowercase (sp.authority ++ '/' :: path) := by
  obtain ⟨c, rest, hauthority⟩ := List.exists_cons_of_ne_nil h.isAuthority.ne_nil
  have hc : c ≠ '/' := (h.authority_chars c (by simp [hauthority])).2
  have hdrop : (sp.authority ++ '/' :: path).dropWhile (· = '/') = sp.authority ++ '/' :: path := by
    rw [hauthority]
    exact List.dropWhile_cons_of_neg (by simpa using hc)
  have hend : trimEndSlashes (sp.authority ++ '/' :: path) = sp.authority ++ '/' :: path := by
    rw [trimEndSlashes, List.rdropWhile_eq_self_iff]
    intro hwhole hslash
    have hgetLast := List.dropLast_append_getLast hne
    have heq : (sp.authority ++ '/' :: path).getLast hwhole = path.getLast hne := by
      rw [List.getLast_append_of_ne_nil _ (List.cons_ne_nil _ _), List.getLast_cons hne]
    rw [heq] at hslash
    exact hlast ⟨path.dropLast, by rw [← of_decide_eq_true hslash]; exact hgetLast⟩
  rw [remoteKey, trimSlashes, hdrop, hend]

lemma length_remoteKey_le (sp : Spelling) (path : List Char) :
    (sp.remoteKey path).length ≤ sp.authority.length + 1 + path.length := by
  rw [remoteKey, length_toAsciiLowercase]
  refine (length_trimSlashes_le _).trans ?_
  simp
  omega

lemma separator_eq_slash (hsep : sp.separator ≠ ':') : sp.separator = '/' := by
  unfold separator at hsep ⊢
  split at hsep
  · rfl
  · exact absurd rfl hsep

/-- The key of what is left, if it is at most the path with its suffix. -/
lemma cutKey_eq_iff (h : sp.Valid) {path : List Char} (hpre : path <+: sp.path ++ sp.git) :
    cutKey (sp.front ++ sp.authority ++ sp.separator :: path) = sp.canonical ↔
      path = sp.path ∧ (sp.separator = ':' → ¬schemeEnd <:+: sp.path) := by
  have hcanonical := length_canonical sp
  have hfirst : ¬['/'] <+: path := by
    obtain ⟨c, rest, hpath⟩ := List.exists_cons_of_ne_nil h.path_ne_nil
    intro hslash
    have hwhole := hslash.trans hpre
    rw [hpath, List.cons_append] at hwhole
    refine h.path_first ⟨rest, ?_⟩
    rw [hpath, ← (List.cons_prefix_cons.mp hwhole).1]
    rfl
  have hgit : sp.git.length ≤ 4 := by
    obtain hgit | hgit := h.git
    · simp [hgit]
    · have hlen := congrArg List.length hgit
      rw [length_toAsciiLowercase] at hlen
      simp [hlen, gitSuffix]
  have hkey : sp.remoteKey path = sp.canonical ↔ path = sp.path := by
    constructor
    · intro heq
      have hle := sp.length_remoteKey_le path
      rw [heq, hcanonical] at hle
      obtain ⟨suffix, hsuffix, hsub⟩ : ∃ suffix, path = sp.path ++ suffix ∧ suffix <+: sp.git := by
        obtain hshort | ⟨suffix, rfl⟩ :=
          List.prefix_or_prefix_of_prefix hpre (List.prefix_append sp.path sp.git)
        · exact ⟨[], by rw [List.append_nil]; exact hshort.eq_of_length_le (by omega),
            List.nil_prefix⟩
        · exact ⟨suffix, rfl, (List.prefix_append_right_inj _).mp hpre⟩
      cases suffix with
      | nil => rw [hsuffix, List.append_nil]
      | cons c suffix =>
        -- a suffix in another case stays
        have hlast : ¬['/'] <:+ path := by
          rintro ⟨front, hslash⟩
          have hmem : '/' ∈ (c :: suffix).getLast? := by
            rw [← List.getLast?_append_of_ne_nil sp.path (List.cons_ne_nil c suffix), ← hsuffix, ← hslash,
              List.getLast?_concat]
            rfl
          have hin := hsub.subset (List.mem_of_getLast? hmem)
          obtain hgit | hgit := h.git
          · rw [hgit] at hin
            cases hin
          · have hlower : '/'.toLower ∈ gitSuffix := hgit ▸ List.mem_map_of_mem hin
            exact absurd hlower (by decide)
        have hlen := congrArg List.length heq
        rw [remoteKey_eq h hlast (by simp [hsuffix]), length_toAsciiLowercase, hcanonical, hsuffix] at hlen
        simp only [List.length_append, List.length_cons] at hlen
        omega
    · rintro rfl
      exact remoteKey_eq h h.path_last h.path_ne_nil
  by_cases hsep : sp.separator = ':'
  · obtain ⟨hplain, hscheme⟩ := cutKey_scp h hsep hfirst
    by_cases hin : schemeEnd <:+: path
    · have hlen := hscheme hin
      have hpath := hpre.length_le
      have hhost : 0 < sp.authority.length := List.length_pos_iff.mpr h.isAuthority.ne_nil
      rw [List.length_append] at hpath
      constructor
      · intro heq
        rw [heq] at hlen
        omega
      · rintro ⟨rfl, hnot⟩
        exact absurd hin (hnot hsep)
    · rw [hplain hin, hkey]
      exact ⟨fun heq => ⟨heq, fun _ => heq ▸ hin⟩, fun hboth => hboth.1⟩
  · rw [cutKey_url h (separator_eq_slash hsep), hkey]
    exact ⟨fun heq => ⟨heq, fun hcolon => absurd hcolon hsep⟩, fun hboth => hboth.1⟩

lemma separator_notMem_git (sp : Spelling) : sp.separator ∉ gitSuffix := by
  unfold separator
  split
  · decide
  · decide

/-- What the suffix leaves of the path. -/
lemma stripGitSuffix_path :
    stripGitSuffix (sp.path ++ sp.git) = sp.path ↔
      sp.git = gitSuffix ∨ sp.git = [] ∧ ¬gitSuffix <:+ sp.path := by
  constructor
  · intro hstrip
    by_cases hsuffix : gitSuffix <:+ sp.path ++ sp.git
    · obtain ⟨front, hfront⟩ := hsuffix
      rw [← hfront, stripGitSuffix, stripSuffix_append, Option.getD_some] at hstrip
      rw [hstrip] at hfront
      exact .inl (List.append_cancel_left hfront).symm
    · rw [stripGitSuffix, stripSuffix_of_not_suffix hsuffix, Option.getD_none] at hstrip
      have hnil : sp.git = [] := List.append_right_eq_self.mp hstrip
      rw [hnil, List.append_nil] at hsuffix
      exact .inr ⟨hnil, hsuffix⟩
  · rintro (hgit | ⟨hgit, hnot⟩)
    · rw [hgit, stripGitSuffix, stripSuffix_append, Option.getD_some]
    · rw [hgit, List.append_nil, stripGitSuffix, stripSuffix_of_not_suffix hnot, Option.getD_none]

lemma mem_canonical_slash (sp : Spelling) : '/' ∈ sp.canonical :=
  (mem_toAsciiLowercase (by decide)).mpr (List.mem_append_right _ List.mem_cons_self)

/-- Without a path there is no slash in the key. -/
lemma cutKey_ne_of_no_path (h : sp.Valid) :
    cutKey (stripGitSuffix (sp.front ++ sp.authority)) ≠ sp.canonical := by
  intro heq
  have hslash : '/' ∈ cutKey (stripGitSuffix (sp.front ++ sp.authority)) := heq ▸ mem_canonical_slash sp
  have htrim : ∀ s, '/' ∉ s → '/' ∉ toAsciiLowercase (trimSlashes s) := by
    intro s hs hmem
    rw [mem_toAsciiLowercase (by decide)] at hmem
    exact hs ((List.dropWhile_suffix _).subset ((trimEndSlashes_isPrefix _).subset hmem))
  by_cases hsep : sp.separator = ':'
  · obtain ⟨user, hfront, huser, hauthority⟩ := h.scp hsep
    have hassoc : sp.front ++ sp.authority = user ++ '@' :: sp.authority := by simp [hfront]
    have hsub : ∀ c ∈ stripGitSuffix sp.authority, c ≠ ':' ∧ c ≠ '/' :=
      fun c hc => hauthority c ((stripGitSuffix_isPrefix _).subset hc)
    rw [hassoc, stripGitSuffix_append (by decide)] at hslash
    set repo := user ++ '@' :: stripGitSuffix sp.authority with hrepo
    have hno : '/' ∉ repo := by
      rw [hrepo, List.mem_append, List.mem_cons]
      rintro (hmem | hmem | hmem)
      · exact (huser '/' hmem).1 rfl
      · exact absurd hmem (by decide)
      · exact (hsub '/' hmem).2 rfl
    have hplain : ¬LooksRemote repo := by
      rintro (hscheme | ⟨user', host, path, hscp⟩)
      · exact hno (hscheme.subset (by decide))
      · have hcolon : ':' ∈ stripGitSuffix sp.authority :=
          mem_of_first hscp (fun hmem => (huser '@' hmem).2 rfl)
            (List.mem_append_right host List.mem_cons_self)
        exact (hsub ':' hcolon).1 rfl
    have hlocal : ¬(['/'] <+: repo ∨ ['.', '/'] <+: repo ∨ ['.', '.', '/'] <+: repo) := by
      rintro (hpre | hpre | hpre)
      all_goals exact hno (hpre.subset (by decide))
    rw [cutKey_of_not_looksRemote hplain, if_neg hlocal] at hslash
    exact htrim repo hno hslash
  · obtain ⟨scheme, user, hfront, hcolon, hfile, hno, -⟩ := h.url (separator_eq_slash hsep)
    have hassoc : sp.front ++ sp.authority =
        (scheme ++ [':', '/']) ++ '/' :: (user ++ sp.authority) := by simp [hfront, schemeEnd]
    have hrepo : (scheme ++ [':', '/']) ++ '/' :: stripGitSuffix (user ++ sp.authority) =
        scheme ++ schemeEnd ++ stripGitSuffix (user ++ sp.authority) := by simp [schemeEnd]
    have hno' : '/' ∉ stripGitSuffix (user ++ sp.authority) :=
      fun hmem => hno ((stripGitSuffix_isPrefix _).subset hmem)
    rw [hassoc, stripGitSuffix_append (by decide), hrepo, cutKey,
      stripPrefix_fileScheme hcolon hfile] at hslash
    dsimp only at hslash
    rw [schemeEnd, splitOnce_append hcolon] at hslash
    dsimp only at hslash
    rw [normalizeRemotePath, (splitOnce_eq_none (by decide)).mpr
      (by rwa [List.singleton_infix_iff])] at hslash
    exact htrim _ hno' hslash

/-- **The key of a spelling** is that of its remote if and only if the spelling is recognised. -/
lemma repoKey_text_iff (h : sp.Valid) : repoKey sp.text = sp.canonical ↔ sp.Recognised := by
  obtain ⟨kept, hpre, hkept, hcut⟩ := cut_text h
  have hrecognised : sp.Recognised ↔ (sp.git = gitSuffix ∨ sp.git = [] ∧ ¬gitSuffix <:+ sp.path) ∧
      ¬sp.Blank ∧ (sp.separator = ':' → ¬schemeEnd <:+: sp.path) := by
    constructor
    · rintro ⟨hgit, hblank, hscheme⟩
      refine ⟨hgit, ?_, hscheme⟩
      rintro ⟨hnil, hslashes, htail, c, hc, hwhite⟩
      rw [hblank hnil hslashes htail c hc] at hwhite
      cases hwhite
    · rintro ⟨hgit, hblank, hscheme⟩
      refine ⟨hgit, fun hnil hslashes htail c hc => ?_, hscheme⟩
      by_contra hwhite
      exact hblank ⟨hnil, hslashes, htail, c, hc, by simpa using hwhite⟩
  have hstrip : ∀ path, stripGitSuffix (sp.front ++ sp.authority ++ sp.separator :: path) =
      sp.front ++ sp.authority ++ sp.separator :: stripGitSuffix path :=
    fun path => stripGitSuffix_append (separator_notMem_git sp) path
  rw [repoKey_eq, hcut, hrecognised]
  cases kept with
  | nil =>
    rw [List.append_nil]
    have hblank : sp.Blank := hkept.mp (List.cons_ne_nil _ _).symm
    exact ⟨fun heq => absurd heq (cutKey_ne_of_no_path h), fun hall => absurd hblank hall.2.1⟩
  | cons c path =>
    obtain ⟨rfl, hpath⟩ := List.cons_prefix_cons.mp hpre
    have hshorter := stripGitSuffix_isPrefix path
    rw [hstrip, cutKey_eq_iff h (hshorter.trans hpath)]
    by_cases hblank : sp.Blank
    · -- the path has lost the blank at its end
      have hne : path ≠ sp.path ++ sp.git := fun heq => hkept.mpr hblank (by rw [heq]; rfl)
      refine ⟨fun hboth => ?_, fun hall => absurd hblank hall.2.1⟩
      have hlen := hshorter.length_le
      rw [hboth.1] at hlen
      rw [hblank.1, List.append_nil] at hne hpath
      exact absurd (hpath.eq_of_length_le hlen) hne
    · have heq : path = sp.path ++ sp.git := by
        by_contra hne
        exact hblank (hkept.mp fun heq => hne (List.cons.inj heq).2)
      subst heq
      rw [stripGitSuffix_path]
      exact ⟨fun hboth => ⟨hboth.1, hblank, hboth.2⟩, fun hall => ⟨hall.1, hall.2.2⟩⟩

end Spelling

/-- `ssh://git@GitHub.com/acme/api.git/`. -/
def sshSpelling : Spelling where
  form := .url "ssh".toList (some "git".toList)
  host := "GitHub.com".toList
  port := none
  path := "acme/api".toList
  git := gitSuffix
  slashes := 1
  tail := []

/-- `https://github.com/acme/api.GIT`. -/
def upperSpelling : Spelling where
  form := .url "https".toList none
  host := "github.com".toList
  port := none
  path := "acme/api".toList
  git := ".GIT".toList
  slashes := 0
  tail := []

lemma sshSpelling_valid : sshSpelling.Valid := by
  refine ⟨?_, ⟨by decide +kernel, by decide +kernel, ?_⟩, by simp [sshSpelling], by decide +kernel, ?_,
    by decide +kernel, by decide +kernel, .inr rfl, .inl rfl⟩
  · exact .url _ _ _ (by decide +kernel) (by simp)
  · simp [sshSpelling, isWhiteSpace]
  · simp [sshSpelling]

lemma upperSpelling_valid : upperSpelling.Valid := by
  refine ⟨?_, ⟨by decide +kernel, by decide +kernel, ?_⟩, by simp [upperSpelling], by decide +kernel, ?_,
    by decide +kernel, by decide +kernel, .inr (by decide +kernel), .inl rfl⟩
  · exact .url _ _ _ (by decide +kernel) (by simp)
  · simp [upperSpelling, isWhiteSpace]
  · simp [upperSpelling]

end RepoUrl
end NestWeaver

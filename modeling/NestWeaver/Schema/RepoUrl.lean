import NestWeaver.Framework.Strings

/-!
# The identity of a repository

`crates/nestweaver-schema/src/repo_url.rs`: a clone URL, or the path of a local checkout, is cut down to
a key, and the key is hashed into the UID of the repository (`normalizedRepoKey`, `repoUid`).

The path of a checkout is cut as a URL is: it loses what follows a `?` or a `#`, and a plain path with a
scheme or a host in it is taken for a URL.  All other checkouts keep their keys apart from each other and
from clone URLs.
-/

set_option linter.all false

namespace NestWeaver
namespace RepoUrl

open Strings

/-! ## Keys -/

def trimEndSlashes (s : List Char) : List Char := s.rdropWhile (· = '/')

def trimSlashes (s : List Char) : List Char := trimEndSlashes (s.dropWhile (· = '/'))

def toAsciiLowercase (s : List Char) : List Char := s.map Char.toLower

def stripUrlSuffix (repoUrl : List Char) : List Char :=
  repoUrl.takeWhile fun c => c ≠ '?' ∧ c ≠ '#'

def gitSuffix : List Char := ['.', 'g', 'i', 't']

def schemeEnd : List Char := [':', '/', '/']

def fileScheme : List Char := ['f', 'i', 'l', 'e', ':', '/', '/']

def stripGitSuffix (repoUrl : List Char) : List Char := (stripSuffix gitSuffix repoUrl).getD repoUrl

/-- Credentials are dropped. -/
def normalizeRemotePath (remote : List Char) : List Char :=
  let withoutAuth :=
    match splitOnce ['/'] remote with
    | some (host, path) => host.rtakeWhile (· ≠ '@') ++ '/' :: path
    | none => remote
  toAsciiLowercase (trimSlashes withoutAuth)

def repoKey (repoUrl : List Char) : List Char :=
  let repo := stripGitSuffix (trimEndSlashes (stripUrlSuffix (trim repoUrl)))
  match stripPrefix fileScheme repo with
  | some path => toAsciiLowercase (trimEndSlashes path)
  | none =>
    match splitOnce schemeEnd repo with
    | some (_, rest) => normalizeRemotePath rest
    | none =>
      match (splitOnce ['@'] repo).bind fun split => splitOnce [':'] split.2 with
      | some (host, path) => toAsciiLowercase (trimSlashes (host ++ '/' :: path))
      | none =>
        if ['/'] <+: repo ∨ ['.', '/'] <+: repo ∨ ['.', '.', '/'] <+: repo then
          toAsciiLowercase (trimEndSlashes repo)
        else toAsciiLowercase (trimSlashes repo)

/-- Collapse a clone URL to an identity key. -/
def normalizedRepoKey (repoUrl : String) : String := .ofList (repoKey repoUrl.toList)

def repoUid (truncatedHash : String → String) (instanceId url : String) : String :=
  "repo:" ++ instanceId ++ ":" ++ truncatedHash (normalizedRepoKey url)

/-- The hash tells the two apart. -/
def NoCollision (truncatedHash : String → String) (a b : String) : Prop :=
  truncatedHash a = truncatedHash b → a = b

instance (truncatedHash : String → String) (a b : String) : Decidable (NoCollision truncatedHash a b) :=
  inferInstanceAs (Decidable (truncatedHash a = truncatedHash b → a = b))

/-! ## Checkouts -/

/-- How the path of a checkout is given. -/
inductive LocalForm
  | plain | fileUrl
  deriving DecidableEq, Repr

def LocalForm.spell : LocalForm → List Char → List Char
  | .plain, path => path
  | .fileUrl, path => fileScheme ++ path

/-- The path without what may be left out at its end. -/
def stem (path : List Char) : List Char := stripGitSuffix (trimEndSlashes path)

/-- What is left of a path that is cut as a URL is. -/
def cutPath (path : List Char) : List Char := stripUrlSuffix (path.rdropWhile isWhiteSpace)

/-- Nothing is cut out of the path, and it is not taken for a URL. -/
structure KeptWhole (form : LocalForm) (path : List Char) : Prop where
  absolute : ['/'] <+: path
  noSuffix : ∀ c ∈ path, c ≠ '?' ∧ c ≠ '#'
  noBlank : ∀ c ∈ path.getLast?, isWhiteSpace c = false
  noScheme : form = .plain → ¬schemeEnd <:+: stem path
  noHost : form = .plain → ∀ front back, stem path = front ++ '@' :: back → ':' ∉ back
  notRoot : form = .fileUrl → ∃ c ∈ path, c ≠ '/'

/-- The path is this one up to ASCII case, trailing slashes and an optional `.git`. -/
def IsVariant (canonical path : List Char) : Prop :=
  ∃ i j suffix, (suffix = [] ∨ suffix = gitSuffix) ∧ toAsciiLowercase path =
    canonical ++ List.replicate i '/' ++ suffix ++ List.replicate j '/'

/-- The paths are equal up to ASCII case, trailing slashes and an optional `.git`. -/
def SameCheckout (path path' : List Char) : Prop :=
  ∃ canonical, IsVariant canonical path ∧ IsVariant canonical path'

/-! ## Clone URLs -/

def HostName (host : List Char) : Prop :=
  host ≠ [] ∧ ¬['.'] <+: host ∧
    ∀ c ∈ host, c ∉ ['/', '?', '#', '@', ':'] ∧ isWhiteSpace c = false

/-- A host, with credentials before it and a port behind it. -/
inductive Authority : List Char → Prop
  | host (host : List Char) (hhost : HostName host) : Authority host
  | port (host port : List Char) (hhost : HostName host) (hport : port ≠ [])
      (hdigits : ∀ c ∈ port, c.isDigit) : Authority (host ++ ':' :: port)
  | credentials (user authority : List Char) (hauthority : Authority authority)
      (huser : ∀ c ∈ user, c ∉ ['/', '?', '#']) : Authority (user ++ '@' :: authority)

/-- The https, ssh, git and scp forms. -/
inductive CloneUrl : List Char → Prop
  | url (scheme authority tail : List Char)
      (hscheme : toAsciiLowercase scheme ∈
        ["http".toList, "https".toList, "ssh".toList, "git".toList])
      (hauthority : Authority authority)
      (htail : tail = [] ∨ ['/'] <+: tail ∨ ['?'] <+: tail ∨ ['#'] <+: tail) :
      CloneUrl (scheme ++ schemeEnd ++ (authority ++ tail))
  | scp (user host path : List Char) (hhost : HostName host)
      (huser : user ≠ [] ∧ ∀ c ∈ user, c ∉ ['/', '?', '#', '@', ':'] ∧ isWhiteSpace c = false)
      (hscheme : ¬schemeEnd <:+: user ++ '@' :: (host ++ ':' :: path)) :
      CloneUrl (user ++ '@' :: (host ++ ':' :: path))

end RepoUrl
end NestWeaver

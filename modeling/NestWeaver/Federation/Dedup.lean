import NestWeaver.Federation.VaultPairs
import NestWeaver.Framework.Json
import NestWeaver.Schema.RepoUrl

/-!
# The identity of a result

`crates/nestweaver-federation/src/dedup.rs`: what two results of the local and the server tier must
agree in to be one.  A result with a uid is identified by it, one without by repository, file, name and
scope.  The hash of a scope is that of the standard library's hasher, here a parameter of what it has
been fed with.
-/

set_option linter.all false

namespace NestWeaver
namespace Federation

open Uid RepoUrl

namespace EntityKey

def plain (family key : String) : EntityKey := ⟨key, true, family, none, ""⟩

def raw (uid : String) : EntityKey := { plain "raw" "" with key := "uid:" ++ uid, canonical := false }

def «scoped» (family vault rest : String) : EntityKey :=
  requalify ⟨"", true, family, some vault, rest⟩

end EntityKey

structure SymbolIdentity where
  repoUrl : String
  filePath : String
  symbolName : String
  scopeHash : ℕ
  entity : Option EntityKey
  deriving DecidableEq, Repr

/-- What equality and hashing of identities go by. -/
def SymbolIdentity.parts (id : SymbolIdentity) : String × String × String × ℕ × Option String :=
  (id.repoUrl, id.filePath, id.symbolName, id.scopeHash, id.entity.map (·.key))

section Extraction

-- the digest of a scope chain, of a line, or of nothing
variable (digest : Option (String ⊕ ℕ) → ℕ)

def computeScopeHash (scopeChain : Option String) (startLine : Option ℕ) : ℕ :=
  match scopeChain.filter (· ≠ "") with
  | some chain => digest (some (.inl chain))
  | none => digest (startLine.map .inr)

def entityKeyForUid (uid : String) (scopeChain : Option String) : Option EntityKey :=
  (parseCanonicalEntityUid uid).map fun
    | .note instanceId vault note => .«scoped» "note" (instanceId ++ ":" ++ vault) note
    | .tag instanceId vault name => .«scoped» "tag" (instanceId ++ ":" ++ vault) name
    | .heading instanceId vault note slug line =>
      .«scoped» "head" (instanceId ++ ":" ++ vault) (note ++ ":" ++ slug ++ ":" ++ line)
    | .«section» instanceId vault note line content =>
      .«scoped» "sec" (instanceId ++ ":" ++ vault) (note ++ ":" ++ line ++ ":" ++ content)
    | .vault instanceId vault => .«scoped» "vlt" (instanceId ++ ":" ++ vault) ""
    | .symbol _ repo file name line =>
      let disc := match scopeChain.filter (· ≠ "") with
        | some chain => "s" ++ toString (computeScopeHash digest (some chain) none)
        | none => "l" ++ line
      .plain "sym" ("sym:repo:" ++ repo ++ ":" ++ file ++ ":" ++ name ++ ":" ++ disc)
    | .repo _ repo => .plain "repo" ("repo:" ++ repo)
    | .file _ repo file => .plain "file" ("file:repo:" ++ repo ++ ":" ++ file)
    | .service _ repo name => .plain "svc" ("svc:repo:" ++ repo ++ ":" ++ name)

/-- The first of these fields that there is. -/
def firstField (result : Json) (keys : List String) : Option Json := keys.findSome? result.get

/-- `as_u64`, cut to 32 bits. -/
def lineNumber : Json → Option ℕ
  | .num (.int n) => if 0 ≤ n ∧ n < 2 ^ 64 then some (n.toNat % UInt32.size) else none
  | _ => none

def extractIdentity (result : Json) : Option SymbolIdentity :=
  let scopeChain := (firstField result ["scope_chain", "scope"]).bind Json.asStr
  match ((result.get "uid").bind Json.asStr).filter (· ≠ "") with
  | some uid => some ⟨"", "", "", 0, some ((entityKeyForUid digest uid scopeChain).getD (.raw uid))⟩
  | none => do
    let symbolName ← (firstField result ["symbol_name", "name", "symbol", "title"]).bind Json.asStr
    let location := (result.get "location").bind Json.asStr
    let filePath ← ((firstField result ["file_path", "file"]).bind Json.asStr).or
      (location.map fun loc =>
        ((Strings.rsplitOnce ':' loc.toList).map fun (path, _) => String.ofList path).getD loc)
    let repoUrl := (((firstField result ["repo_url", "repo"]).bind Json.asStr).map
      normalizedRepoKey).getD filePath
    let startLine := ((result.get "start_line").bind lineNumber).or
      (location.bind fun loc => (Strings.rsplitOnce ':' loc.toList).bind fun (_, line) => parseU32 line)
    some ⟨repoUrl, filePath, symbolName, computeScopeHash digest scopeChain startLine, none⟩

end Extraction

/-! ## Both tiers -/

/-- The entity keys of the rows that have one. -/
def entityKeys (ids : List (Option SymbolIdentity)) : List EntityKey :=
  ids.filterMap fun id => id.bind (·.entity)

/-- The rows with these for their entity keys, one after the other. -/
def putKeys : List (Option SymbolIdentity) → List EntityKey → List (Option SymbolIdentity)
  | [], _ => []
  | none :: ids, keys => none :: putKeys ids keys
  | some id :: ids, keys =>
    match id.entity, keys with
    | some _, key :: keys => some { id with entity := some key } :: putKeys ids keys
    | _, keys => some id :: putKeys ids keys

def identifyTiersWithVaultMappings (digest : Option (String ⊕ ℕ) → ℕ) (order : ℕ → Iteration)
    (loc server : List Json) (mappings : List (String × String)) :
    List (Option SymbolIdentity) × List (Option SymbolIdentity) × Bool :=
  let localIds := loc.map (extractIdentity digest)
  let serverIds := server.map (extractIdentity digest)
  let (keys, unproven) :=
    reconcileVaultPairsWithMappings order (entityKeys localIds) (entityKeys serverIds) mappings
  (localIds, putKeys serverIds keys, unproven)

end Federation
end NestWeaver

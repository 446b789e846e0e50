import NestWeaver.Framework.Numerals
import NestWeaver.Framework.Strings

/-!
# Internal addresses

`crates/nestweaver-engine/src/ssrf.rs`: a host that is an address is read as one however it is spelled
(`parseHostAsIp`), and a repository whose host is, or resolves to, an internal address is rejected
(`validateRepoUrl`, `guardGitUrl`).

URLs are parsed and names are resolved by others: both are parameters here.
-/

set_option linter.all false

namespace NestWeaver
namespace Ssrf

open Strings Numerals

/-! ## Addresses -/

structure Ipv4Addr where
  bits : BitVec 32
  deriving DecidableEq, Repr

namespace Ipv4Addr

def new (a b c d : BitVec 8) : Ipv4Addr := ⟨a ++ b ++ c ++ d⟩

def octet (v4 : Ipv4Addr) (i : ℕ) : BitVec 8 := (v4.bits >>> (24 - 8 * i)).setWidth 8

def isPrivate (v4 : Ipv4Addr) : Bool :=
  v4.octet 0 = 10 || (v4.octet 0 = 172 && (v4.octet 1 &&& 0xf0) = 16) ||
    (v4.octet 0 = 192 && v4.octet 1 = 168)

def isDocumentation (v4 : Ipv4Addr) : Bool :=
  (v4.octet 0 = 192 && v4.octet 1 = 0 && v4.octet 2 = 2) ||
    (v4.octet 0 = 198 && v4.octet 1 = 51 && v4.octet 2 = 100) ||
    (v4.octet 0 = 203 && v4.octet 1 = 0 && v4.octet 2 = 113)

def display (v4 : Ipv4Addr) : String :=
  ".".intercalate ([0, 1, 2, 3].map fun i => toString (v4.octet i).toNat)

end Ipv4Addr

structure Ipv6Addr where
  segments : Vector (BitVec 16) 8
  deriving DecidableEq, Repr

inductive IpAddr
  | v4 (v4 : Ipv4Addr)
  | v6 (v6 : Ipv6Addr)
  deriving DecidableEq, Repr

/-- Internal or non-routable. -/
def v4IsInternal (v4 : Ipv4Addr) : Bool :=
  v4.octet 0 = 127 ||
  v4.isPrivate ||
  (v4.octet 0 = 169 && v4.octet 1 = 254) ||
  v4.bits = 0 ||
  v4.bits = 0xffffffff ||
  v4.isDocumentation ||
  (224 ≤ v4.octet 0 && v4.octet 0 ≤ 239) ||
  v4.octet 0 = 0 ||
  240 ≤ v4.octet 0 ||
  (v4.octet 0 = 100 && 64 ≤ v4.octet 1 && v4.octet 1 ≤ 127) ||
  (v4.octet 0 = 192 && v4.octet 1 = 0 && v4.octet 2 = 0) ||
  (v4.octet 0 = 198 && (v4.octet 1 &&& 0xfe) = 18) ||
  v4 = .new 168 63 129 16

def v4From (hi lo : BitVec 16) : Ipv4Addr :=
  .new ((hi >>> 8).setWidth 8) (hi.setWidth 8) ((lo >>> 8).setWidth 8) (lo.setWidth 8)

/-- The IPv4 address in a transition form. -/
def embeddedIpv4 (v6 : Ipv6Addr) : Option Ipv4Addr :=
  let seg := v6.segments
  if seg[0] = 0x64 ∧ seg[1] = 0xff9b ∧ seg[2] = 0 ∧ seg[3] = 0 ∧ seg[4] = 0 ∧ seg[5] = 0 then
    some (v4From seg[6] seg[7])
  else if seg[0] = 0x2002 then some (v4From seg[1] seg[2])
  else if seg[0] = 0 ∧ seg[1] = 0 ∧ seg[2] = 0 ∧ seg[3] = 0 ∧ seg[4] = 0 ∧ seg[5] = 0 ∧
      (seg[6] ≠ 0 ∨ seg[7] ≠ 0) then
    some (v4From seg[6] seg[7])
  else none

def toIpv4Mapped (v6 : Ipv6Addr) : Option Ipv4Addr :=
  let seg := v6.segments
  if seg[0] = 0 ∧ seg[1] = 0 ∧ seg[2] = 0 ∧ seg[3] = 0 ∧ seg[4] = 0 ∧ seg[5] = 0xffff then
    some (v4From seg[6] seg[7])
  else none

def loopback : Ipv6Addr := ⟨#v[0, 0, 0, 0, 0, 0, 0, 1]⟩

def unspecified : Ipv6Addr := ⟨#v[0, 0, 0, 0, 0, 0, 0, 0]⟩

def v6IsInternal (v6 : Ipv6Addr) : Bool :=
  let seg := v6.segments
  if v6 = loopback ∨ v6 = unspecified then true
  else
    match toIpv4Mapped v6 with
    | some v4 => v4IsInternal v4
    | none =>
      if seg[0] &&& 0xfe00 = 0xfc00 then true
      else if seg[0] &&& 0xffc0 = 0xfe80 then true
      else if seg[0] &&& 0xffc0 = 0xfec0 then true
      else if seg[0] &&& 0xff00 = 0xff00 then true
      else if seg[0] = 0x2001 ∧ seg[1] = 0xdb8 then true
      else if seg[0] = 0x64 ∧ seg[1] = 0xff9b ∧ seg[2] = 1 then true
      else (embeddedIpv4 v6).any v4IsInternal

def ipIsInternal : IpAddr → Bool
  | .v4 v4 => v4IsInternal v4
  | .v6 v6 => v6IsInternal v6

/-! ## Texts of addresses -/

/-- At most three digits and no zero before another. -/
def readOctet (part : List Char) : Option (BitVec 8) :=
  if 3 < part.length ∨ (1 < part.length ∧ ['0'] <+: part) then none
  else (readDigits 256 10 part).map (BitVec.ofNat 8)

def parseDottedQuad (s : List Char) : Option Ipv4Addr :=
  match s.splitOn '.' with
  | [a, b, c, d] =>
    match readOctet a, readOctet b, readOctet c, readOctet d with
    | some a, some b, some c, some d => some (.new a b c d)
    | _, _, _, _ => none
  | _ => none

def readGroup (part : List Char) : Option (BitVec 16) :=
  if 4 < part.length then none else (readDigits 65536 16 part).map (BitVec.ofNat 16)

/-- Groups before a `::`. -/
def readHead (s : List Char) : Option (List (BitVec 16)) :=
  if s = [] then some [] else (s.splitOn ':').mapM readGroup

/-- Groups at the end of an address.  The last two may be given as a dotted quad. -/
def readTail (s : List Char) : Option (List (BitVec 16)) :=
  if s = [] then some []
  else
    let parts := s.splitOn ':'
    match parts.dropLast.mapM readGroup, parts.getLast? with
    | some groups, some part =>
      match parseDottedQuad part with
      | some v4 =>
        some (groups ++ [(v4.bits >>> 16).setWidth 16, v4.bits.setWidth 16])
      | none => (readGroup part).map fun group => groups ++ [group]
    | _, _ => none

def ofGroups (groups : List (BitVec 16)) : Option Ipv6Addr :=
  if h : groups.length = 8 then some ⟨⟨groups.toArray, h⟩⟩ else none

/-- Eight groups, or at most seven around a `::`. -/
def parseIpv6 (s : List Char) : Option Ipv6Addr :=
  match splitOnce [':', ':'] s with
  | some (front, back) =>
    match readHead front, readTail back with
    | some head, some tail =>
      if 7 < head.length + tail.length then none
      else ofGroups (head ++ List.replicate (8 - (head.length + tail.length)) 0 ++ tail)
    | _, _ => none
  | none => (readTail s).bind ofGroups

/-- A dotted quad or an IPv6 literal. -/
def parseIpAddr (s : List Char) : Option IpAddr :=
  match parseDottedQuad s with
  | some v4 => some (.v4 v4)
  | none => (parseIpv6 s).map .v6

/-- The longest run of zeros: where it begins, and its length. -/
def zeroes (segments : List (BitVec 16)) : ℕ × ℕ :=
  (segments.zipIdx.foldl (fun (longest, current) (segment, i) =>
    if segment = 0 then
      let current := if current.2 = 0 then (i, 1) else (current.1, current.2 + 1)
      (if longest.2 < current.2 then current else longest, current)
    else (longest, (0, 0))) ((0, 0), (0, 0))).1

def displayGroups (groups : List (BitVec 16)) : String :=
  ":".intercalate (groups.map fun group => .ofList (Nat.toDigits 16 group.toNat))

def Ipv6Addr.display (v6 : Ipv6Addr) : String :=
  match toIpv4Mapped v6 with
  | some v4 => "::ffff:" ++ v4.display
  | none =>
    let segments := v6.segments.toList
    let (start, len) := zeroes segments
    if 1 < len then
      displayGroups (segments.take start) ++ "::" ++ displayGroups (segments.drop (start + len))
    else displayGroups segments

def IpAddr.display : IpAddr → String
  | .v4 ip => ip.display
  | .v6 ip => ip.display

/-! ## Numeric hosts -/

def parseIpv4Part (part : List Char) : Option ℕ :=
  if part = [] then none
  else
    let (radix, digits) :=
      match (stripPrefix ['0', 'x'] part).or (stripPrefix ['0', 'X'] part) with
      | some hex => (16, hex)
      | none => if 1 < part.length ∧ ['0'] <+: part then (8, part.tail) else (10, part)
    if digits = [] then none else fromStrRadix (2 ^ 64) radix digits

/-- The address of one to four parts. -/
def numericAddress : List ℕ → Option (BitVec 32)
  | [a] => if a < 2 ^ 32 then some (BitVec.ofNat 32 a) else none
  | [a, b] =>
    if a > 0xff ∨ b > 0x00ffffff then none
    else some (BitVec.ofNat 32 a <<< 24 ||| BitVec.ofNat 32 b)
  | [a, b, c] =>
    if a > 0xff ∨ b > 0xff ∨ c > 0xffff then none
    else some (BitVec.ofNat 32 a <<< 24 ||| BitVec.ofNat 32 b <<< 16 ||| BitVec.ofNat 32 c)
  | [a, b, c, d] =>
    if [a, b, c, d].any (0xff < ·) then none
    else some (BitVec.ofNat 32 a <<< 24 ||| BitVec.ofNat 32 b <<< 16 |||
      BitVec.ofNat 32 c <<< 8 ||| BitVec.ofNat 32 d)
  | _ => none

def parseNumericIpv4 (host : List Char) : Option Ipv4Addr :=
  let parts := host.splitOn '.'
  if parts = [] ∨ 4 < parts.length then none
  else ((parts.mapM parseIpv4Part).bind numericAddress).map .mk

/-- The host without brackets around it. -/
def bare (host : List Char) : List Char :=
  ((stripPrefix ['['] host).bind (stripSuffix [']'])).getD host

def parseHostAsIp (host : List Char) : Option IpAddr :=
  match parseIpAddr (bare host) with
  | some ip => some ip
  | none => (parseNumericIpv4 (bare host)).map .v4

/-! ## Repositories -/

/-- What is used of a parsed URL. -/
structure Url where
  scheme : String
  hostStr : Option String
  portOrKnownDefault : Option ℕ
  deriving DecidableEq, Repr

def isControl (c : Char) : Bool := c.toNat ≤ 0x1f || (0x7f ≤ c.toNat && c.toNat ≤ 0x9f)

def allowedSchemes : List String := ["https", "http", "ssh"]

/-- More than one `@` before the path. -/
def ambiguousUserinfo (url : List Char) : Bool :=
  match splitOnce [':', '/', '/'] url with
  | some (_, rest) => 1 < (rest.takeWhile fun c => c ∉ ['/', '?', '#']).count '@'
  | none => false

section

variable (parse : String → Except String Url)

def validateRepoUrl (url : String) : Except String Unit :=
  if url.toList.any fun c => isWhiteSpace c || isControl c then
    .error ("invalid URL '" ++ url ++ "': contains whitespace or control characters")
  else if '\\' ∈ url.toList ∨ ['%', '5', 'c'] <:+: url.toList.map Char.toLower then
    .error ("invalid URL '" ++ url ++ "': backslashes (or %5c) are not allowed")
  else
    match parse url with
    | .error e => .error ("invalid URL '" ++ url ++ "': " ++ e)
    | .ok parsed =>
      if parsed.scheme ∉ allowedSchemes then
        .error ("unsupported URL scheme '" ++ parsed.scheme ++ "': allowed schemes are " ++
          ", ".intercalate allowedSchemes)
      else
        match parsed.hostStr with
        | none => .error ("invalid URL '" ++ url ++ "': missing host")
        | some host =>
          if ambiguousUserinfo url.toList then
            .error ("invalid URL '" ++ url ++
              "': ambiguous userinfo (multiple '@' in authority)")
          else if host = "localhost" ∨ host = "metadata.google.internal" then
            .error ("rejected hostname '" ++ host ++ "': internal addresses not allowed")
          else
            match parseHostAsIp host.toList with
            | some ip =>
              if ipIsInternal ip then
                .error ("rejected IP '" ++ ip.display ++
                  "': private/loopback addresses not allowed")
              else .ok ()
            | none => .ok ()

inductive SsrfError
  | invalidUrl (message : String)
  | unsupportedScheme (scheme : String)
  | rejected (message : String)
  | resolvesInternal (host : String)
  | resolutionFailed (host : String)
  deriving DecidableEq, Repr

structure GitNetGuard where
  configArgs : List String
  deriving DecidableEq, Repr

def anyResolvedIpIsInternal (addrs : List IpAddr) : Bool := addrs.any ipIsInternal

def resolveConfigArg (host : String) (port : ℕ) (ip : IpAddr) : String :=
  let text :=
    match ip with
    | .v6 v6 => "[" ++ v6.display ++ "]"
    | .v4 v4 => v4.display
  "http.curloptResolve=" ++ host ++ ":" ++ toString port ++ ":" ++ text

/-- The first IPv4 address, or else the first. -/
def pickPinIp (addrs : List IpAddr) : Option IpAddr :=
  (addrs.find? fun ip => match ip with | .v4 _ => true | .v6 _ => false).or addrs.head?

def guardGitUrl (resolveHost : String → Except String (List IpAddr)) (url : String) :
    Except SsrfError GitNetGuard :=
  match parse url with
  | .error e => .error (.invalidUrl ("'" ++ url ++ "': " ++ e))
  | .ok parsed =>
    if parsed.scheme ∉ allowedSchemes then .error (.unsupportedScheme parsed.scheme)
    else
      match validateRepoUrl parse url with
      | .error message => .error (.rejected message)
      | .ok () =>
        match parsed.hostStr with
        | none => .error (.invalidUrl ("'" ++ url ++ "': missing host"))
        | some host =>
          let resolved :=
            match parseHostAsIp host.toList with
            | some ip => some [ip]
            | none => (resolveHost host).toOption
          match resolved with
          | none => .error (.resolutionFailed host)
          | some resolved =>
            if anyResolvedIpIsInternal resolved then .error (.resolvesInternal host)
            else if parsed.scheme = "ssh" then .ok ⟨[]⟩
            else
              let port := parsed.portOrKnownDefault.getD 443
              let pin :=
                match pickPinIp resolved with
                | some ip => ["-c", resolveConfigArg host port ip]
                | none => []
              .ok ⟨pin ++ ["-c", "http.followRedirects=false"]⟩

end

end Ssrf
end NestWeaver

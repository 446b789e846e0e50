import Mathlib.Data.List.Basic

/-!
# Bounded text

`truncate_utf8_bytes` of `crates/nestweaver-mcp/src/tools.rs`.
-/

set_option linter.all false

namespace NestWeaver
namespace Mcp

/-- The length of a text in bytes. -/
def byteLen : List Char → ℕ
  | [] => 0
  | c :: cs => c.utf8Size + byteLen cs

/-- The longest prefix of at most `n` bytes that ends at a character boundary. -/
def floorChars : ℕ → List Char → List Char
  | _, [] => []
  | n, c :: cs => if c.utf8Size ≤ n then c :: floorChars (n - c.utf8Size) cs else []

/-- A text of at most `maxBytes` bytes, with an ellipsis where it was cut and there is room. -/
def truncateUtf8Bytes (value : String) (maxBytes : ℕ) : String :=
  if byteLen value.toList ≤ maxBytes then value
  else if maxBytes = 0 then ""
  else
    let suffix := if maxBytes ≥ byteLen ['…'] then ['…'] else []
    String.ofList (floorChars (maxBytes - byteLen suffix) value.toList ++ suffix)

end Mcp
end NestWeaver

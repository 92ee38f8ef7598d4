import TableQuery.Text.Split
import TableQuery.Text.Unsigned
import TableQuery.Text.Utf8

/-!
# Query strings

The query string of a request is a list of named texts: pairs between `&`, a name and a text on the two
sides of the first `=`.  A pair without characters is passed over, and a name without `=` has the empty
text.  A plus sign stands for a blank, and a percent sign with two hexadecimal digits for a byte; any
other percent sign stands for itself.  The bytes are UTF-8.
-/

namespace TableQuery.QueryString

/-- The byte that two hexadecimal digits are. -/
def hexByte? (high low : Char) : Option UInt8 := do
  let high ← Text.digitValue? 16 high
  let low ← Text.digitValue? 16 low
  return (high * 16 + low).toUInt8

/-- The bytes of a name or a text. -/
def bytes : List Char → List UInt8
  | [] => []
  | '+' :: rest => 0x20 :: bytes rest
  | '%' :: high :: low :: rest =>
    match hexByte? high low with
    | some byte => byte :: bytes rest
    | none => 0x25 :: bytes (high :: low :: rest)
  | c :: rest => String.utf8EncodeChar c ++ bytes rest

/-- Reads a name or a text. -/
def decoded (written : List Char) : String := String.ofList (Utf8.decode (bytes written))

/-- Reads a pair. -/
def pair (written : List Char) : String × String :=
  match Text.splitFirst '=' written with
  | (name, text) => (decoded name, decoded (text.getD []))

/-- The pairs of a query string. -/
def pairs (query : List Char) : List (String × String) :=
  ((query.splitOn '&').filter fun written => !written.isEmpty).map pair

example : pairs "q=a%3Db+c&&x&%zz=%C3%A9".toList = [("q", "a=b c"), ("x", ""), ("%zz", "é")] := by
  decide +kernel

end TableQuery.QueryString

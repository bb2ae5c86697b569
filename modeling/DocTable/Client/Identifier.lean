import DocTable.Text.Bytes

/-!
# Random identifiers

An identifier is written from sixteen octets: six of their bits are overwritten by the version and
the variant of random identifiers, and the hexadecimal digits stand in groups of eight, four, four,
four and twelve.
-/

namespace DocTable.Identifier

set_option autoImplicit false

/-- The octets with the marks of a random identifier: version four and variant two. -/
def marked (bytes : Bytes) : Bytes :=
  bytes.mapIdx fun i b =>
    if i = 6 then (b &&& 0x0F) ||| 0x40 else if i = 8 then (b &&& 0x3F) ||| 0x80 else b

/-- Characters in groups of the given sizes; what is left over makes the last group. -/
def groups : List Nat → List Char → List (List Char)
  | [], cs => [cs]
  | n :: sizes, cs => cs.take n :: groups sizes (cs.drop n)

/-- The identifier made of sixteen octets. -/
def ofBytes (bytes : Bytes) : String :=
  "-".intercalate ((groups [8, 4, 4, 4] (Text.hex (marked bytes)).toList).map String.ofList)

end DocTable.Identifier

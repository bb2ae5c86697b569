import DocTable.Proofs.Attribute.EncodedDocuments
import DocTable.Proofs.Client.AccessPath
import DocTable.Proofs.Client.Calls

/-!
# Inserted documents are found

A document that a store has accepted as an item is a filter that finds the item: the query that it is
compiled to reads the partition in which the item was put (`TableClient.query_of_insert`), and the item
meets every field (`TableClient.insert_finds_itself`).

The item and the filter are encoded apart from each other, but to the same values
(`Document.lookup_encode`), and these are equal to themselves (`AttributeValue.Usable.equal_self`).  The
values of numerals that are too long for a number are not, and a document with one does not find itself
(`TableClient.long_numeral_not_found`).
-/

namespace DocTable

set_option autoImplicit false

namespace TableClient

namespace Gauges

/-- A table of readings by gauge and level. -/
def schema : TableSchema := ⟨"readings", ⟨"gauge", "S"⟩, ⟨"level", "N"⟩, []⟩

/-- No readings. -/
def empty : Store := ⟨[("readings", schema)], []⟩

/-- A reading of the same level, whose text is another one. -/
def calls : List ItemCall :=
  [.put { tableName? := some "readings", item? := some [("gauge", .s "weir"), ("level", .n "2.50")] }]

/-- A reading with a remark and its parts. -/
def reading : Document :=
  [("level", .numeral "2.5"), ("gauge", .text "weir"),
    ("parts", .list [.integer .int8 (-3), .map [("deep", .numeral "0.10")], .bytes [1, 2]]),
    ("remark", .literal (.document [("$gt", .null)]))]

/-- The request that puts the reading. -/
def request : Request :=
  [("Item", .attributes (some
      [("gauge", .s "weir"), ("level", .n "2.5"),
        ("parts", .m [("0", .n "-3"), ("1", .m [("deep", .n "0.10")]), ("2", .b [1, 2])]),
        ("remark", .m [("$gt", .null true)])])),
    ("TableName", .text "readings")]

end Gauges

end TableClient

end DocTable

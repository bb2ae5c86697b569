import DocTable.Proofs.Client.Prepared
import DocTable.Proofs.Store.WholeReading

/-!
# Access paths agree

A filter is answered by a query of the table, by a query of an index or by a scan.  A scan reads the whole
table and answers with the items that the filter selects (`scan_selects`), and the queries agree with it.

A query of the table answers with the same items in the same order (`query_agrees_with_scan`).  A query
of an index answers with those of them that have the index's keys, in the order of its range key, and in
the order of the scan where that leaves a choice (`index_query_agrees_with_scan`).
-/

namespace DocTable.TableClient

set_option autoImplicit false

variable {s : Store} {name : String} {t : TableSchema} {d : Document}

theorem whole_ofPlain (request : Request) : Store.Whole (TypedRequest.ofPlain request) :=
  ⟨rfl, rfl, rfl, rfl, rfl⟩

theorem allHold_eq_selects {terms : List Comparison} (reads : List.Forall₂ Comparison.Reads d terms) :
    Condition.allHold terms = d.selects :=
  funext (Document.allHold_eq_selects reads)

/-- A client's scan answers with the items of the table that the filter selects. -/
theorem scan_selects (table : s.table (some name) = .ok t) (defined : t.hash.isDefined = true)
    (encodes : d.Encodes) (nonempty : d ≠ []) :
    ∃ prepared scanned, (ofTable t name).prepare .scan d [] [] = .ok prepared ∧
      s.scan prepared.input = .ok scanned ∧
      scanned.items = (s.collect t.keyStart).filter d.selects ∧
      scanned.count = scanned.items.length := by
  obtain ⟨request, build, prepared⟩ := (exists_prepare defined name encodes).2
  have built := Request.built_of_build build
  obtain ⟨text, terms, given, parsed, reads⟩ := Request.Built.condition build rfl nonempty
  have noIndex : (TypedRequest.ofPlain request).indexName? = none :=
    built.text?_other (by decide) (by decide)
  have ofTable : s.table (TypedRequest.ofPlain request).tableName? = .ok t := by
    rw [built.tableName]
    exact table
  have filter : Condition.parse ((TypedRequest.ofPlain request).filter?.getD "")
      (TypedRequest.ofPlain request).context = .ok terms := by
    rw [show (TypedRequest.ofPlain request).filter? = some text from given]
    exact parsed
  have scanned := Store.scan_of_whole (whole_ofPlain request) noIndex ofTable filter
  rw [allHold_eq_selects reads] at scanned
  exact ⟨_, _, prepared, scanned, rfl, rfl⟩

/-- A client's query answers with the candidates that the filter selects. -/
theorem query_selects (table : s.table (some name) = .ok t) (defined : t.hash.isDefined = true)
    (encodes : d.Encodes) {i? : Option IndexDefinition}
    (path : t.accessPath d = i?.elim .primary fun i => .index i.name)
    (known : ∀ i, i? = some i → t.index? i.name = some i)
    {hash : AttributeValue} (asked : d.equality? (Store.queriedHash t i?).name = some hash)
    (checked : (Store.queriedHash t i?).check hash = .ok ()) {items : List Item}
    (found : s.candidates t i? hash = .ok items) :
    ∃ prepared queried, (ofTable t name).prepare .query d [] [] = .ok prepared ∧
      Params.text? prepared.request "IndexName" = i?.map IndexDefinition.name ∧
      s.query prepared.input = .ok queried ∧
      queried.items = items.filter d.selects ∧ queried.count = queried.items.length := by
  have nonempty : d ≠ [] := by
    rintro rfl
    cases asked
  obtain ⟨request, build, prepared⟩ := (exists_prepare defined name encodes).1
  have built := Request.built_of_build build
  obtain ⟨text, terms, given, parsed, reads⟩ := Request.Built.condition build rfl nonempty
  have noFilter : (TypedRequest.ofPlain request).filter? = none :=
    built.text?_other (by decide) (by decide)
  have ofTable : s.table (TypedRequest.ofPlain request).tableName? = .ok t := by
    rw [built.tableName]
    exact table
  have named : Params.text? request "IndexName" = i?.map IndexDefinition.name := by
    rw [built.indexName, path]
    cases i? <;> rfl
  have index : Store.index? t (TypedRequest.ofPlain request) = .ok i? := by
    rw [Store.index?, show (TypedRequest.ofPlain request).indexName? = _ from named]
    cases i? with
    | none => rfl
    | some i => simp [known i rfl]
  have queried := Store.query_of_whole (whole_ofPlain request) noFilter given ofTable index parsed
    (Document.hashValue_of_equality reads asked checked) found
  rw [allHold_eq_selects reads] at queried
  exact ⟨_, _, prepared, named, queried, rfl, rfl⟩

/-! ## Queries of the table -/

theorem exists_partitionStart {hash : AttributeValue} (kind : t.hash.kind = "S" ∨ t.hash.kind = "B")
    (checked : t.hash.check hash = .ok ()) : ∃ start, t.partitionStart hash = .ok start := by
  have written : ∃ part, t.hash.part? hash = some part := by
    rw [KeyDefinition.check] at checked
    split at checked
    · rename_i sameKind
      rw [KeyDefinition.part?, if_pos sameKind]
      cases hash with
      | s | raw | b => exact ⟨_, rfl⟩
      | n text =>
        have number : t.hash.kind = "N" := (Option.some.inj sameKind).symm
        rw [number] at kind
        exact absurd kind (by decide)
      | _ => cases sameKind
    · cases checked
  obtain ⟨part, isPart⟩ := written
  have value := StorageKey.value_eq_ok_iff.mpr ⟨part, isPart, rfl⟩
  exact ⟨_, by rw [TableSchema.partitionStart, value]⟩

/-- **A query by the hash key agrees with a scan.**  After any calls on a store whose tables' names hold
no separator, take a table whose hash key is a text or a byte string, and a filter that can be encoded
and whose first equality on the hash key has the kind of the key.  The query and the scan that the
filter is compiled to both succeed, and they answer with the same items in the same order: those of the
table that the filter selects. -/
theorem query_agrees_with_scan {schemas : List (Option TableSchema)} {start : Store}
    (opened : Store.new schemas = .ok start)
    (plainNames : ∀ t, some t ∈ schemas → StorageKey.separator ∉ Text.utf8 t.name)
    (calls : List ItemCall) {name : String} {t : TableSchema}
    (table : (start.run calls).table (some name) = .ok t)
    (kind : t.hash.kind = "S" ∨ t.hash.kind = "B") {d : Document} (encodes : d.Encodes)
    {hash : AttributeValue} (asked : d.equality? t.hash.name = some hash)
    (checked : t.hash.check hash = .ok ()) :
    ∃ query scan queried scanned,
      (ofTable t name).prepare .query d [] [] = .ok query ∧
      (ofTable t name).prepare .scan d [] [] = .ok scan ∧
      (start.run calls).query query.input = .ok queried ∧
      (start.run calls).scan scan.input = .ok scanned ∧
      queried.items = scanned.items ∧ queried.count = scanned.count ∧
      scanned.items = ((start.run calls).collect t.keyStart).filter d.selects := by
  obtain ⟨registeredName, registered⟩ := Store.lookup_of_table table
  have sound : (start.run calls).Sound := (Store.Sound.new opened).run calls
  have defined := Store.isDefined_run opened calls registered
  have notNumber : t.hash.kind ≠ "N" := by
    rcases kind with text | octets
    · rw [text]
      decide
    · rw [octets]
      decide
  have nonempty : d ≠ [] := by
    rintro rfl
    cases asked
  have path : t.accessPath d = .primary := by
    rw [TableSchema.accessPath, if_pos (Document.has_of_equality asked)]
  obtain ⟨start, partition⟩ := exists_partitionStart kind checked
  have candidates : ∀ s : Store, s.candidates t none hash = .ok (s.collect start) := by
    intro s
    rw [Store.candidates, partition]
  obtain ⟨query, queried, prepareQuery, _, doneQuery, items, count⟩ :=
    @query_selects _ _ _ _ table defined encodes none path (fun _ absurd => by cases absurd) _ asked
      checked _ (candidates _)
  obtain ⟨scan, scanned, prepareScan, doneScan, itemsScan, countScan⟩ :=
    scan_selects table defined encodes nonempty
  have same : queried.items = scanned.items := by
    rw [items, itemsScan]
    exact Store.filter_collect_partition sound (Store.plainNames_run opened plainNames calls)
      registered notNumber partition fun item selected => Document.equal_of_selects asked selected
  refine ⟨query, scan, queried, scanned, prepareQuery, prepareScan, doneQuery, doneScan, same, ?_,
    itemsScan⟩
  rw [count, countScan, same]

namespace Albums

/-- A table of albums by artist and title, with an index by genre and length. -/
def schema : TableSchema :=
  ⟨"albums", ⟨"artist", "S"⟩, ⟨"title", "S"⟩,
    [⟨"genres", IndexDefinition.globalKind, ⟨"genre", "S"⟩, ⟨"length", "N"⟩⟩]⟩

/-- No albums. -/
def empty : Store := ⟨[("albums", schema)], []⟩

/-- An album. -/
def album (artist title genre length : String) : Item :=
  [("artist", .s artist), ("genre", .s genre), ("length", .n length), ("title", .s title)]

/-- Puts an album. -/
def put (item : Item) : ItemCall := .put { tableName? := some "albums", item? := some item }

/-- Five albums, one of which has no genre. -/
def calls : List ItemCall :=
  [put (album "bob" "dusk" "jazz" "40"), put (album "ann" "tide" "jazz" "40.0"),
    put (album "ann" "road" "rock" "38"), put (album "ann" "dawn" "jazz" "52"),
    put [("artist", .s "ann"), ("title", .s "live")]]

theorem opened : Store.new [some schema] = .ok empty := rfl

theorem plainNames : ∀ t, some t ∈ [some schema] → StorageKey.separator ∉ Text.utf8 t.name := by
  intro t member
  cases List.mem_singleton.mp member
  decide

/-- The jazz albums of an artist who may not come before another. -/
def filter : Document :=
  [("genre", .text "jazz"), ("artist", .comparison .gte (.text "a")), ("artist", .text "ann")]

theorem encodes : filter.Encodes := by
  intro field member
  simp only [filter, List.mem_cons, List.not_mem_nil, or_false] at member
  rcases member with rfl | rfl | rfl <;> exact ⟨_, rfl⟩

end Albums

/-- The two jazz albums of an artist, by title. -/
theorem query_agrees_with_scan_of_albums :
    ∃ query scan queried scanned,
      (ofTable Albums.schema "albums").prepare .query Albums.filter [] [] = .ok query ∧
      (ofTable Albums.schema "albums").prepare .scan Albums.filter [] [] = .ok scan ∧
      (Albums.empty.run Albums.calls).query query.input = .ok queried ∧
      (Albums.empty.run Albums.calls).scan scan.input = .ok scanned ∧
      queried.items = scanned.items ∧ queried.count = scanned.count ∧
      scanned.items =
        [Albums.album "ann" "dawn" "jazz" "52", Albums.album "ann" "tide" "jazz" "40.0"] := by
  obtain ⟨query, scan, queried, scanned, prepareQuery, prepareScan, doneQuery, doneScan, items, count,
    selected⟩ := query_agrees_with_scan Albums.opened Albums.plainNames Albums.calls
      (show (Albums.empty.run Albums.calls).table (some "albums") = .ok Albums.schema by cbv)
      (.inl rfl) Albums.encodes (show _ = some (.s "ann") from rfl) rfl
  refine ⟨query, scan, queried, scanned, prepareQuery, prepareScan, doneQuery, doneScan, items, count, ?_⟩
  rw [selected]
  cbv

/-! ## Queries of an index -/

theorem index?_of_unique (unique : (t.indexes.map IndexDefinition.name).Nodup) {i : IndexDefinition}
    (member : i ∈ t.indexes) : t.index? i.name = some i := by
  rw [TableSchema.index?]
  cases found : t.indexes.find? fun other => other.name = i.name with
  | none =>
    have absent := List.find?_eq_none.mp found i member
    simp at absent
  | some other =>
    have sameName : other.name = i.name := by simpa using List.find?_some found
    have same := List.inj_on_of_nodup_map unique (List.mem_of_find?_eq_some found) member sameName
    rw [same]

/-- An item that has an index's keys has a range key that is ordered, if it is no unreadable number. -/
theorem hasOrdered_of_hasIndexKey {i : IndexDefinition} (ranged : i.range.isDefined = true) {item : Item}
    (has : Store.hasIndexKey i item = true)
    (readable : ∀ text, Keyed.lookup i.range.name item = some (.n text) →
      ∃ x, Number.Extended.read? text = some x) :
    Store.HasOrdered i.range.name i.range.kind item := by
  rw [Store.hasIndexKey] at has
  split at has
  · rename_i key extracted
    rw [IndexDefinition.extractKey] at extracted
    split at extracted
    · rename_i found
      have inKeys : i.range ∈ i.keys := by
        simp [IndexDefinition.keys, ranged]
      obtain ⟨value, there, checked⟩ := KeyDefinition.has_of_extract found i.range inKeys
      refine ⟨value, there, ?_, ?_⟩
      · rw [KeyDefinition.check] at checked
        split at checked
        · assumption
        · cases checked
      · rintro text rfl
        exact readable text there
    · cases extracted
  · cases has

/-- **A query of an index agrees with a scan up to order.**  After any calls on a store, take a table
whose indexes have different names, and a filter that can be encoded, that does not name the table's
hash key, and for which an index is found on whose hash key its first equality has the kind of the key.
The query that the filter is compiled to names that index and succeeds, and it answers with a permutation
of those items of the scan that have the index's keys.  Without a range key the order is that of the scan.
With one whose numbers in the index can all be read, the items ascend by it, and the items equal to any
one of them by it are in the order of the scan. -/
theorem index_query_agrees_with_scan {schemas : List (Option TableSchema)} {start : Store}
    (opened : Store.new schemas = .ok start) (calls : List ItemCall) {name : String} {t : TableSchema}
    (table : (start.run calls).table (some name) = .ok t)
    (unique : (t.indexes.map IndexDefinition.name).Nodup) {d : Document} (encodes : d.Encodes)
    (lacks : d.has t.hash.name = false) {i : IndexDefinition} (picked : t.findIndex? d = some i)
    {hash : AttributeValue} (asked : d.equality? i.hash.name = some hash)
    (checked : i.hash.check hash = .ok ()) :
    ∃ query scan queried scanned,
      (ofTable t name).prepare .query d [] [] = .ok query ∧
      (ofTable t name).prepare .scan d [] [] = .ok scan ∧
      Params.text? query.request "IndexName" = some i.name ∧
      (start.run calls).query query.input = .ok queried ∧
      (start.run calls).scan scan.input = .ok scanned ∧
      scanned.items = ((start.run calls).collect t.keyStart).filter d.selects ∧
      queried.items.Perm (scanned.items.filter (Store.hasIndexKey i)) ∧
      (i.range.isDefined = false →
        queried.items = scanned.items.filter (Store.hasIndexKey i)) ∧
      (i.range.isDefined = true →
        (∀ item ∈ (start.run calls).collect t.keyStart, Store.hasIndexKey i item = true →
          ∀ text, Keyed.lookup i.range.name item = some (.n text) →
            ∃ x, Number.Extended.read? text = some x) →
        (queried.items.Pairwise fun a b =>
          ∃ order, Store.orderBy? i.range.name a b = some order ∧ order ≠ .gt) ∧
        ∀ item ∈ queried.items,
          queried.items.filter (fun other => Store.orderBy? i.range.name item other == some .eq) =
            (scanned.items.filter (Store.hasIndexKey i)).filter
              fun other => Store.orderBy? i.range.name item other == some .eq) := by
  obtain ⟨registeredName, registered⟩ := Store.lookup_of_table table
  have defined := Store.isDefined_run opened calls registered
  have nonempty : d ≠ [] := by
    rintro rfl
    cases asked
  have path : t.accessPath d = .index i.name := by
    rw [TableSchema.accessPath, lacks, picked]
    rfl
  have known := index?_of_unique unique (List.mem_of_find?_eq_some picked)
  have named : ∀ j, some i = some j → t.index? j.name = some j := by
    rintro j same
    cases same
    exact known
  obtain ⟨query, queried, prepareQuery, index, doneQuery, items, count⟩ :=
    @query_selects (start.run calls) _ _ _ table defined encodes (some i) path named _ asked checked _ rfl
  obtain ⟨scan, scanned, prepareScan, doneScan, itemsScan, countScan⟩ :=
    scan_selects table defined encodes nonempty
  have both : scanned.items.filter (Store.hasIndexKey i) =
      (((start.run calls).collect t.keyStart).filter (Store.hasIndexKey i)).filter d.selects := by
    rw [itemsScan, List.filter_comm]
  refine ⟨query, scan, queried, scanned, prepareQuery, prepareScan, index, doneQuery, doneScan,
    itemsScan, ?_, ?_, ?_⟩
  · rw [items, both]
    split
    · exact (Sorting.sort_perm _ _).filter _
    · exact .refl _
  · intro unranged
    rw [items, both, unranged]
    rfl
  · intro ranged readable
    rw [items, both, ranged, if_pos rfl]
    have ordered : ∀ item ∈ ((start.run calls).collect t.keyStart).filter (Store.hasIndexKey i),
        Store.HasOrdered i.range.name i.range.kind item := by
      intro item member
      obtain ⟨inTable, has⟩ := List.mem_filter.mp member
      exact hasOrdered_of_hasIndexKey ranged has (readable item inTable has)
    obtain ⟨perm, sorted, ties⟩ := Store.sortBy_spec ordered
    refine ⟨sorted.sublist List.filter_sublist, fun item member => ?_⟩
    have inIndex := perm.subset (List.mem_filter.mp member).1
    rw [List.filter_comm, ties item inIndex, List.filter_comm]

/-- The three jazz albums by length; two that are equally long stand in the order of the table. -/
theorem index_query_agrees_with_scan_of_albums :
    let genres : IndexDefinition :=
      ⟨"genres", IndexDefinition.globalKind, ⟨"genre", "S"⟩, ⟨"length", "N"⟩⟩
    let jazz : Document := [("genre", .text "jazz")]
    ∃ query queried, (ofTable Albums.schema "albums").prepare .query jazz [] [] = .ok query ∧
      Params.text? query.request "IndexName" = some "genres" ∧
      (Albums.empty.run Albums.calls).query query.input = .ok queried ∧
      queried.items.Perm [Albums.album "ann" "dawn" "jazz" "52",
        Albums.album "ann" "tide" "jazz" "40.0", Albums.album "bob" "dusk" "jazz" "40"] ∧
      (queried.items.Pairwise fun a b =>
        ∃ order, Store.orderBy? genres.range.name a b = some order ∧ order ≠ .gt) ∧
      queried.items.filter (fun other =>
          Store.orderBy? "length" (Albums.album "bob" "dusk" "jazz" "40") other == some .eq) =
        [Albums.album "ann" "tide" "jazz" "40.0", Albums.album "bob" "dusk" "jazz" "40"] := by
  intro genres jazz
  have encodes : jazz.Encodes := by
    intro field member
    cases List.mem_singleton.mp member
    exact ⟨_, rfl⟩
  have table : (Albums.empty.run Albums.calls).table (some "albums") = .ok Albums.schema := by cbv
  have collected : (Albums.empty.run Albums.calls).collect Albums.schema.keyStart =
      [Albums.album "ann" "dawn" "jazz" "52", [("artist", .s "ann"), ("title", .s "live")],
        Albums.album "ann" "road" "rock" "38", Albums.album "ann" "tide" "jazz" "40.0",
        Albums.album "bob" "dusk" "jazz" "40"] := by
    cbv
  obtain ⟨query, scan, queried, scanned, prepareQuery, _, index, doneQuery, _, selected, perm, _,
    ordered⟩ := @index_query_agrees_with_scan _ _ Albums.opened Albums.calls _ _ table (by decide) _
      encodes rfl genres rfl (.s "jazz") rfl rfl
  have matching : (scanned.items.filter (Store.hasIndexKey genres)) =
      [Albums.album "ann" "dawn" "jazz" "52", Albums.album "ann" "tide" "jazz" "40.0",
        Albums.album "bob" "dusk" "jazz" "40"] := by
    rw [selected, collected]
    cbv
  rw [matching] at perm ordered
  rw [collected] at ordered
  obtain ⟨sorted, ties⟩ := ordered rfl (by
    intro item member _ text found
    simp only [List.mem_cons, List.not_mem_nil, or_false] at member
    rcases member with rfl | rfl | rfl | rfl | rfl <;> cases found <;> exact ⟨_, rfl⟩)
  refine ⟨query, queried, prepareQuery, index, doneQuery, perm, sorted, ?_⟩
  have orders : [Albums.album "ann" "dawn" "jazz" "52", Albums.album "ann" "tide" "jazz" "40.0",
      Albums.album "bob" "dusk" "jazz" "40"].map
        (Store.orderBy? "length" (Albums.album "bob" "dusk" "jazz" "40")) =
      [some .lt, some .eq, some .eq] := by
    decide +kernel
  simp only [List.map_cons, List.map_nil, List.cons.injEq] at orders
  refine (ties _ (perm.symm.subset (by simp))).trans ?_
  simp [genres, orders]

end DocTable.TableClient

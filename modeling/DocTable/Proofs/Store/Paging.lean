import DocTable.Proofs.Store.Collected
import DocTable.Proofs.Store.KeyIdentity
import Mathlib

/-!
# Reading in pages

Reading with a limit gives pages, and each page but the last one ends with the key to go on from.  A
page that starts after such a key starts right after the item that has ended the page before it: the key
finds that item again and no other one, since no two items have the same slot and, as long as no key of
the table is a number, equal keys have the same slot (`after?_lastKey`).

A page that ends early is the start of what is read without a limit (`limited_of_readItems`), and the rest is
read as if it stood alone (`readItems_eq_map`).  So the pages together are what is read without a limit
(`pages_read_whole`).
-/

namespace DocTable.Store

set_option autoImplicit false

/-! ## Keys to go on from -/

section LastKey

variable {t : TableSchema} {i? : Option IndexDefinition} {item : Item} {slot : Slot}

/-- The key to go on from has the table's key of its item. -/
theorem lookup_lastKey (addressed : t.slot? item = some slot) :
    ∀ k ∈ t.keys, Keyed.lookup k.name (lastKey t i? item) = Keyed.lookup k.name item := by
  intro k member
  obtain ⟨key, extracted⟩ := TableSchema.extractKey_of_slot? addressed
  have inKey := KeyDefinition.lookup_extract extracted k member
  rw [lastKey.eq_def, extracted]
  cases i? with
  | none => exact inKey
  | some i =>
    dsimp only [Except.toOption, Option.getD_some]
    split
    · rename_i more found
      rw [IndexDefinition.extractKey] at found
      split at found
      · rename_i extractedMore
        cases found
        exact Keyed.lookup_insertAll_of_agree inKey (KeyDefinition.extract_agree extractedMore)
      · cases found
    · exact inKey

theorem slot?_lastKey (addressed : t.slot? item = some slot) :
    t.slot? (lastKey t i? item) = some slot :=
  (TableSchema.slot?_congr (lookup_lastKey addressed)).trans addressed

theorem lastKey_ne_nil (addressed : t.slot? item = some slot) : lastKey t i? item ≠ [] := by
  intro empty
  have found : t.slot? (lastKey t i? item) = some slot := slot?_lastKey addressed
  obtain ⟨key, extracted⟩ := TableSchema.extractKey_of_slot? (empty ▸ found)
  obtain ⟨value, missing, _⟩ := KeyDefinition.has_of_extract extracted _ t.hash_mem_keys
  cases missing

theorem after?_append {key : Item} {before rest : List Item}
    (absent : ∀ other ∈ before, hasKey t key other = false) (here : hasKey t key item = true) :
    after? t key (before ++ item :: rest) = some rest := by
  induction before with
  | nil => rw [List.nil_append, after?, if_pos here]
  | cons first before ih =>
    have notHere : ¬hasKey t key first = true := by simp [absent first List.mem_cons_self]
    rw [List.cons_append, after?, if_neg notHere,
      ih fun other member => absent other (List.mem_cons_of_mem _ member)]

/-- Going on from an item goes on right after it. -/
theorem after?_lastKey (plain : ∀ k ∈ t.keys, k.kind ≠ "N") {before rest : List Item}
    (distinct : Distinct t (before ++ item :: rest)) :
    after? t (lastKey t i? item) (before ++ item :: rest) = some rest := by
  obtain ⟨slot, addressed⟩ := distinct.addressed item (by simp)
  have atKey : t.slot? (lastKey t i? item) = some slot := slot?_lastKey addressed
  refine after?_append (fun other member => ?_)
    ((TableSchema.hasKey_iff plain addressed atKey).mpr rfl)
  obtain ⟨otherSlot, addressedOther⟩ := distinct.addressed other (by simp [member])
  rw [Bool.eq_false_iff]
  intro equal
  have same := (TableSchema.hasKey_iff plain addressedOther atKey).mp equal
  have nodup := distinct.nodup
  rw [List.map_append, List.map_cons, List.nodup_append] at nodup
  refine nodup.2.2 _ (List.mem_map_of_mem member) _ List.mem_cons_self ?_
  rw [addressedOther, addressed, same]

end LastKey

/-! ## Pages in the making -/

namespace Page

/-- A page before anything is read. -/
def empty : Page := ⟨[], 0, 0, none⟩

/-- A page that goes on with another. -/
def join (first second : Page) : Page :=
  ⟨first.items ++ second.items, first.count + second.count, first.scanned + second.scanned,
    second.lastKey?⟩

theorem join_empty {page : Page} (unfinished : page.lastKey? = none) : page.join empty = page := by
  obtain ⟨items, count, scanned, lastKey?⟩ := page
  cases unfinished
  simp [join, empty]

theorem empty_join (page : Page) : empty.join page = page := by
  simp [join, empty]

theorem join_assoc (first second third : Page) :
    (first.join second).join third = first.join (second.join third) := by
  simp [join, Nat.add_assoc]

end Page

theorem visit_eq_map {rule : PageRule} {page : Page} (unfinished : page.lastKey? = none)
    (item : Item) : visit rule page item = (visit rule .empty item).map page.join := by
  obtain ⟨items, count, scanned, lastKey?⟩ := page
  cases unfinished
  unfold visit
  split
  · simp [Except.map, Page.join, Page.empty]
  · split <;> simp [Except.map, Page.join, Page.empty]

theorem visit_spec {rule : PageRule} {page after : Page} {item : Item}
    (visited : visit rule page item = .ok after) :
    after.count = page.count + 1 ∧ after.lastKey? = page.lastKey? := by
  unfold visit at visited
  split at visited
  · cases visited
    exact ⟨rfl, rfl⟩
  · split at visited
    · cases visited
    · cases visited
      exact ⟨rfl, rfl⟩

/-- A page that has looked at one item. -/
def Page.seen : Page := ⟨[], 0, 1, none⟩

theorem isFull_of_unlimited {rule : PageRule} (unlimited : rule.limit? = none) (count : Nat) :
    rule.isFull count = false := by
  rw [PageRule.isFull, unlimited]

theorem readItems_cons {rule : PageRule} (unlimited : rule.limit? = none) {page : Page}
    (unfinished : page.lastKey? = none) (item : Item) (rest : List Item) :
    readItems rule page (item :: rest) =
      if Condition.allHold rule.filter item then
        visit rule (page.join .seen) item >>= fun after => readItems rule after rest
      else readItems rule (page.join .seen) rest := by
  have counted : { page with scanned := page.scanned + 1 } = page.join .seen := by
    simp [Page.join, Page.seen, unfinished]
  rw [readItems]
  simp only [counted, isFull_of_unlimited unlimited, Bool.false_and, Bool.false_eq_true, if_false]
  split
  · cases visit rule (page.join .seen) item <;> rfl
  · rfl

theorem lastKey?_of_readItems {rule : PageRule} (unlimited : rule.limit? = none) {page whole : Page}
    {items : List Item} (unfinished : page.lastKey? = none)
    (done : readItems rule page items = .ok whole) : whole.lastKey? = none := by
  induction items generalizing page with
  | nil =>
    cases done
    exact unfinished
  | cons item rest ih =>
    rw [readItems_cons unlimited unfinished] at done
    split at done
    · obtain ⟨next, visited, done⟩ := Outcome.ok_of_bind done
      exact ih (visit_spec visited).2 done
    · exact ih rfl done

/-- Without a limit, what is read onto a page is what is read onto an empty one, after the page. -/
theorem readItems_eq_map {rule : PageRule} (unlimited : rule.limit? = none) {page : Page}
    (unfinished : page.lastKey? = none) (items : List Item) :
    readItems rule page items = (readItems rule .empty items).map page.join := by
  induction items generalizing page with
  | nil => simp [readItems, Except.map, Page.join_empty unfinished]
  | cons item rest ih =>
    rw [readItems_cons unlimited unfinished, readItems_cons unlimited rfl, Page.empty_join]
    split
    · rw [@visit_eq_map rule (page.join .seen) rfl, @visit_eq_map rule .seen rfl]
      cases visited : visit rule .empty item with
      | error cause => rfl
      | ok first =>
        have unfinishedFirst : first.lastKey? = none := (visit_spec visited).2
        change readItems rule ((page.join .seen).join first) rest =
          (readItems rule (Page.seen.join first) rest).map page.join
        rw [@ih ((page.join .seen).join first) unfinishedFirst,
          @ih (Page.seen.join first) unfinishedFirst]
        cases readItems rule .empty rest with
        | error cause => rfl
        | ok tail => simp [Except.map, Page.join_assoc]
    · rw [@ih (page.join .seen) rfl, @ih .seen rfl]
      cases readItems rule .empty rest with
      | error cause => rfl
      | ok tail => simp [Except.map, Page.join_assoc]

/-! ## Reading with a limit -/

/-- How many matching items a page has at most. -/
def pageLength (limit : Int) : Nat := (max 1 limit).toNat

theorem pageLength_pos (limit : Int) : 0 < pageLength limit := by
  rw [pageLength]
  omega

theorem isFull_iff {rule : PageRule} {limit : Int} (limited : rule.limit? = some limit) {count : Nat}
    (counted : 0 < count) : rule.isFull count = true ↔ pageLength limit ≤ count := by
  rw [PageRule.isFull, limited, decide_eq_true_eq, pageLength]
  omega

theorem readItems_of_fails {rule : PageRule} {item : Item}
    (fails : ¬Condition.allHold rule.filter item = true) (page : Page) (rest : List Item) :
    readItems rule page (item :: rest) =
      readItems rule { page with scanned := page.scanned + 1 } rest := by
  rw [readItems, if_neg fails]

theorem readItems_of_visit {rule : PageRule} {page next : Page} {item : Item}
    (holds : Condition.allHold rule.filter item = true)
    (visited : visit rule { page with scanned := page.scanned + 1 } item = .ok next)
    (rest : List Item) :
    readItems rule page (item :: rest) =
      if rule.isFull next.count && !rest.isEmpty then
        .ok { next with lastKey? := some (lastKey rule.table rule.index? item) }
      else readItems rule next rest := by
  rw [readItems]
  simp only [holds, if_true, visited]

/-- How reading goes with a limit where it gives a whole without one: all is read as well, or the page
ends early, with as many matching items as it may have, and the rest is still to be read. -/
inductive Limited (rule : PageRule) (limit : Int) (page : Page) (items : List Item) (whole : Page) :
    Prop where
  | all (read : readItems { rule with limit? := some limit } page items = .ok whole)
  | early (before rest : List Item) (item : Item) (part : Page)
      (split : items = before ++ item :: rest)
      (read : readItems { rule with limit? := some limit } page items =
        .ok { part with lastKey? := some (lastKey rule.table rule.index? item) })
      (full : part.count = pageLength limit) (unfinished : part.lastKey? = page.lastKey?)
      (left : readItems rule part rest = .ok whole)

/-- Where a page goes on with the rest after an item, so does the way in which it is read. -/
theorem Limited.cons {rule : PageRule} {limit : Int} {page next whole : Page} {item : Item}
    {rest : List Item} (unfinished : next.lastKey? = page.lastKey?)
    (goesOn : readItems { rule with limit? := some limit } page (item :: rest) =
      readItems { rule with limit? := some limit } next rest)
    (limited : Limited rule limit next rest whole) : Limited rule limit page (item :: rest) whole := by
  cases limited with
  | all read => exact .all (goesOn.trans read)
  | early before rest' last part split read full unfinishedNext left =>
    refine .early (item :: before) rest' last part ?_ (goesOn.trans read) full
      (unfinishedNext.trans unfinished) left
    rw [split, List.cons_append]

theorem Limited.of_visit {rule : PageRule} {limit : Int} {page next whole : Page} {item : Item}
    {rest : List Item} (short : page.count < pageLength limit)
    (holds : Condition.allHold rule.filter item = true)
    (visited : visit rule { page with scanned := page.scanned + 1 } item = .ok next)
    (left : readItems rule next rest = .ok whole)
    (goOn : next.count < pageLength limit → Limited rule limit next rest whole) :
    Limited rule limit page (item :: rest) whole := by
  obtain ⟨count, unfinished⟩ := visit_spec visited
  have counted : next.count = page.count + 1 := count
  have step := @readItems_of_visit { rule with limit? := some limit } page next item holds visited rest
  have full := @isFull_iff { rule with limit? := some limit } limit rfl next.count (by omega)
  by_cases reached : pageLength limit ≤ next.count
  · rw [full.mpr reached] at step
    -- a page that gets full with the last item does not end early
    cases rest with
    | nil => exact .all (step.trans left)
    | cons following others =>
      exact .early [] (following :: others) item next rfl step (by omega) unfinished left
  · rw [Bool.eq_false_iff.mpr (mt full.mp reached)] at step
    exact (goOn (by omega)).cons unfinished step

/-- Reading with a limit either reads all or ends early. -/
theorem limited_of_readItems {rule : PageRule} (unlimited : rule.limit? = none) (limit : Int)
    {page whole : Page} {items : List Item} (short : page.count < pageLength limit)
    (done : readItems rule page items = .ok whole) : Limited rule limit page items whole := by
  induction items generalizing page with
  | nil => exact .all done
  | cons item rest ih =>
    by_cases holds : Condition.allHold rule.filter item = true
    · cases visited : visit rule { page with scanned := page.scanned + 1 } item with
      | error cause =>
        rw [readItems] at done
        simp [holds, visited] at done
      | ok next =>
        rw [readItems_of_visit holds visited, isFull_of_unlimited unlimited] at done
        exact .of_visit short holds visited done fun shortNext => ih shortNext done
    · rw [readItems_of_fails holds] at done
      have limited := @ih { page with scanned := page.scanned + 1 } short done
      have goesOn := @readItems_of_fails { rule with limit? := some limit } item holds page rest
      refine limited.cons ?_ goesOn
      rfl

/-! ## Pages of a request -/

/-- The pages of a request, each but the first starting after the last key of the one before it. -/
inductive Pages (read : TypedRequest → Except StoreError PageOutput) (r : TypedRequest) :
    Option Item → List PageOutput → Prop where
  | last {start? : Option Item} {page : PageOutput}
      (done : read { r with exclusiveStartKey? := start? } = .ok page)
      (ended : page.lastKey? = none) : Pages read r start? [page]
  | more {start? : Option Item} {page : PageOutput} {key : Item} {rest : List PageOutput}
      (done : read { r with exclusiveStartKey? := start? } = .ok page)
      (next : page.lastKey? = some key) (tail : Pages read r (some key) rest) :
      Pages read r start? (page :: rest)

/-- Pages with a limit are together what is read without one: nothing is lost or repeated, there is at
most one page more than there are matching items, and every page but the last is full. -/
structure AddUp (limit : Int) (items : List Item) (count scanned : Nat) (pages : List PageOutput) :
    Prop where
  length : pages.length ≤ count + 1
  items : pages.flatMap PageOutput.items = items
  count : (pages.map PageOutput.count).sum = count
  scanned : (pages.map PageOutput.scanned).sum = scanned
  full : ∀ page ∈ pages.dropLast, (page.count : Int) = max 1 limit

/-- How the pages of a request are read. -/
def pageRule (t : TableSchema) (i? : Option IndexDefinition) (r : TypedRequest)
    (filter : List Comparison) : PageRule :=
  ⟨t, i?, filter, r.projection?, r.context, r.limit?, r.select == "COUNT"⟩

/-- The answer of a page. -/
def pageOutput (t : TableSchema) (r : TypedRequest) (page : Page) : PageOutput :=
  ⟨page.items, page.count, page.scanned, page.lastKey?, r.capacity? t⟩

theorem readPage_eq_map {t : TableSchema} {i? : Option IndexDefinition} {r : TypedRequest}
    {filter : List Comparison} (fromStart : r.exclusiveStartKey? = none)
    (parsed : Condition.parse (r.filter?.getD "") r.context = .ok filter) (items : List Item) :
    readPage t i? r items =
      (readItems (pageRule t i? r filter) .empty items).map (pageOutput t r) := by
  simp only [readPage, fromStart, Option.getD_none, parsed, pure, Except.pure, bind, Except.bind]
  cases read : readItems (pageRule t i? r filter) .empty items with
  | error cause =>
    rw [pageRule, Page.empty] at read
    rw [read]
    rfl
  | ok page =>
    rw [pageRule, Page.empty] at read
    rw [read]
    rfl

/-- What is left to read from a start on: all, or what follows an item. -/
def Starts (t : TableSchema) (i? : Option IndexDefinition) (items : List Item) (start? : Option Item)
    (rest : List Item) : Prop :=
  (start? = none ∧ rest = items) ∨
    ∃ before item, items = before ++ item :: rest ∧ start? = some (lastKey t i? item)

theorem Starts.readPage_eq {t : TableSchema} {i? : Option IndexDefinition} {r : TypedRequest}
    {items rest : List Item} (plain : ∀ k ∈ t.keys, k.kind ≠ "N") (distinct : Distinct t items)
    (starts : Starts t i? items r.exclusiveStartKey? rest) :
    readPage t i? r items = readPage t i? { r with exclusiveStartKey? := none } rest := by
  rcases starts with ⟨fromStart, rfl⟩ | ⟨before, item, rfl, after⟩
  · have same : { r with exclusiveStartKey? := none } = r := by
      cases r
      cases fromStart
      rfl
    rw [same]
  · obtain ⟨slot, addressed⟩ := distinct.addressed item (by simp)
    have found : after? t (lastKey t i? item) (before ++ item :: rest) = some rest :=
      after?_lastKey plain distinct
    cases key : lastKey t i? item with
    | nil => exact absurd key (lastKey_ne_nil addressed)
    | cons entry others =>
      rw [key] at found
      simp only [readPage, after, key, found, Option.getD_some, Option.getD_none]
      rfl

theorem Starts.next {t : TableSchema} {i? : Option IndexDefinition} {items before rest : List Item}
    {start? : Option Item} {item : Item} (starts : Starts t i? items start? (before ++ item :: rest)) :
    Starts t i? items (some (lastKey t i? item)) rest := by
  rcases starts with ⟨_, rfl⟩ | ⟨earlier, first, rfl, _⟩
  · exact .inr ⟨before, item, rfl, rfl⟩
  · exact .inr ⟨earlier ++ first :: before, item, by simp, rfl⟩

theorem Pages.ne_nil {read : TypedRequest → Except StoreError PageOutput} {r : TypedRequest}
    {start? : Option Item} {pages : List PageOutput} (isPages : Pages read r start? pages) :
    pages ≠ [] := by
  cases isPages <;> exact List.cons_ne_nil _ _

theorem AddUp.singleton (limit : Int) (page : PageOutput) :
    AddUp limit page.items page.count page.scanned [page] :=
  ⟨by simp, by simp, by simp, by simp, by simp⟩

theorem AddUp.cons {limit : Int} {items : List Item} {count scanned : Nat} {page : PageOutput}
    {pages : List PageOutput} (isFull : page.count = pageLength limit) (nonempty : pages ≠ [])
    (adds : AddUp limit items count scanned pages) :
    AddUp limit (page.items ++ items) (page.count + count) (page.scanned + scanned)
      (page :: pages) := by
  have filled : 1 ≤ page.count ∧ (page.count : Int) = max 1 limit := by
    rw [isFull, pageLength]
    omega
  refine ⟨?_, ?_, ?_, ?_, ?_⟩
  · have length := adds.length
    rw [List.length_cons]
    omega
  · rw [List.flatMap_cons, adds.items]
  · rw [List.map_cons, List.sum_cons, adds.count]
  · rw [List.map_cons, List.sum_cons, adds.scanned]
  · rw [List.dropLast_cons_of_ne_nil nonempty]
    intro other member
    rcases List.mem_cons.mp member with rfl | there
    · exact filled.2
    · exact adds.full other there

/-- The pages from a start on add up to what is read from there without a limit. -/
theorem pages_of_starts {s : Store} {reading : Reading} {r : TypedRequest} {t : TableSchema}
    {i? : Option IndexDefinition} {items rest : List Item} {filter : List Comparison}
    {start? : Option Item} {tail : Page} (plain : ∀ k ∈ t.keys, k.kind ≠ "N")
    (considers : s.Considers reading r t i? items)
    (parsed : Condition.parse (r.filter?.getD "") r.context = .ok filter) (limit : Int)
    (starts : Starts t i? items start? rest)
    (done : readItems (pageRule t i? { r with limit? := none } filter) .empty rest = .ok tail) :
    ∃ pages, Pages (s.read reading) { r with limit? := some limit } start? pages ∧
      AddUp limit tail.items tail.count tail.scanned pages := by
  let limited : TypedRequest := { r with limit? := some limit }
  have read : s.read reading { limited with exclusiveStartKey? := start? } =
      (readItems (pageRule t i? limited filter) .empty rest).map (pageOutput t limited) := by
    refine (considers.2 (some limit) start?).trans ?_
    refine (Starts.readPage_eq plain considers.1 starts).trans ?_
    exact @readPage_eq_map t i? { limited with exclusiveStartKey? := none } filter rfl parsed rest
  rcases limited_of_readItems rfl limit (pageLength_pos limit) done with
    all | ⟨before, rest', item, part, split, early, count, unfinished, left⟩
  · refine ⟨[pageOutput t limited tail], .last (read.trans ?_) ?_,
      AddUp.singleton limit (pageOutput t limited tail)⟩
    · exact congrArg (Except.map _) all
    · exact lastKey?_of_readItems rfl rfl done
  · rw [readItems_eq_map rfl unfinished] at left
    obtain ⟨others, doneRest, rfl⟩ := Outcome.ok_of_map left
    obtain ⟨pages, isPages, adds⟩ :=
      pages_of_starts plain considers parsed limit (split ▸ starts).next doneRest
    let page : Page := { part with lastKey? := some (lastKey t i? item) }
    refine ⟨pageOutput t limited page :: pages,
      .more (read.trans (congrArg (Except.map _) early)) rfl isPages, ?_⟩
    exact @AddUp.cons limit _ _ _ (pageOutput t limited page) pages count isPages.ne_nil adds
termination_by rest.length
decreasing_by
  rw [split, List.length_append, List.length_cons]
  omega

theorem plainNames_run {schemas : List (Option TableSchema)} {start : Store}
    (opened : Store.new schemas = .ok start)
    (plain : ∀ t, some t ∈ schemas → StorageKey.separator ∉ Text.utf8 t.name)
    (calls : List ItemCall) : (start.run calls).PlainNames := by
  intro name t found
  rw [tables_run] at found
  rcases lookup_register (new_eq_ok opened).1 found with before | ⟨member, _⟩
  · cases before
  · exact plain t member

/-- **Reading in pages loses and repeats nothing.**  After any calls on a store whose tables' names hold
no separator, let a query or a scan of a table without number keys succeed with neither a limit nor a
start.  With any limit, going on from the last key of each page until there is none ends, no page fails,
and the pages are together what was read without a limit. -/
theorem pages_read_whole {schemas : List (Option TableSchema)} {start : Store}
    (opened : Store.new schemas = .ok start)
    (plainNames : ∀ t, some t ∈ schemas → StorageKey.separator ∉ Text.utf8 t.name)
    (calls : List ItemCall) (reading : Reading) {r : TypedRequest} {t : TableSchema}
    {whole : PageOutput} (unlimited : r.limit? = none) (fromStart : r.exclusiveStartKey? = none)
    (table : (start.run calls).table r.tableName? = .ok t)
    (kinds : ∀ k ∈ t.keys, k.kind = "S" ∨ k.kind = "B")
    (done : (start.run calls).read reading r = .ok whole) (limit : Int) :
    ∃ pages, Pages ((start.run calls).read reading) { r with limit? := some limit } none pages ∧
      AddUp limit whole.items whole.count whole.scanned pages := by
  have sound : (start.run calls).Sound := (Sound.new opened).run calls
  obtain ⟨u, i?, items, tableU, considers⟩ :=
    considers_of_read sound (plainNames_run opened plainNames calls) done
  rw [table] at tableU
  cases tableU
  have plain : ∀ k ∈ t.keys, k.kind ≠ "N" := by
    intro k member number
    rcases kinds k member with text | octets
    · exact absurd (text.symm.trans number) (by decide)
    · exact absurd (octets.symm.trans number) (by decide)
  have same : { r with limit? := none, exclusiveStartKey? := none } = r := by
    rw [← unlimited, ← fromStart]
  have page : readPage t i? r items = .ok whole := by
    rw [← done, ← same]
    exact (considers.2 none none).symm
  cases parsed : Condition.parse (r.filter?.getD "") r.context with
  | error cause =>
    simp only [readPage, fromStart, Option.getD_none, parsed, pure, Except.pure, bind, Except.bind]
      at page
    cases page
  | ok filter =>
    rw [readPage_eq_map fromStart parsed] at page
    obtain ⟨tail, doneItems, rfl⟩ := Outcome.ok_of_map page
    refine pages_of_starts plain considers parsed limit (.inl ⟨rfl, rfl⟩) ?_
    rw [← doneItems, ← unlimited]

namespace Library

/-- A table of books by author and title, with an index by shelf. -/
def books : TableSchema :=
  ⟨"books", ⟨"author", "S"⟩, ⟨"title", "S"⟩, [⟨"shelves", "GSI", ⟨"shelf", "N"⟩, .none⟩]⟩

/-- A library without books. -/
def empty : Store := ⟨[("books", books)], []⟩

/-- A book that stands on a shelf. -/
def book (author title shelf : String) : Item :=
  [("author", .s author), ("shelf", .n shelf), ("title", .s title)]

/-- Puts a book. -/
def put (item : Item) : ItemCall := .put { tableName? := some "books", item? := some item }

/-- The calls that fill a library: three books that stand on shelves, and a lent one. -/
def calls : List ItemCall :=
  [put (book "bob" "b" "1"), put [("author", .s "ann"), ("title", .s "a")], put (book "ann" "c" "2"),
    put (book "ann" "b" "1")]

/-- Scans the books on the shelves. -/
def scan : TypedRequest := { tableName? := some "books", indexName? := some "shelves" }

/-- The books on the shelves, in the order of the table's key. -/
def onShelves : List Item := [book "ann" "b" "1", book "ann" "c" "2", book "bob" "b" "1"]

end Library

/-- The three books on the shelves, read on pages of two. -/
theorem pages_read_whole_of_library :
    (Library.empty.run Library.calls).read .scan Library.scan =
      .ok ⟨Library.onShelves, 3, 3, none, none⟩ ∧
    ∃ pages, Pages ((Library.empty.run Library.calls).read .scan)
        { Library.scan with limit? := some 2 } none pages ∧
      AddUp 2 Library.onShelves 3 3 pages := by
  have opened : Store.new [some Library.books] = .ok Library.empty := rfl
  have plainNames : ∀ t, some t ∈ [some Library.books] → StorageKey.separator ∉ Text.utf8 t.name := by
    intro t member
    cases List.mem_singleton.mp member
    decide
  have kinds : ∀ k ∈ Library.books.keys, k.kind = "S" ∨ k.kind = "B" := by decide
  have done : (Library.empty.run Library.calls).read .scan Library.scan =
      .ok ⟨Library.onShelves, 3, 3, none, none⟩ := by
    cbv
  exact ⟨done, pages_read_whole opened plainNames Library.calls .scan rfl rfl rfl kinds done 2⟩

end DocTable.Store

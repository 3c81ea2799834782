import DocCompiler.Proofs.Annotation.Reading
import DocCompiler.Proofs.Data.Registry

/-!
Values and tags as they are read on the levels of nesting. Each reader takes the texts that a tree can
be written as and gives the tree, as long as the levels that are left suffice; else it refuses to go
deeper.
-/

namespace DocCompiler.Annotation

open Text

theorem Enclosed.head {opening close : Char} {pieces : List (List Char)} {text : List Char}
    (h : Enclosed opening close pieces text) : ∃ rest, text = opening :: rest := by
  cases h with
  | empty => exact ⟨_, rfl⟩
  | list => exact ⟨_, rfl⟩

theorem Enclosed.head_append {opening close : Char} {pieces : List (List Char)} {text : List Char}
    (h : Enclosed opening close pieces text) (rest : List Char) :
    (text ++ rest).head? = some opening := by
  obtain ⟨more, rfl⟩ := h.head
  rfl

/-- What stands behind the name of a tag with arguments starts with a space, a tab or the mark that
opens the arguments. -/
theorem stops_of_arguments {test : Char → Bool} {blanks arguments : List Char}
    (hblanks : ∀ c ∈ blanks, isInlineBlank c = true) (hopening : arguments.head? = some '(')
    (htest : ∀ c ∈ [' ', '\t', '('], test c = false) : Stops test (blanks ++ arguments) := by
  intro c hc
  refine htest c ?_
  cases blanks with
  | nil =>
      rw [List.nil_append, hopening] at hc
      obtain rfl := Option.some.inj hc
      simp
  | cons other blanks =>
      obtain rfl := Option.some.inj hc
      have hother : other = ' ' ∨ other = '\t' := by
        simpa [isInlineBlank] using hblanks other List.mem_cons_self
      simp only [List.mem_cons]
      tauto

theorem namespaceMark_eq_nil {text : List Char} (h : Stops (· == '\\') text) :
    namespaceMark text = [] := by
  unfold namespaceMark
  split
  · simpa using h.head
  · rfl

theorem Node.Prints.head {node : Node} {text : List Char} (h : node.Prints text) :
    ∃ rest, text = '@' :: rest := by
  obtain ⟨tag, attributes, children, line, column⟩ := node
  obtain ⟨base, name, -, -, ⟨-, -, rfl⟩ | ⟨_, _, _, _, -, -, -, -, rfl⟩⟩ := h
  · exact ⟨_, rfl⟩
  · exact ⟨_, rfl⟩

theorem Node.Prints.ne_nil {node : Node} {text : List Char} (h : node.Prints text) : text ≠ [] := by
  obtain ⟨rest, rfl⟩ := Node.Prints.head h
  simp

theorem SpellsKey.begins {key : Datum} {name : List Char} (h : SpellsKey key name) : Begins name := by
  cases h with
  | bare hname => exact hname.begins
  | quoted => exact begins_cons (by decide) (by decide) (by decide)

theorem Keyed.begins {spells : Datum → List Char → Prop} {marks : List Char} {key : Datum}
    {value text : List Char} (h : Keyed spells marks key value text)
    (hspells : ∀ name, spells key name → Begins name) : Begins text := by
  obtain ⟨hname, -, -, -⟩ := h
  exact (hspells _ hname).append _

/-- How the text of a value starts. -/
theorem Value.Prints.begins {constants : Constants} {value : Value} {text : List Char}
    (hprintable : value.Printable constants) (hprints : value.Prints text) : Begins text := by
  cases value with
  | leaf kind data =>
      cases hprints with
      | string => exact begins_cons (by decide) (by decide) (by decide)
      | number htext => exact htext.begins
      | boolean htext =>
          refine (IsName.of_isKeyword ?_).begins
          rw [isKeyword, htext]
          split <;> decide
      | null htext =>
          refine (IsName.of_isKeyword ?_).begins
          rw [isKeyword, htext]
          decide
      | constant => exact hprintable.1.begins
  | array items =>
      obtain ⟨pieces, -, htext⟩ := hprints
      obtain ⟨rest, rfl⟩ := htext.head
      exact begins_cons (by decide) (by decide) (by decide)
  | mapping entries =>
      obtain ⟨pieces, -, htext⟩ := hprints
      obtain ⟨rest, rfl⟩ := htext.head
      exact begins_cons (by decide) (by decide) (by decide)
  | tag node =>
      obtain ⟨rest, rfl⟩ := Node.Prints.head hprints
      exact begins_cons (by decide) (by decide) (by decide)

namespace Reader

section Level

variable {setting : Setting} {inner : Inner} {depth : Nat}

/-- No value is taken for a key. -/
theorem run_entryKey_value {value : Value} {text rest : List Char} {offset : Nat}
    {problems : List (Issue × Nat)} (hprintable : value.Printable setting.constants)
    (hprints : value.Prints text) (hrest : Follows rest) :
    entryKey?.run (.before offset (text ++ rest) problems) =
      .ok (none, .before offset (text ++ rest) problems) := by
  have hnone {c : Char} {more : List Char} (hquote : c ≠ '"') (hfirst : isNameStart c = false) :
      entryKey?.run (.before offset (c :: more) problems) =
        .ok (none, .before offset (c :: more) problems) :=
    run_entryKey_none (by simpa using hquote) (simpleName_of_stops (.cons hfirst)) (.inl rfl)
  have hword {word : List Char} (hword : IsIdentifier word) :
      entryKey?.run (.before offset (word ++ rest) problems) =
        .ok (none, .before offset (word ++ rest) problems) := by
    obtain ⟨name, tail, heq, hname, htail⟩ := exists_name_of_isIdentifier hword hrest
    obtain ⟨c, more, hcons, hquote, -⟩ := hword.startsPlain
    have hquote : (name ++ tail).head? ≠ some '"' := by
      rw [← heq, hcons]
      simpa using hquote
    rw [heq]
    exact run_entryKey_none hquote hname htail
  cases value with
  | leaf kind data =>
      cases hprints with
      | @string body text htext =>
          rw [entryKey?_eq, run_cursor_bind, if_pos (by rfl),
            Result.run_bind_of_ok (run_string htext (hrest.head_ne (by decide) (by decide)))]
          exact run_keyBehind_none (.inr (not_keyEnds_of_follows hrest))
      | number htext =>
          obtain ⟨c, more, rfl, hc⟩ := htext.head_isDecimal
          refine hnone ?_ ?_
          · rintro rfl
            exact absurd hc (by decide)
          · by_contra hfirst
            rw [Bool.not_eq_false] at hfirst
            obtain hc | rfl | rfl := hc
            · simp [isDecimal_of_isNameStart hfirst] at hc
            · exact absurd hfirst (by decide)
            · exact absurd hfirst (by decide)
      | boolean htext =>
          refine hword (IsName.of_isKeyword ?_).isIdentifier
          rw [isKeyword, htext]
          split <;> decide
      | null htext =>
          refine hword (IsName.of_isKeyword ?_).isIdentifier
          rw [isKeyword, htext]
          decide
      | constant => exact hword hprintable.1
  | array items =>
      obtain ⟨pieces, -, htext⟩ := hprints
      obtain ⟨more, rfl⟩ := htext.head
      exact hnone (by decide) (by decide)
  | mapping entries =>
      obtain ⟨pieces, -, htext⟩ := hprints
      obtain ⟨more, rfl⟩ := htext.head
      exact hnone (by decide) (by decide)
  | tag node =>
      obtain ⟨more, rfl⟩ := Node.Prints.head hprints
      exact hnone (by decide) (by decide)

/-- The readers of a level take what nests in the levels from there on. -/
structure Inner.Takes (constants : Constants) (inner : Inner) (depth : Nat) : Prop where
  tag : ∀ (node : Node) text, node.Printable constants → node.Prints text →
    Reads inner.tag text (node.nesting ≤ depth) (·.unplaced = node.unplaced)
  array : ∀ items text, (Value.array items).Printable constants → (Value.array items).Prints text →
    Reads inner.braces text ((Value.array items).nesting ≤ depth)
      (·.unplaced = (Value.array items).unplaced)
  mapping : ∀ entries text, (Value.mapping entries).Printable constants →
    (Value.mapping entries).Prints text →
      Reads inner.braces text ((Value.mapping entries).nesting ≤ depth)
        (·.unplaced = (Value.mapping entries).unplaced)

theorem value_reads (hinner : inner.Takes setting.constants depth) {given : Value} {text : List Char}
    (hprintable : given.Printable setting.constants) (hprints : given.Prints text) :
    Reads (value setting inner) text (given.nesting ≤ depth) (·.unplaced = given.unplaced) := by
  have hbrace {written more : List Char} {fits : Prop} {found : Value → Prop}
      (hwritten : written = '\x7b' :: more) (hreads : Reads inner.braces written fits found) :
      Reads (value setting inner) written fits found := by
    subst hwritten
    exact hreads.of_run_eq fun _ _ _ _ => rfl
  cases given with
  | leaf kind data =>
      refine (leaf_reads hprintable hprints).imp (by simp [Value.nesting]) ?_
      rintro _ rfl
      rfl
  | array items =>
      obtain ⟨more, hmore⟩ := hprints.choose_spec.2.head
      exact hbrace hmore (hinner.array items text hprintable hprints)
  | mapping entries =>
      obtain ⟨more, hmore⟩ := hprints.choose_spec.2.head
      exact hbrace hmore (hinner.mapping entries text hprintable hprints)
  | tag node =>
      obtain ⟨more, rfl⟩ := Node.Prints.head hprints
      have hreads : Reads (inner.tag >>= fun node => pure (Value.tag node)) ('@' :: more)
          (node.nesting ≤ depth) (·.unplaced = (Value.tag node).unplaced) := by
        refine (hinner.tag node _ hprintable hprints).bind fun result hresult => ?_
        exact ⟨.tag result, by rw [Value.unplaced, hresult, Value.unplaced], fun _ => rfl⟩
      exact hreads.of_run_eq fun _ _ _ _ => rfl

/-- An item of an array is read. -/
theorem entry_reads_item (hinner : inner.Takes setting.constants depth) {given : Value}
    {text : List Char} (hprintable : given.Printable setting.constants) (hprints : given.Prints text)
    (done : Entries) :
    Reads (entry setting inner done) text (given.nesting ≤ depth) fun found =>
      ∃ value, value.unplaced = given.unplaced ∧
        found = { done with items := done.items ++ [value] } := by
  have hbegins := Value.Prints.begins hprintable hprints
  have hreads : Reads
      (value setting inner >>= fun value => pure { done with items := done.items ++ [value] }) text
      (given.nesting ≤ depth) fun found => ∃ value : Value, value.unplaced = given.unplaced ∧
        found = { done with items := done.items ++ [value] } :=
    (value_reads hinner hprintable hprints).bind fun value hvalue => ⟨_, ⟨value, hvalue, rfl⟩, fun _ => rfl⟩
  refine hreads.of_run_eq fun offset rest problems hrest => ?_
  have hskip {next : Unit → Reader Entries} :
      (skipBlanks >>= next).run (.before offset (text ++ rest) problems) =
        (next ()).run (.before offset (text ++ rest) problems) :=
    @run_skipBlanks_append _ _ [] _ _ _ (by simp) (hbegins.append rest).stops
  rw [entry, hskip, Result.run_bind_of_ok (run_entryKey_value hprintable hprints hrest), hskip]

/-- An entry of a mapping is read. -/
theorem entry_reads_keyed (hinner : inner.Takes setting.constants depth) {key : Datum} {given : Value}
    {valueText text : List Char} (hprintable : given.Printable setting.constants)
    (hprints : given.Prints valueText) (hkeyed : Keyed SpellsKey [':', '='] key valueText text)
    (done : Entries) :
    Reads (entry setting inner done) text (given.nesting ≤ depth) fun found =>
      ∃ value, value.unplaced = given.unplaced ∧
        found = { done with entries := done.entries ++ [(key, value)] } := by
  have hbegins := Value.Prints.begins hprintable hprints
  obtain @⟨name, before, after, mark, hname, hbefore, hmark, hafter⟩ := hkeyed
  have hreads : Reads
      (value setting inner >>= fun value => pure { done with entries := done.entries ++ [(key, value)] })
      valueText (given.nesting ≤ depth) fun found => ∃ value : Value, value.unplaced = given.unplaced ∧
        found = { done with entries := done.entries ++ [(key, value)] } :=
    (value_reads hinner hprintable hprints).bind fun value hvalue => ⟨_, ⟨value, hvalue, rfl⟩, fun _ => rfl⟩
  have hassoc : name ++ (before ++ mark :: (after ++ valueText)) =
      name ++ (before ++ mark :: after) ++ valueText := by simp
  rw [hassoc]
  refine Reads.behind (fun _ => hreads) fun offset rest problems hrest => ?_
  have hmore : (after ++ (valueText ++ rest)).head? ≠ some ':' := (hbegins.append rest).head_ne_colon hafter
  obtain ⟨text, rfl, hkey⟩ := @run_entryKey_some offset problems _ _ _ _ _ hname
    hbefore hmark hmore
  have hassoc : name ++ (before ++ mark :: after) ++ (valueText ++ rest) =
      name ++ (before ++ mark :: (after ++ (valueText ++ rest))) := by simp
  have hskip {next : Unit → Reader Entries} :
      (skipBlanks >>= next).run (.before offset
          (name ++ (before ++ mark :: (after ++ (valueText ++ rest)))) problems) =
        (next ()).run (.before offset
          (name ++ (before ++ mark :: (after ++ (valueText ++ rest)))) problems) :=
    @run_skipBlanks_append _ _ [] _ _ _ (by simp) (hname.begins.append _).stops
  rw [hassoc, entry, hskip, Result.run_bind_of_ok hkey,
    run_skipBlanks_append hafter (hbegins.append rest).stops]
  have hoffset : offset + name.length + before.length + 1 + after.length =
      offset + (name ++ (before ++ mark :: after)).length := by
    simp only [List.length_append, List.length_cons]
    omega
  rw [hoffset]

/-- While an array is read, the items so far and those of the texts still to be read are its items. -/
structure ItemsPending (constants : Constants) (items : List Value)
    (pending : List (Value × List Char)) (done : Entries) : Prop where
  entries : done.entries = []
  items : done.items.map Value.unplaced ++ pending.map (·.1.unplaced) = items.map Value.unplaced
  pending : ∀ pair ∈ pending, pair.1.Printable constants ∧ pair.1.Prints pair.2

theorem braces_reads_array (hinner : inner.Takes setting.constants depth) {items : List Value}
    {text : List Char} (hprintable : (Value.array items).Printable setting.constants)
    (hprints : (Value.array items).Prints text) :
    Reads (braces setting inner) text ((Value.array items).nesting ≤ depth + 1)
      (·.unplaced = (Value.array items).unplaced) := by
  obtain ⟨pieces, heach, henclosed⟩ := hprints
  obtain ⟨pairs, rfl, rfl, hpairs⟩ := heach.exists_pairs
  have hitems := Value.allPrintable_iff.mp hprintable
  have hstep (pair : Value × List Char) (pending : List (Value × List Char)) (done : Entries)
      (htrack : ItemsPending setting.constants (pairs.map (·.1)) (pair :: pending) done) :
      Begins pair.2 ∧ Reads (entry setting inner done) pair.2 (pair.1.nesting ≤ depth)
        (ItemsPending setting.constants (pairs.map (·.1)) pending) := by
    obtain ⟨⟨hprintable, hprints⟩, hlater⟩ := List.forall_mem_cons.mp htrack.pending
    refine ⟨hprints.begins hprintable, ?_⟩
    refine (entry_reads_item hinner hprintable hprints done).imp Iff.rfl ?_
    rintro _ ⟨value, hvalue, rfl⟩
    exact ⟨htrack.entries, by simpa [hvalue] using htrack.items, hlater⟩
  have hlist (offset : Nat) : Reads
      (list '\x7d' (fail .unclosedBraces offset) .braceEndExpected (entry setting inner) {}) text _ _ :=
    list_reads (by decide) (by decide) hstep henclosed
      ⟨rfl, by simp, fun pair hpair => ⟨hitems _ (List.mem_map_of_mem hpair), hpairs pair hpair⟩⟩
  refine .cursor_bind fun start => ((hlist start.offset).imp ?_ fun _ => id).bind ?_
  · simp only [Value.nesting, Nat.add_comm 1, Nat.add_le_add_iff_right, Value.nestingOfItems_le_iff,
      List.forall_mem_map]
  · intro found hfound
    refine ⟨.array found.items, ?_, fun state => ?_⟩
    · simpa [Value.unplaced, Function.comp_def] using hfound.items
    · simp only [hfound.entries, List.isEmpty_nil, Bool.not_true, Bool.and_false, Bool.false_eq_true,
        if_false, if_true]
      rfl

/-- While a mapping is read, the entries so far and those of the texts still to be read are its
entries. -/
structure EntriesPending (constants : Constants) (entries : List (Datum × Value))
    (pending : List ((Datum × Value) × List Char)) (done : Entries) : Prop where
  items : done.items = []
  entries : Value.unplacedEntries done.entries ++ Value.unplacedEntries (pending.map (·.1)) =
    Value.unplacedEntries entries
  pending : ∀ pair ∈ pending, pair.1.2.Printable constants ∧ ∃ text, pair.1.2.Prints text ∧
    Keyed SpellsKey [':', '='] pair.1.1 text pair.2

theorem braces_reads_mapping (hinner : inner.Takes setting.constants depth)
    {entries : List (Datum × Value)} {text : List Char}
    (hprintable : (Value.mapping entries).Printable setting.constants)
    (hprints : (Value.mapping entries).Prints text) :
    Reads (braces setting inner) text ((Value.mapping entries).nesting ≤ depth + 1)
      (·.unplaced = (Value.mapping entries).unplaced) := by
  obtain ⟨pieces, heach, henclosed⟩ := hprints
  obtain ⟨pairs, rfl, rfl, hpairs⟩ := heach.exists_pairs
  obtain ⟨hsome, -, hentries⟩ := hprintable
  rw [Value.entriesPrintable_iff] at hentries
  have hstep (pair : (Datum × Value) × List Char) (pending : List ((Datum × Value) × List Char))
      (done : Entries)
      (htrack : EntriesPending setting.constants (pairs.map (·.1)) (pair :: pending) done) :
      Begins pair.2 ∧ Reads (entry setting inner done) pair.2 (pair.1.2.nesting ≤ depth)
        (EntriesPending setting.constants (pairs.map (·.1)) pending) := by
    obtain ⟨⟨hprintable, text, hprints, hkeyed⟩, hlater⟩ := List.forall_mem_cons.mp htrack.pending
    refine ⟨hkeyed.begins fun _ => SpellsKey.begins, ?_⟩
    refine (entry_reads_keyed hinner hprintable hprints hkeyed done).imp Iff.rfl ?_
    rintro _ ⟨value, hvalue, rfl⟩
    exact ⟨htrack.items, by simpa [hvalue] using htrack.entries, hlater⟩
  have hlist (offset : Nat) : Reads
      (list '\x7d' (fail .unclosedBraces offset) .braceEndExpected (entry setting inner) {}) text _ _ :=
    list_reads (by decide) (by decide) hstep henclosed
      ⟨rfl, by simp, fun pair hpair => ⟨hentries _ (List.mem_map_of_mem hpair), hpairs pair hpair⟩⟩
  refine .cursor_bind fun start => ((hlist start.offset).imp ?_ fun _ => id).bind ?_
  · simp only [Value.nesting, Nat.add_comm 1, Nat.add_le_add_iff_right, Value.nestingOfEntries_le_iff,
      List.forall_mem_map]
  · intro found hfound
    have hentries : Value.unplacedEntries found.entries = Value.unplacedEntries (pairs.map (·.1)) := by
      simpa using hfound.entries
    have hnonempty : found.entries.isEmpty = false := by
      rw [List.isEmpty_eq_false_iff]
      rintro hnil
      rw [hnil] at hentries
      exact hsome (by simpa using hentries.symm)
    refine ⟨.mapping found.entries, by rw [Value.unplaced, hentries, Value.unplaced], fun state => ?_⟩
    simp only [hfound.items, hnonempty, List.isEmpty_nil, Bool.not_true, Bool.false_and,
      Bool.false_eq_true, if_false]
    rfl

/-- A nested tag among arguments is read. -/
theorem argument_reads_child (hinner : inner.Takes setting.constants depth) {node : Node}
    {text : List Char} (hprintable : node.Printable setting.constants) (hprints : node.Prints text)
    (tag : String) (done : Arguments) :
    Reads (argument setting inner tag done) text (node.nesting ≤ depth) fun found =>
      ∃ child, child.unplaced = node.unplaced ∧
        found = { done with children := done.children ++ [child] } := by
  have hreads : Reads
      (inner.tag >>= fun child => pure { done with children := done.children ++ [child] }) text
      (node.nesting ≤ depth) fun found => ∃ child : Node, child.unplaced = node.unplaced ∧
        found = { done with children := done.children ++ [child] } :=
    (hinner.tag node text hprintable hprints).bind fun child hchild =>
      ⟨_, ⟨child, hchild, rfl⟩, fun _ => rfl⟩
  obtain ⟨more, rfl⟩ := Node.Prints.head hprints
  exact hreads.of_run_eq fun _ _ _ _ => rfl

/-- The name of an attribute is read, with the mark behind it. -/
theorem run_argument_keyed {name before after more : List Char} {offset : Nat}
    {problems : List (Issue × Nat)} (hname : IsName name) (hbefore : ∀ c ∈ before, isBlank c = true)
    (hafter : ∀ c ∈ after, isBlank c = true) (hmore : Begins more) (tag : String) (done : Arguments) :
    (argument setting inner tag done).run
        (.before offset (name ++ (before ++ '=' :: (after ++ more))) problems) =
      ((do
        let given ← value setting inner
        if done.attributes.any fun entry => entry.1.isText (String.ofList name) then
          note (.duplicateAttribute (String.ofList name) tag) offset
          return done
        else
          return { done with attributes := done.attributes ++ [(.text (String.ofList name), given)] }) :
          Reader Arguments).run
        (.before (offset + (name ++ (before ++ '=' :: after)).length) more problems) := by
  have hat : ((ReadState.before offset (name ++ (before ++ '=' :: (after ++ more))) problems).cursor.peek? ==
      some '@') = false := by
    obtain ⟨hfirst, -⟩ := hname
    rw [beq_eq_false_iff_ne]
    rintro hpeek
    obtain rfl := Option.some.inj hpeek
    exact absurd hfirst (by decide)
  have hstops : Stops isWord (before ++ '=' :: (after ++ more)) := by
    cases before with
    | nil => exact .cons (by decide)
    | cons c before => exact .cons (isWord_of_isBlank (hbefore c List.mem_cons_self))
  have hread : simpleName (name ++ (before ++ '=' :: (after ++ more))) = name :=
    simpleName_append hname hstops
  have hempty : name.isEmpty = false := by simpa using hname.ne_nil
  have hafterName : Cursor.skipBlanks (Cursor.advance
      ⟨offset, name ++ (before ++ '=' :: (after ++ more))⟩ name.length) =
      ⟨offset + name.length + before.length, '=' :: (after ++ more)⟩ := by
    rw [Cursor.advance_append, Cursor.skipBlanks, Cursor.skipWhile_append hbefore (.cons (by decide))]
  have hvalue : Cursor.skipBlanks (Cursor.advance
      ⟨offset + name.length + before.length, '=' :: (after ++ more)⟩ 1) =
      ⟨offset + (name ++ (before ++ '=' :: after)).length, more⟩ := by
    have hskip : Cursor.skipBlanks ⟨offset + name.length + before.length + 1, after ++ more⟩ =
        ⟨offset + name.length + before.length + 1 + after.length, more⟩ :=
      Cursor.skipWhile_append hafter hmore.stops
    have hoffset : offset + name.length + before.length + 1 + after.length =
        offset + (name ++ (before ++ '=' :: after)).length := by
      simp only [List.length_append, List.length_cons]
      omega
    rw [← hoffset, ← hskip]
    rfl
  rw [argument, run_cursor_bind, hat, if_neg Bool.false_ne_true]
  simp only [ReadState.before, hread, hafterName, hvalue, hempty, Cursor.peek?, List.head?_cons,
    beq_self_eq_true, Bool.not_false, Bool.and_self, if_true]
  rfl

/-- An attribute with a name that none before it has is read. -/
theorem argument_reads_keyed (hinner : inner.Takes setting.constants depth) {key : Datum}
    {given : Value} {valueText text : List Char} (hprintable : given.Printable setting.constants)
    (hprints : given.Prints valueText) (hkeyed : Keyed SpellsName ['='] key valueText text)
    (tag : String) (done : Arguments) (hnew : ∀ entry ∈ done.attributes, entry.1 ≠ key) :
    Reads (argument setting inner tag done) text (given.nesting ≤ depth) fun found =>
      ∃ value, value.unplaced = given.unplaced ∧
        found = { done with attributes := done.attributes ++ [(key, value)] } := by
  have hbegins := Value.Prints.begins hprintable hprints
  obtain @⟨name, before, after, mark, hname, hbefore, hmark, hafter⟩ := hkeyed
  obtain rfl : mark = '=' := by simpa using hmark
  obtain ⟨hname⟩ := hname
  have hreads : Reads
      (value setting inner >>= fun value =>
        pure { done with attributes := done.attributes ++ [(Datum.text (String.ofList name), value)] })
      valueText (given.nesting ≤ depth) fun found => ∃ value : Value, value.unplaced = given.unplaced ∧
        found = { done with attributes := done.attributes ++ [(Datum.text (String.ofList name), value)] } :=
    (value_reads hinner hprintable hprints).bind fun value hvalue => ⟨_, ⟨value, hvalue, rfl⟩, fun _ => rfl⟩
  have hassoc : name ++ (before ++ '=' :: (after ++ valueText)) =
      name ++ (before ++ '=' :: after) ++ valueText := by simp
  rw [hassoc]
  refine Reads.behind (fun _ => hreads) fun offset rest problems hrest => ?_
  have hassoc : name ++ (before ++ '=' :: after) ++ (valueText ++ rest) =
      name ++ (before ++ '=' :: (after ++ (valueText ++ rest))) := by simp
  have hfresh : (done.attributes.any fun entry => entry.1.isText (String.ofList name)) = false := by
    rw [List.any_eq_false]
    exact fun entry hentry htext => hnew entry hentry (Datum.isText_iff.mp htext)
  rw [hassoc, run_argument_keyed hname hbefore hafter (hbegins.append rest)]
  simp only [hfresh, Bool.false_eq_true, if_false]

/-- A nested tag or an attribute. -/
abbrev Argument : Type :=
  (Datum × Value) ⊕ Node

namespace Argument

/-- How deep tags and braces nest in an argument. -/
def nesting : Argument → Nat
  | .inl entry => entry.2.nesting
  | .inr node => node.nesting

/-- The texts of an argument that can be written. -/
def Prints (constants : Constants) : Argument → List Char → Prop
  | .inl entry, text =>
      entry.2.Printable constants ∧
        ∃ value, entry.2.Prints value ∧ Keyed SpellsName ['='] entry.1 value text
  | .inr node, text => node.Printable constants ∧ node.Prints text

/-- The attributes among arguments. -/
def attributes (pending : List (Argument × List Char)) : List (Datum × Value) :=
  pending.filterMap (·.1.getLeft?)

/-- The nested tags among arguments. -/
def children (pending : List (Argument × List Char)) : List Node :=
  pending.filterMap (·.1.getRight?)

/-- Attributes and nested tags with their texts as arguments with their texts. -/
def together (entries : List ((Datum × Value) × List Char)) (nodes : List (Node × List Char)) :
    List (Argument × List Char) :=
  entries.map (fun pair => (.inl pair.1, pair.2)) ++ nodes.map fun pair => (.inr pair.1, pair.2)

section Together

variable (entries : List ((Datum × Value) × List Char)) (nodes : List (Node × List Char))

theorem map_together : (together entries nodes).map (·.2) = entries.map (·.2) ++ nodes.map (·.2) := by
  simp [together, Function.comp_def]

theorem attributes_together : attributes (together entries nodes) = entries.map (·.1) := by
  simp [together, attributes, List.filterMap_map, Function.comp_def]

theorem children_together : children (together entries nodes) = nodes.map (·.1) := by
  simp [together, children, List.filterMap_map, Function.comp_def]

theorem forall_mem_together {p : Argument × List Char → Prop} :
    (∀ pair ∈ together entries nodes, p pair) ↔
      (∀ pair ∈ entries, p (.inl pair.1, pair.2)) ∧ ∀ pair ∈ nodes, p (.inr pair.1, pair.2) := by
  rw [together, List.forall_mem_append, List.forall_mem_map, List.forall_mem_map]

end Together

end Argument

/-- While arguments are read, those so far and those of the texts still to be read are the arguments of
the tag. -/
structure ArgumentsPending (constants : Constants) (attributes : List (Datum × Value))
    (children : List Node) (pending : List (Argument × List Char)) (done : Arguments) : Prop where
  attributes : Value.unplacedEntries done.attributes ++
    Value.unplacedEntries (Argument.attributes pending) = Value.unplacedEntries attributes
  children : done.children.map Node.unplaced ++ (Argument.children pending).map Node.unplaced =
    children.map Node.unplaced
  pending : ∀ pair ∈ pending, Argument.Prints constants pair.1 pair.2

theorem argument_reads (hinner : inner.Takes setting.constants depth)
    {attributes : List (Datum × Value)} {children : List Node} (hdistinct : (attributes.map (·.1)).Nodup)
    (tag : String) (pair : Argument × List Char) (pending : List (Argument × List Char))
    (done : Arguments)
    (htrack : ArgumentsPending setting.constants attributes children (pair :: pending) done) :
    Begins pair.2 ∧ Reads (argument setting inner tag done) pair.2 (pair.1.nesting ≤ depth)
      (ArgumentsPending setting.constants attributes children pending) := by
  obtain ⟨hargument, hlater⟩ := List.forall_mem_cons.mp htrack.pending
  obtain ⟨⟨key, given⟩ | node, text⟩ := pair
  · obtain ⟨hprintable, value, hprints, hkeyed⟩ := hargument
    have hnew : ∀ entry ∈ done.attributes, entry.1 ≠ key := by
      have hkeys := congrArg (List.map Prod.fst) htrack.attributes
      simp only [Argument.attributes, Value.unplacedEntries_eq_map, List.map_append, List.map_map,
        List.filterMap_cons, Sum.getLeft?_inl, List.map_cons, Function.comp_def] at hkeys
      rw [← hkeys, List.nodup_append] at hdistinct
      intro entry hentry
      exact hdistinct.2.2 _ (List.mem_map_of_mem hentry) _ List.mem_cons_self
    refine ⟨hkeyed.begins fun name hname => ?_, ?_⟩
    · obtain ⟨hname⟩ := hname
      exact hname.begins
    · refine (argument_reads_keyed hinner hprintable hprints hkeyed tag done hnew).imp Iff.rfl ?_
      rintro _ ⟨value, hvalue, rfl⟩
      refine ⟨?_, htrack.children, hlater⟩
      simpa [Argument.attributes, hvalue] using htrack.attributes
  · obtain ⟨hprintable, hprints⟩ := hargument
    refine ⟨?_, ?_⟩
    · obtain ⟨more, rfl⟩ := Node.Prints.head hprints
      exact begins_cons (by decide) (by decide) (by decide)
    · refine (argument_reads_child hinner hprintable hprints tag done).imp Iff.rfl ?_
      rintro _ ⟨child, hchild, rfl⟩
      refine ⟨htrack.attributes, ?_, hlater⟩
      simpa [Argument.children, hchild] using htrack.children

/-- The arguments of a tag are read. -/
theorem arguments_reads (hinner : inner.Takes setting.constants depth)
    {attributes : List (Datum × Value)} {children : List Node} {parts nested : List (List Char)}
    {written : List Char} (hdistinct : (attributes.map (·.1)).Nodup)
    (hattributes : Value.EntriesPrintable setting.constants attributes)
    (hchildren : Node.AllPrintable setting.constants children)
    (hparts : Value.PrintEntries SpellsName ['='] attributes parts)
    (hnested : Node.PrintEach children nested) (hwritten : Enclosed '(' ')' (parts ++ nested) written)
    (tag : String) (unclosed : Reader Arguments) :
    Reads (list ')' unclosed (.argumentEndExpected tag) (argument setting inner tag) {}) written
      (max (Value.nestingOfEntries attributes) (Node.nestingOfNodes children) ≤ depth) fun found =>
        Value.unplacedEntries found.attributes = Value.unplacedEntries attributes ∧
          found.children.map Node.unplaced = children.map Node.unplaced := by
  obtain ⟨entries, rfl, rfl, hentries⟩ := hparts.exists_pairs
  obtain ⟨nodes, rfl, rfl, hnodes⟩ := hnested.exists_pairs
  rw [Value.entriesPrintable_iff, List.forall_mem_map] at hattributes
  rw [Node.allPrintable_iff, List.forall_mem_map] at hchildren
  rw [← Argument.map_together] at hwritten
  have htrack : ArgumentsPending setting.constants (entries.map (·.1)) (nodes.map (·.1))
      (Argument.together entries nodes) {} := by
    refine ⟨?_, ?_, (Argument.forall_mem_together _ _).mpr ⟨fun pair hpair => ?_, fun pair hpair => ?_⟩⟩
    · rw [Argument.attributes_together]
      rfl
    · rw [Argument.children_together]
      rfl
    · exact ⟨hattributes pair hpair, hentries pair hpair⟩
    · exact ⟨hchildren pair hpair, hnodes pair hpair⟩
  refine (list_reads (by decide) (by decide) (argument_reads hinner hdistinct tag) hwritten htrack).imp
    ?_ fun found hfound => ⟨?_, ?_⟩
  · rw [Nat.max_le, Value.nestingOfEntries_le_iff, Node.nestingOfNodes_le_iff, List.forall_mem_map,
      List.forall_mem_map, Argument.forall_mem_together]
    rfl
  · simpa [Argument.attributes] using hfound.attributes
  · simpa [Argument.children] using hfound.children

/-- The name of a known tag is read. -/
theorem run_tag {base name tail : List Char} (hname : IsTagName base name)
    (hknown : isKnownTag (String.ofList base) = true) (hstops : Stops isWord tail)
    (hmark : namespaceMark tail = []) (nested : Bool) (offset : Nat) (problems : List (Issue × Nat)) :
    (tag setting inner nested).run (.before offset ('@' :: (name ++ tail)) problems) =
      ((do
        let opening := (← cursor).skipInlineBlanks
        let arguments ←
          if opening.peek? == some '(' then do
            moveTo opening
            list ')' (fail (.unclosedArguments (String.ofList base)) opening.offset)
              (.argumentEndExpected (String.ofList base))
              (argument setting inner (String.ofList base)) {}
          else pure {}
        return { tag := .text (String.ofList base), attributes := arguments.attributes
                 children := arguments.children, line := (setting.place offset).line.getD 0
                 column := (setting.place offset).column.getD 0 }) : Reader Node).run
        (.before (offset + ('@' :: name).length) tail problems) := by
  have hread : tagName (name ++ tail) = name := tagName_append hname hstops hmark
  have hempty : name.isEmpty = false := by simpa using hname.ne_nil
  rw [tag, run_cursor_bind]
  simp only [ReadState.before, List.drop_succ_cons, List.drop_zero, hread, hempty, hname.baseName_eq,
    hknown, Bool.not_true, Bool.and_false, Bool.false_eq_true, if_false]
  exact @run_advance_append _ _ ('@' :: name) _ _ _

/-- A tag is read, with a level more than what nests in it. -/
theorem tag_reads (hinner : inner.Takes setting.constants depth) {node : Node} {text : List Char}
    (hprintable : node.Printable setting.constants) (hprints : node.Prints text) (nested : Bool) :
    Reads (tag setting inner nested) text (node.nesting ≤ depth + 1) (·.unplaced = node.unplaced) := by
  obtain ⟨tag, attributes, children, line, column⟩ := node
  obtain ⟨⟨known, htag, hknown⟩, hnames, hdistinct, hattributes, hchildren⟩ := hprintable
  obtain ⟨base, name, rfl, hname, hbare | hlist⟩ := hprints
  · obtain ⟨rfl, rfl, rfl⟩ := hbare
    obtain rfl := Datum.text.inj htag
    refine ⟨fun _ offset rest problems hrest => ?_, fun hfits => absurd ?_ hfits⟩
    · refine ⟨⟨.text (String.ofList base), [], [], (setting.place offset).line.getD 0,
        (setting.place offset).column.getD 0⟩, rfl, ?_⟩
      have hopening : (Cursor.skipInlineBlanks ⟨offset + ('@' :: name).length, rest⟩).peek? ≠ some '(' := by
        rw [Cursor.peek?, Cursor.skipInlineBlanks, Cursor.skipWhile_rest]
        exact hrest.head_dropWhile_ne
      rw [List.cons_append, run_tag hname hknown hrest.stops_isWord hrest.namespaceMark_eq_nil,
        run_cursor_bind]
      simp only [ReadState.before, beq_eq_false_iff_ne.mpr hopening]
      rfl
    · simp [Node.nesting, Value.nestingOfEntries, Node.nestingOfNodes]
  · obtain ⟨blanks, parts, nestedTexts, arguments, hblanks, hparts, hnested, henclosed, rfl⟩ := hlist
    obtain rfl := Datum.text.inj htag
    have hassoc : '@' :: (name ++ (blanks ++ arguments)) = '@' :: (name ++ blanks) ++ arguments := by simp
    rw [hassoc]
    refine @Reads.behind _ _ _ _ (fun offset => do
        let found ← list ')' (fail (.unclosedArguments (String.ofList base))
            (offset + ('@' :: (name ++ blanks)).length))
          (.argumentEndExpected (String.ofList base)) (argument setting inner (String.ofList base)) {}
        return ⟨.text (String.ofList base), found.attributes, found.children,
          (setting.place offset).line.getD 0, (setting.place offset).column.getD 0⟩) _ _ ?_ ?_
    · intro offset
      have hreads := arguments_reads hinner hdistinct hattributes hchildren hparts hnested henclosed
        (String.ofList base) (fail (.unclosedArguments (String.ofList base)) 
            (offset + ('@' :: (name ++ blanks)).length))
      refine (hreads.imp ?_ fun _ => id).bind fun found hfound => ⟨_, ?_, fun _ => rfl⟩
      · rw [Node.nesting, Nat.add_comm, Nat.add_le_add_iff_right]
      · rw [Node.unplaced, Node.unplaced, hfound.1, Node.unplacedNodes_eq_map,
          Node.unplacedNodes_eq_map, hfound.2]
    · intro offset rest problems hrest
      obtain ⟨more, hmore⟩ := henclosed.head
      have htail {test : Char → Bool} (htest : ∀ c ∈ [' ', '\t', '('], test c = false) :=
        stops_of_arguments hblanks (henclosed.head_append rest) htest
      have hopening : Cursor.skipInlineBlanks ⟨offset + ('@' :: name).length,
          blanks ++ (arguments ++ rest)⟩ =
          ⟨offset + ('@' :: (name ++ blanks)).length, arguments ++ rest⟩ := by
        have hstop : Stops isInlineBlank (arguments ++ rest) := by
          rw [hmore]
          exact .cons (by decide)
        rw [Cursor.skipInlineBlanks, Cursor.skipWhile_append hblanks hstop]
        simp only [List.length_cons, List.length_append, Cursor.mk.injEq, and_true]
        omega
      have hpeek : (Cursor.peek? ⟨offset + ('@' :: (name ++ blanks)).length, arguments ++ rest⟩ ==
          some '(') = true := by
        rw [hmore]
        rfl
      have hassoc : '@' :: (name ++ blanks) ++ (arguments ++ rest) =
          '@' :: (name ++ (blanks ++ (arguments ++ rest))) := by simp
      rw [hassoc, run_tag hname hknown (htail (List.all_iff_forall_prop.mp (by decide)))
          (namespaceMark_eq_nil (htail (List.all_iff_forall_prop.mp (by decide)))),
        run_cursor_bind]
      simp only [ReadState.before, hopening, hpeek, if_true]
      rfl

/-- On every level, the readers take what nests in the levels from there on. -/
theorem levels_takes (depth : Nat) : (levels setting depth).Takes setting.constants depth := by
  induction depth with
  | zero =>
      have hrefuse {α : Type} {text : List Char} {nesting : Nat} {found : α → Prop} (h : 0 < nesting) :
          Reads (tooDeep : Reader α) text (nesting ≤ 0) found :=
        ⟨fun hfits => absurd hfits (Nat.not_le.mpr h), fun _ offset _ _ _ => ⟨offset, rfl⟩⟩
      refine ⟨fun node text _ _ => hrefuse ?_, fun items text _ _ => hrefuse ?_,
        fun entries text _ _ => hrefuse ?_⟩
      · obtain ⟨tag, attributes, children, line, column⟩ := node
        rw [Node.nesting]
        omega
      · rw [Value.nesting]
        omega
      · rw [Value.nesting]
        omega
  | succ depth ih =>
      exact ⟨fun node text hprintable hprints => tag_reads ih hprintable hprints true,
        fun items text => braces_reads_array ih, fun entries text => braces_reads_mapping ih⟩

/-- A tag that is not nested is read when what it holds nests in the levels below. -/
theorem topTag_reads {node : Node} {text : List Char} (hprintable : node.Printable setting.constants)
    (hprints : node.Prints text) :
    Reads (topTag setting) text (node.nesting ≤ maxNesting) (·.unplaced = node.unplaced) :=
  tag_reads (levels_takes _) hprintable hprints false

end Level

end Reader

end DocCompiler.Annotation

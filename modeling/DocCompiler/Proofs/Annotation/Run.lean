import Mathlib.Tactic.SplitIfs
import DocCompiler.Annotation.TagReader
import DocCompiler.Proofs.Data.Result
import DocCompiler.Proofs.Text.Line

/-!
Runs of the readers. A reader reads a text when it takes all of it, whatever may follow; lists are
read when their items are.
-/

namespace DocCompiler.Annotation

open Text

namespace Cursor

variable {part rest : List Char} {offset : Nat}

theorem advance_append : (⟨offset, part ++ rest⟩ : Cursor).advance part.length =
    ⟨offset + part.length, rest⟩ := by
  rw [advance, List.drop_left]

theorem skipWhile_append {test : Char → Bool} (hpart : ∀ c ∈ part, test c = true)
    (hrest : Stops test rest) :
    (⟨offset, part ++ rest⟩ : Cursor).skipWhile test = ⟨offset + part.length, rest⟩ := by
  rw [skipWhile, takeWhile_append_of_stops hpart hrest, advance_append]

theorem skipWhile_of_stops {test : Char → Bool} (hrest : Stops test rest) :
    (⟨offset, rest⟩ : Cursor).skipWhile test = ⟨offset, rest⟩ :=
  skipWhile_append (fun _ h => absurd h List.not_mem_nil) hrest

theorem skipWhile_rest (cursor : Cursor) (test : Char → Bool) :
    (cursor.skipWhile test).rest = cursor.rest.dropWhile test :=
  drop_length_takeWhile test cursor.rest

end Cursor

namespace Reader

section Run

variable {α β : Type} {state later : ReadState} {next : α → Reader β}

@[simp] theorem run_cursor_bind {next : Cursor → Reader β} :
    (cursor >>= next).run state = (next state.cursor).run state :=
  rfl

@[simp] theorem run_advance_bind {count : Nat} {next : Unit → Reader β} :
    (advance count >>= next).run state =
      (next ()).run { state with cursor := state.cursor.advance count } :=
  rfl

@[simp] theorem run_skipBlanks_bind {next : Unit → Reader β} :
    (skipBlanks >>= next).run state =
      (next ()).run { state with cursor := state.cursor.skipBlanks } :=
  rfl

@[simp] theorem run_moveTo_bind {place : Cursor} {next : Unit → Reader β} :
    (moveTo place >>= next).run state = (next ()).run { state with cursor := place } :=
  rfl

@[simp] theorem run_pure (found : α) : (pure found : Reader α).run state = .ok (found, state) :=
  rfl

@[simp] theorem run_fail (issue : Issue) (offset : Nat) :
    (fail issue offset : Reader α).run state = .error (.issue issue offset) :=
  rfl

end Run

end Reader

/-- A mark that may stand behind a value. -/
def isEndMark (c : Char) : Bool :=
  c == ',' || c == ')' || c == '\x7d'

/-- What may stand behind a value: blanks, and then a mark or the end of the text. -/
def Follows (rest : List Char) : Prop :=
  Stops (fun c => !isEndMark c) (rest.dropWhile isBlank)

theorem isBlank_of_isEndMark {c : Char} (h : isEndMark c = true) : isBlank c = false := by
  simp only [isEndMark, Bool.or_eq_true, beq_iff_eq] at h
  obtain (rfl | rfl) | rfl := h <;> rfl

namespace Follows

variable {blanks rest : List Char} {c : Char}

theorem nil : Follows [] := by
  simp [Follows, Stops]

theorem blanks_cons (hblanks : ∀ c ∈ blanks, isBlank c = true) (hc : isEndMark c = true) :
    Follows (blanks ++ c :: rest) := by
  have hdrop : (blanks ++ c :: rest).dropWhile isBlank = c :: rest := by
    rw [List.dropWhile_append_of_pos hblanks, List.dropWhile_cons,
      isBlank_of_isEndMark hc, if_neg Bool.false_ne_true]
  rw [Follows, hdrop]
  exact .cons (by simp [hc])

/-- What follows starts with a blank or a mark. -/
theorem head (h : Follows rest) (hhead : rest.head? = some c) :
    isBlank c = true ∨ isEndMark c = true := by
  obtain ⟨rest, rfl⟩ : ∃ more, rest = c :: more := by
    cases rest with
    | nil => simp at hhead
    | cons other rest =>
        obtain rfl := Option.some.inj hhead
        exact ⟨rest, rfl⟩
  by_cases hc : isBlank c = true
  · exact .inl hc
  · rw [Follows, List.dropWhile_cons, if_neg hc] at h
    exact .inr (by simpa using h.head)

/-- A class of characters without blanks and marks does not go on into what follows. -/
theorem stops {test : Char → Bool} (h : Follows rest) (hblank : ∀ c, isBlank c = true → test c = false)
    (hmark : ∀ c, isEndMark c = true → test c = false) : Stops test rest := fun c hc =>
  (h.head hc).elim (hblank c) (hmark c)

theorem head_ne (h : Follows rest) (hblank : isBlank c = false) (hmark : isEndMark c = false) :
    rest.head? ≠ some c := by
  intro hhead
  rcases h.head hhead with h | h
  · simp [h] at hblank
  · simp [h] at hmark

/-- What follows a value opens no list of arguments. -/
theorem head_dropWhile_ne (h : Follows rest) : (rest.dropWhile isInlineBlank).head? ≠ some '(' := by
  induction rest with
  | nil => simp
  | cons c rest ih =>
      by_cases hc : isInlineBlank c = true
      · have hblank : isBlank c = true := by
          simp only [isInlineBlank, Bool.or_eq_true, beq_iff_eq] at hc
          obtain rfl | rfl := hc <;> rfl
        rw [List.dropWhile_cons, if_pos hc]
        rw [Follows, List.dropWhile_cons, if_pos hblank] at h
        exact ih h
      · rw [List.dropWhile_cons, if_neg hc]
        exact h.head_ne (by decide) (by decide)

end Follows

/-- The texts that a value or an argument may start with: neither a blank nor a mark nor a colon. -/
def Begins (text : List Char) : Prop :=
  ∃ c rest, text = c :: rest ∧ isBlank c = false ∧ isEndMark c = false ∧ c ≠ ':'

namespace Begins

variable {text rest : List Char}

theorem append (h : Begins text) (rest : List Char) : Begins (text ++ rest) := by
  obtain ⟨c, more, rfl, hc⟩ := h
  exact ⟨c, more ++ rest, rfl, hc⟩

theorem stops (h : Begins text) : Stops isBlank text := by
  obtain ⟨c, more, rfl, hblank, -⟩ := h
  exact .cons hblank

theorem head_ne {c : Char} (h : Begins text) (hc : isEndMark c = true) : text.head? ≠ some c := by
  obtain ⟨other, more, rfl, -, hother, -⟩ := h
  rintro hhead
  obtain rfl := Option.some.inj hhead
  simp [hc] at hother

theorem head_ne_colon {blanks : List Char} (h : Begins text) (hblanks : ∀ c ∈ blanks, isBlank c = true) :
    (blanks ++ text).head? ≠ some ':' := by
  cases blanks with
  | nil =>
      obtain ⟨c, more, rfl, -, -, hcolon⟩ := h
      simpa using hcolon
  | cons c blanks =>
      rintro hhead
      obtain rfl := Option.some.inj hhead
      exact absurd (hblanks _ List.mem_cons_self) (by decide)

end Begins

/-- The state of reading in front of a text. -/
def ReadState.before (offset : Nat) (text : List Char) (problems : List (Issue × Nat)) : ReadState :=
  { cursor := ⟨offset, text⟩, problems }

/-- What a reader makes of a text, whatever else may follow. When the text fits, the reader takes all
of it and notes nothing; else it refuses to go deeper. -/
structure Reads {α : Type} (reader : Reader α) (text : List Char) (fits : Prop) (found : α → Prop) :
    Prop where
  ok : fits → ∀ offset rest problems, Follows rest → ∃ result, found result ∧
    reader.run (.before offset (text ++ rest) problems) =
      .ok (result, .before (offset + text.length) rest problems)
  error : ¬ fits → ∀ offset rest problems, Follows rest → ∃ place,
    reader.run (.before offset (text ++ rest) problems) = .error (.issue .nestedTooDeeply place)

namespace Reads

variable {α β : Type} {reader : Reader α} {text : List Char} {fits : Prop} {found : α → Prop}

theorem imp {fits' : Prop} {found' : α → Prop} (h : Reads reader text fits found)
    (hfits : fits' ↔ fits) (hfound : ∀ result, found result → found' result) :
    Reads reader text fits' found' := by
  refine ⟨fun hfits' offset rest problems hrest => ?_, fun hfits' => h.error (mt hfits.mpr hfits')⟩
  obtain ⟨result, hresult, hrun⟩ := h.ok (hfits.mp hfits') offset rest problems hrest
  exact ⟨result, hfound result hresult, hrun⟩

/-- A reader that runs like another one behind what leads to a text; the other one may depend on the
offset. -/
theorem behind {reader : Nat → Reader α} {other : Reader α} {lead : List Char}
    (h : ∀ offset, Reads (reader offset) text fits found)
    (hrun : ∀ offset rest problems, Follows rest →
      other.run (.before offset (lead ++ (text ++ rest)) problems) =
        (reader offset).run (.before (offset + lead.length) (text ++ rest) problems)) :
    Reads other (lead ++ text) fits found := by
  constructor
  · intro hfits offset rest problems hrest
    rw [List.append_assoc, hrun offset rest problems hrest, List.length_append, ← Nat.add_assoc]
    exact (h offset).ok hfits _ rest problems hrest
  · intro hfits offset rest problems hrest
    rw [List.append_assoc, hrun offset rest problems hrest]
    exact (h offset).error hfits _ rest problems hrest

/-- A reader that runs like another one in front of a text. -/
theorem of_run_eq {other : Reader α} (h : Reads reader text fits found)
    (hrun : ∀ offset rest problems, Follows rest →
      other.run (.before offset (text ++ rest) problems) =
        reader.run (.before offset (text ++ rest) problems)) :
    Reads other text fits found := by
  change Reads other ([] ++ text) fits found
  exact behind (fun _ => h) (by simpa using hrun)

/-- The cursor may be asked for before a text is read. -/
theorem cursor_bind {next : Cursor → Reader α} (h : ∀ start, Reads (next start) text fits found) :
    Reads (Reader.cursor >>= next) text fits found :=
  ⟨fun hfits offset rest problems hrest => (h _).ok hfits offset rest problems hrest,
    fun hfits offset rest problems hrest => (h _).error hfits offset rest problems hrest⟩

/-- What is read may be changed without reading on. -/
theorem bind {next : α → Reader β} {found' : β → Prop} (h : Reads reader text fits found)
    (hnext : ∀ result, found result → ∃ result', found' result' ∧
      ∀ state, (next result).run state = .ok (result', state)) :
    Reads (reader >>= next) text fits found' := by
  constructor
  · intro hfits offset rest problems hrest
    obtain ⟨result, hresult, hrun⟩ := h.ok hfits offset rest problems hrest
    obtain ⟨result', hresult', hlast⟩ := hnext result hresult
    exact ⟨result', hresult', by rw [Result.run_bind_of_ok hrun, hlast]⟩
  · intro hfits offset rest problems hrest
    obtain ⟨place, hrun⟩ := h.error hfits offset rest problems hrest
    exact ⟨place, Result.run_bind_of_error hrun⟩

end Reads

namespace Reader

section Steps

variable {β : Type} {offset : Nat} {part rest : List Char} {problems : List (Issue × Nat)}

theorem run_skipBlanks_append {next : Unit → Reader β} (hpart : ∀ c ∈ part, isBlank c = true)
    (hrest : Stops isBlank rest) :
    (skipBlanks >>= next).run (.before offset (part ++ rest) problems) =
      (next ()).run (.before (offset + part.length) rest problems) := by
  rw [run_skipBlanks_bind, ReadState.before, Cursor.skipBlanks, Cursor.skipWhile_append hpart hrest]
  rfl

theorem run_advance_append {next : Unit → Reader β} :
    (advance part.length >>= next).run (.before offset (part ++ rest) problems) =
      (next ()).run (.before (offset + part.length) rest problems) := by
  rw [run_advance_bind, ReadState.before, Cursor.advance_append]
  rfl

theorem run_advance_cons {c : Char} {next : Unit → Reader β} :
    (advance 1 >>= next).run (.before offset (c :: rest) problems) =
      (next ()).run (.before (offset + 1) rest problems) :=
  rfl

end Steps

end Reader

/-- Texts with commas between them up to a closing character, in front of which a comma may stand too.
Blanks may stand behind each text and behind each comma. -/
inductive Listed (close : Char) : List (List Char) → List Char → Prop
  | last {piece blanks : List Char} (hblanks : ∀ c ∈ blanks, isBlank c = true) :
      Listed close [piece] (piece ++ (blanks ++ [close]))
  | trailing {piece blanks more : List Char} (hblanks : ∀ c ∈ blanks, isBlank c = true)
      (hmore : ∀ c ∈ more, isBlank c = true) :
      Listed close [piece] (piece ++ (blanks ++ ',' :: (more ++ [close])))
  | next {piece blanks more text : List Char} {pieces : List (List Char)}
      (hblanks : ∀ c ∈ blanks, isBlank c = true) (hmore : ∀ c ∈ more, isBlank c = true)
      (htext : Listed close pieces text) :
      Listed close (piece :: pieces) (piece ++ (blanks ++ ',' :: (more ++ text)))

theorem Listed.exists_first {close : Char} {texts : List (List Char)} {written : List Char}
    (h : Listed close texts written) :
    ∃ first later tail, texts = first :: later ∧ written = first ++ tail := by
  cases h with
  | last => exact ⟨_, _, _, rfl, rfl⟩
  | trailing => exact ⟨_, _, _, rfl, rfl⟩
  | next => exact ⟨_, _, _, rfl, rfl⟩

theorem Listed.length_le {close : Char} {texts : List (List Char)} {written : List Char}
    (h : Listed close texts written) : texts.length ≤ written.length := by
  induction h with
  | last | trailing =>
      simp only [List.length_cons, List.length_nil, List.length_append]
      omega
  | next _ _ _ ih =>
      simp only [List.length_cons, List.length_append]
      omega

/-- A list of texts between an opening and a closing character. -/
inductive Enclosed (opening close : Char) : List (List Char) → List Char → Prop
  | empty {blanks : List Char} (hblanks : ∀ c ∈ blanks, isBlank c = true) :
      Enclosed opening close [] (opening :: (blanks ++ [close]))
  | list {blanks text : List Char} {pieces : List (List Char)} (hblanks : ∀ c ∈ blanks, isBlank c = true)
      (htext : Listed close pieces text) : Enclosed opening close pieces (opening :: (blanks ++ text))

namespace Reader

section Lists

variable {γ σ : Type} {close : Char} {unclosed : Reader σ} {endExpected : Char → Issue}
  {item : σ → Reader σ} {text : γ → List Char} {fits : γ → Prop} {track : List γ → σ → Prop}

section Step

variable {state : ReadState} {blanks more rest : List Char} {offset fuel : Nat} {done found : σ}
  {problems : List (Issue × Nat)}

theorem run_items_error {stop : Stop} (hrun : (item done).run state = .error stop) :
    (items close unclosed endExpected item (fuel + 1) done).run state = .error stop := by
  rw [items, Result.run_bind_of_error hrun]

theorem run_items_close (hclose : isEndMark close = true) (hcomma : close ≠ ',')
    (hblanks : ∀ c ∈ blanks, isBlank c = true)
    (hrun : (item done).run state = .ok (found, .before offset (blanks ++ close :: rest) problems)) :
    (items close unclosed endExpected item (fuel + 1) done).run state =
      .ok (found, .before (offset + blanks.length + 1) rest problems) := by
  rw [items, Result.run_bind_of_ok hrun, run_skipBlanks_append hblanks (.cons (isBlank_of_isEndMark hclose)),
    run_cursor_bind]
  simp only [ReadState.before, Cursor.peek?, List.head?_cons, beq_iff_eq, hcomma, if_false, if_true]
  rfl

theorem run_items_comma_close (hclose : isEndMark close = true)
    (hblanks : ∀ c ∈ blanks, isBlank c = true) (hmore : ∀ c ∈ more, isBlank c = true)
    (hrun : (item done).run state =
      .ok (found, .before offset (blanks ++ ',' :: (more ++ close :: rest)) problems)) :
    (items close unclosed endExpected item (fuel + 1) done).run state =
      .ok (found, .before (offset + blanks.length + 1 + more.length + 1) rest problems) := by
  rw [items, Result.run_bind_of_ok hrun, run_skipBlanks_append hblanks (.cons (by decide)), run_cursor_bind]
  simp only [ReadState.before, Cursor.peek?, List.head?_cons, beq_self_eq_true, if_true]
  rw [← ReadState.before, run_advance_cons, run_skipBlanks_append hmore
    (.cons (isBlank_of_isEndMark hclose)), run_cursor_bind]
  simp only [ReadState.before, List.head?_cons, beq_self_eq_true, if_true]
  rfl

theorem run_items_comma (hclose : isEndMark close = true) (hblanks : ∀ c ∈ blanks, isBlank c = true)
    (hmore : ∀ c ∈ more, isBlank c = true) (hrest : Begins rest)
    (hrun : (item done).run state =
      .ok (found, .before offset (blanks ++ ',' :: (more ++ rest)) problems)) :
    (items close unclosed endExpected item (fuel + 1) done).run state =
      (items close unclosed endExpected item fuel found).run
        (.before (offset + blanks.length + 1 + more.length) rest problems) := by
  rw [items, Result.run_bind_of_ok hrun, run_skipBlanks_append hblanks (.cons (by decide)), run_cursor_bind]
  simp only [ReadState.before, Cursor.peek?, List.head?_cons, beq_self_eq_true, if_true]
  rw [← ReadState.before, run_advance_cons, run_skipBlanks_append hmore hrest.stops, run_cursor_bind]
  simp only [ReadState.before, beq_iff_eq, hrest.head_ne hclose, if_false]

end Step

/-- A list whose items are read is read. `track` holds of the pieces still to be read and of what the
pieces before them gave. -/
theorem items_reads (hclose : isEndMark close = true) (hcomma : close ≠ ',')
    (hitem : ∀ piece pieces done, track (piece :: pieces) done →
      Begins (text piece) ∧ Reads (item done) (text piece) (fits piece) (track pieces))
    {texts : List (List Char)} {written : List Char} (hlisted : Listed close texts written)
    {pieces : List γ} (htexts : pieces.map text = texts) {fuel : Nat} (hfuel : pieces.length ≤ fuel)
    {done : σ} (htrack : track pieces done) :
    Reads (items close unclosed endExpected item fuel done) written (∀ piece ∈ pieces, fits piece)
      (track []) := by
  induction hlisted generalizing pieces fuel done with
  | @last first blanks hblanks =>
      obtain ⟨piece, pieces, rfl, rfl, hnil⟩ := List.map_eq_cons_iff.mp htexts
      obtain rfl := List.map_eq_nil_iff.mp hnil
      obtain ⟨fuel, rfl⟩ := Nat.exists_eq_succ_of_ne_zero (Nat.ne_of_gt hfuel)
      obtain ⟨-, hreads⟩ := hitem piece [] done htrack
      have hfollows (rest : List Char) : Follows (blanks ++ close :: rest) := .blanks_cons hblanks hclose
      constructor
      · intro hfits offset rest problems _
        obtain ⟨found, hfound, hrun⟩ := hreads.ok (hfits piece (by simp)) offset _ problems (hfollows rest)
        refine ⟨found, hfound, ?_⟩
        simpa [Nat.add_assoc] using run_items_close hclose hcomma hblanks hrun
      · intro hfits offset rest problems _
        obtain ⟨place, hrun⟩ := hreads.error (by simpa using hfits) offset _ problems (hfollows rest)
        exact ⟨place, run_items_error (by simpa using hrun)⟩
  | @trailing first blanks more hblanks hmore =>
      obtain ⟨piece, pieces, rfl, rfl, hnil⟩ := List.map_eq_cons_iff.mp htexts
      obtain rfl := List.map_eq_nil_iff.mp hnil
      obtain ⟨fuel, rfl⟩ := Nat.exists_eq_succ_of_ne_zero (Nat.ne_of_gt hfuel)
      obtain ⟨-, hreads⟩ := hitem piece [] done htrack
      have hfollows (rest : List Char) : Follows (blanks ++ ',' :: (more ++ close :: rest)) :=
        .blanks_cons hblanks (by decide)
      constructor
      · intro hfits offset rest problems _
        obtain ⟨found, hfound, hrun⟩ := hreads.ok (hfits piece (by simp)) offset _ problems (hfollows rest)
        refine ⟨found, hfound, ?_⟩
        simpa [Nat.add_assoc, Nat.add_comm 1] using run_items_comma_close hclose hblanks hmore hrun
      · intro hfits offset rest problems _
        obtain ⟨place, hrun⟩ := hreads.error (by simpa using hfits) offset _ problems (hfollows rest)
        exact ⟨place, run_items_error (by simpa using hrun)⟩
  | @next first blanks more written texts hblanks hmore htext ih =>
      obtain ⟨piece, pieces, rfl, rfl, hlater⟩ := List.map_eq_cons_iff.mp htexts
      obtain ⟨fuel, rfl⟩ := Nat.exists_eq_succ_of_ne_zero (Nat.ne_of_gt (Nat.zero_lt_of_lt hfuel))
      obtain ⟨-, hreads⟩ := hitem piece pieces done htrack
      have hfollows (rest : List Char) : Follows (blanks ++ ',' :: (more ++ (written ++ rest))) :=
        .blanks_cons hblanks (by decide)
      have hnext {found : σ} (hfound : track pieces found) (rest : List Char) :
          Begins (written ++ rest) := by
        obtain ⟨first, later, tail, rfl, rfl⟩ := htext.exists_first
        obtain ⟨other, others, rfl, rfl, -⟩ := List.map_eq_cons_iff.mp hlater
        exact ((hitem other others found hfound).1.append tail).append rest
      have hassoc (rest : List Char) : text piece ++ (blanks ++ ',' :: (more ++ written)) ++ rest =
          text piece ++ (blanks ++ ',' :: (more ++ (written ++ rest))) := by simp
      constructor
      · intro hfits offset rest problems hrest
        rw [hassoc]
        obtain ⟨found, hfound, hrun⟩ := hreads.ok (hfits piece (by simp)) offset _ problems (hfollows rest)
        obtain ⟨result, hresult, hlast⟩ := (ih hlater (Nat.le_of_succ_le_succ hfuel) hfound).ok
          (fun other hother => hfits other (List.mem_cons_of_mem _ hother)) _ rest problems hrest
        refine ⟨result, hresult, ?_⟩
        rw [run_items_comma hclose hblanks hmore (hnext hfound rest) hrun, hlast]
        simp [Nat.add_assoc, Nat.add_comm 1]
      · intro hfits offset rest problems hrest
        rw [hassoc]
        by_cases hpiece : fits piece
        · obtain ⟨found, hfound, hrun⟩ := hreads.ok hpiece offset _ problems (hfollows rest)
          rw [run_items_comma hclose hblanks hmore (hnext hfound rest) hrun]
          exact (ih hlater (Nat.le_of_succ_le_succ hfuel) hfound).error
            (fun hlater => hfits (List.forall_mem_cons.mpr ⟨hpiece, hlater⟩)) _ rest problems hrest
        · obtain ⟨place, hrun⟩ := hreads.error hpiece offset _ problems (hfollows rest)
          exact ⟨place, run_items_error hrun⟩

theorem run_list_items {opening : Char} {blanks text : List Char} {empty : σ} {offset : Nat}
    {problems : List (Issue × Nat)} (hclose : isEndMark close = true)
    (hblanks : ∀ c ∈ blanks, isBlank c = true) (htext : Begins text) :
    (list close unclosed endExpected item empty).run (.before offset (opening :: (blanks ++ text)) problems) =
      (items close unclosed endExpected item (text.length + 1) empty).run
        (.before (offset + 1 + blanks.length) text problems) := by
  rw [list, run_advance_cons, run_skipBlanks_append hblanks htext.stops, run_cursor_bind]
  simp only [ReadState.before, Cursor.peek?, beq_iff_eq, htext.head_ne hclose, if_false]

/-- A list in its opening and closing characters is read when its items are. -/
theorem list_reads {opening : Char} {empty : σ} (hclose : isEndMark close = true) (hcomma : close ≠ ',')
    (hitem : ∀ piece pieces done, track (piece :: pieces) done →
      Begins (text piece) ∧ Reads (item done) (text piece) (fits piece) (track pieces))
    {pieces : List γ} {written : List Char} (hwritten : Enclosed opening close (pieces.map text) written)
    (htrack : track pieces empty) :
    Reads (list close unclosed endExpected item empty) written (∀ piece ∈ pieces, fits piece)
      (track []) := by
  generalize htexts : pieces.map text = texts at hwritten
  cases hwritten with
  | @empty blanks hblanks =>
      obtain rfl := List.map_eq_nil_iff.mp htexts
      refine ⟨fun _ offset rest problems _ => ⟨empty, htrack, ?_⟩, fun hfits => (hfits (by simp)).elim⟩
      have hassoc : opening :: (blanks ++ [close]) ++ rest = opening :: (blanks ++ close :: rest) := by simp
      rw [hassoc, list, run_advance_cons, run_skipBlanks_append hblanks
        (.cons (isBlank_of_isEndMark hclose)), run_cursor_bind]
      simp only [ReadState.before, Cursor.peek?, List.head?_cons, beq_self_eq_true, if_true]
      rw [← ReadState.before, run_advance_cons, run_pure]
      simp [ReadState.before, Nat.add_assoc, Nat.add_comm 1]
  | @list blanks inner _ hblanks hinner =>
      have hfirst (rest : List Char) : Begins (inner ++ rest) := by
        obtain ⟨first, later, tail, rfl, rfl⟩ := hinner.exists_first
        obtain ⟨piece, pieces, rfl, rfl, -⟩ := List.map_eq_cons_iff.mp htexts
        exact ((hitem piece pieces empty htrack).1.append tail).append rest
      have hrun (offset : Nat) (rest : List Char) (problems : List (Issue × Nat)) :
          (list close unclosed endExpected item empty).run
              (.before offset (opening :: (blanks ++ inner) ++ rest) problems) =
            (items close unclosed endExpected item ((inner ++ rest).length + 1) empty).run
              (.before (offset + 1 + blanks.length) (inner ++ rest) problems) := by
        rw [List.cons_append, List.append_assoc, run_list_items hclose hblanks (hfirst rest)]
      have hfuel (rest : List Char) : pieces.length ≤ (inner ++ rest).length + 1 := by
        have hlength := hinner.length_le
        rw [← htexts, List.length_map] at hlength
        rw [List.length_append]
        omega
      have hreads (rest : List Char) :
          Reads (items close unclosed endExpected item ((inner ++ rest).length + 1) empty) inner
            (∀ piece ∈ pieces, fits piece) (track []) :=
        items_reads hclose hcomma hitem hinner htexts (hfuel rest) htrack
      constructor
      · intro hfits offset rest problems hrest
        obtain ⟨result, hresult, hitems⟩ := (hreads rest).ok hfits _ rest problems hrest
        refine ⟨result, hresult, ?_⟩
        rw [hrun, hitems]
        simp [Nat.add_assoc, Nat.add_comm 1]
      · intro hfits offset rest problems hrest
        rw [hrun]
        exact (hreads rest).error hfits _ rest problems hrest

end Lists

end Reader

end DocCompiler.Annotation

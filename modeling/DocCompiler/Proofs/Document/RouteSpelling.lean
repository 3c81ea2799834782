import DocCompiler.Proofs.Document.Canonical

/-!
The spellings of a route. A route is a list of segments; whatever slashes stand between them, however its
placeholders are written and whatever blanks are around it, its canonical form is the same.
-/

namespace DocCompiler.Route

open Text

/-- A segment of a route. -/
inductive Segment
  | literal (text : List Char)
  | parameter (name : List Char)

/-- A text that is a segment by itself. -/
structure IsLiteral (text : List Char) : Prop where
  ne_nil : text ≠ []
  plain : ∀ c ∈ text, c ≠ '/' ∧ c ≠ '\x7b' ∧ c ≠ '\x7d' ∧ isBlank c = false
  /-- It is no placeholder that is written with a colon. -/
  colon : ∀ c rest, text = ':' :: c :: rest → isNameStart c = false

/-- How a segment is written in a path. -/
inductive Segment.Spells : Segment → List Char → Prop
  | literal {text : List Char} (h : IsLiteral text) : Spells (.literal text) text
  | colon {name : List Char} (h : IsPlaceholderName name) : Spells (.parameter name) (':' :: name)
  | braces {name : List Char} (h : IsPlaceholderName name) :
      Spells (.parameter name) ('\x7b' :: (name ++ ['\x7d']))
  | constrained {name constraint : List Char} (h : IsPlaceholderName name) (hne : constraint ≠ [])
      (hplain : ∀ c ∈ constraint, c ≠ '/' ∧ c ≠ '\x7b' ∧ c ≠ '\x7d') :
      Spells (.parameter name) ('\x7b' :: (name ++ ':' :: (constraint ++ ['\x7d'])))

/-- The one spelling of a segment in documents. -/
def Segment.canonical : Segment → List Char
  | .literal text => text
  | .parameter name => '\x7b' :: (name ++ ['\x7d'])

/-- Segments that are written one behind the other, with slashes between them. -/
inductive Joined : List Segment → List Char → Prop
  | nil : Joined [] []
  | single {segment : Segment} {text : List Char} (h : segment.Spells text) : Joined [segment] text
  | cons {segment next : Segment} {segments : List Segment} {text body : List Char} {slashes : Nat}
      (h : segment.Spells text) (hslashes : 0 < slashes) (hbody : Joined (next :: segments) body) :
      Joined (segment :: next :: segments) (text ++ (List.replicate slashes '/' ++ body))

/-- A path that spells a route: its segments, with slashes and then blanks around them. -/
inductive Spelled (segments : List Segment) : List Char → Prop
  | intro (lead trail : List Char) {body : List Char} (front back : Nat) (hlead : ∀ c ∈ lead, isBlank c = true)
      (hbody : Joined segments body) (htrail : ∀ c ∈ trail, isBlank c = true) :
      Spelled segments
        (lead ++ (List.replicate front '/' ++ (body ++ List.replicate back '/')) ++ trail)

/-- The path of a route as it is written in documents. -/
def canonicalPath (segments : List Segment) : List Char :=
  '/' :: ['/'].intercalate (segments.map Segment.canonical)

/-- Segments with slashes in front of each, and maybe behind the last. -/
inductive Run : List Segment → List Char → Prop
  | nil (slashes : Nat) : Run [] (List.replicate slashes '/')
  | cons {segment : Segment} {segments : List Segment} {text rest : List Char} {slashes : Nat}
      (hslashes : 0 < slashes) (h : segment.Spells text) (hrest : Run segments rest) :
      Run (segment :: segments) (List.replicate slashes '/' ++ (text ++ rest))

@[simp] theorem Segment.canonical_parameter_append (name rest : List Char) :
    (parameter name).canonical ++ rest = '\x7b' :: (name ++ '\x7d' :: rest) := by
  simp [canonical]

/-- A text neither starts nor ends with a blank. -/
structure Unblanked (text : List Char) : Prop where
  head : Stops isBlank text
  last : ¬ EndsBlank text

namespace Unblanked

variable {text rest : List Char}

theorem nil : Unblanked [] :=
  ⟨nofun, fun ⟨_, hc, _⟩ => nomatch hc⟩

theorem of_forall (h : ∀ c ∈ text, isBlank c = false) : Unblanked text := by
  refine ⟨fun c hc => h c (List.mem_of_mem_head? hc), ?_⟩
  rintro ⟨c, hc, hblank⟩
  rw [h c (List.mem_of_getLast? hc)] at hblank
  cases hblank

theorem between (first last : Char) (hfirst : isBlank first = false) (hlast : isBlank last = false)
    (text : List Char) : Unblanked (first :: (text ++ [last])) := by
  refine ⟨.cons hfirst, ?_⟩
  rw [← List.cons_append, endsBlank_concat, hlast]
  decide

theorem slashes (count : Nat) : Unblanked (List.replicate count '/') :=
  of_forall fun c hc => by
    rw [List.eq_of_mem_replicate hc]
    rfl

theorem append (h : Unblanked text) (hrest : Unblanked rest) : Unblanked (text ++ rest) := by
  refine ⟨?_, ?_⟩
  · cases text with
    | nil => exact hrest.head
    | cons c text => exact .cons h.head.head
  · rcases List.eq_nil_or_concat' rest with rfl | ⟨front, c, rfl⟩
    · rw [List.append_nil]
      exact h.last
    · rw [← List.append_assoc, endsBlank_concat]
      exact fun hblank => hrest.last (endsBlank_concat.mpr hblank)

/-- Blanks around a text are cut, and nothing else. -/
theorem trim_eq {lead trail : List Char} (h : Unblanked text) (hlead : ∀ c ∈ lead, isBlank c = true)
    (htrail : ∀ c ∈ trail, isBlank c = true) : trim (lead ++ text ++ trail) = text := by
  have hstart : trimStart (lead ++ text ++ trail) = trimStart (text ++ trail) := by
    rw [List.append_assoc]
    exact List.dropWhile_append_of_pos hlead
  have hend : trimEnd (text ++ trail) = trimEnd text := by
    simp only [trimEnd, dropEndWhile, List.reverse_append]
    rw [List.dropWhile_append_of_pos fun c hc => htrail c (List.mem_reverse.mp hc)]
  rw [trim, hstart]
  cases text with
  | nil =>
      rw [List.nil_append, trimStart, List.dropWhile_eq_nil_iff.mpr htrail]
      rfl
  | cons c text =>
      have hhead : Stops isBlank (c :: text ++ trail) := .cons h.head.head
      rw [trimStart_eq_self hhead, hend, trimEnd_eq_self h.last]

end Unblanked

namespace Segment.Spells

variable {segment : Segment} {text : List Char} (h : segment.Spells text)

include h

theorem ne_nil : text ≠ [] := by
  cases h with
  | literal h => exact h.ne_nil
  | colon | braces | constrained => exact List.cons_ne_nil _ _

theorem notMem_slash : '/' ∉ text := by
  cases h with
  | literal h => exact fun hmem => (h.plain '/' hmem).1 rfl
  | colon h | braces h => simp [h.notMem '/' rfl]
  | @constrained name constraint h _ hplain =>
      have hconstraint : '/' ∉ constraint := fun hmem => (hplain '/' hmem).1 rfl
      simp [h.notMem '/' rfl, hconstraint]

theorem canonical : segment.Spells segment.canonical := by
  cases h with
  | literal h => exact .literal h
  | colon h | braces h | constrained h => exact .braces h

theorem unblanked : Unblanked text := by
  cases h with
  | literal h => exact .of_forall fun c hc => (h.plain c hc).2.2.2
  | @colon name h =>
      refine .of_forall (List.forall_mem_cons.mpr ⟨rfl, fun c hc => ?_⟩)
      exact isBlank_of_isNameChar (h.isNameChar c hc)
  | @braces name h => exact .between '\x7b' '\x7d' rfl rfl name
  | @constrained name constraint h =>
      simpa using Unblanked.between '\x7b' '\x7d' rfl rfl (name ++ ':' :: constraint)

end Segment.Spells

section Passes

variable {part rest : List Char}

theorem braceColons_append (hpart : '/' ∉ part) :
    braceColons 0 (part ++ rest) = part ++ braceColons 0 rest := by
  induction part with
  | nil => rfl
  | cons c part ih =>
      rw [List.mem_cons, not_or] at hpart
      have hother : ¬ StartsColon (c :: (part ++ rest)) :=
        fun hstarts => hpart.1 (Option.some.inj hstarts.head?).symm
      rw [List.cons_append, braceColons_char hother, ih hpart.2, List.cons_append]

theorem dropConstraints_append (part rest : List Char) (hpart : '\x7b' ∉ part) :
    dropConstraints 0 (part ++ rest) = part ++ dropConstraints 0 rest := by
  induction part with
  | nil => rfl
  | cons c part ih =>
      rw [List.mem_cons, not_or] at hpart
      have hother : ¬ StartsConstrained (c :: (part ++ rest)) :=
        fun hstarts => hpart.1 (Option.some.inj hstarts.head?).symm
      rw [List.cons_append, dropConstraints_char hother, ih hpart.2, List.cons_append]

/-- A placeholder without a constraint stays as it is. -/
theorem dropConstraints_braces {name : List Char} (hname : IsPlaceholderName name) :
    dropConstraints 0 ('\x7b' :: (name ++ '\x7d' :: rest)) =
      '\x7b' :: (name ++ '\x7d' :: dropConstraints 0 rest) := by
  have hother : ¬ StartsConstrained ('\x7b' :: (name ++ '\x7d' :: rest)) := by
    intro hstarts
    obtain ⟨c, hc, hblank | rfl⟩ := hstarts.exists_behind hname (.cons rfl)
    · obtain rfl := Option.some.inj hc
      exact absurd hblank (by decide)
    · cases hc
  have hbehind : '\x7b' ∉ name ++ ['\x7d'] := by
    simp [hname.notMem '\x7b' rfl]
  rw [dropConstraints_char hother]
  simpa using dropConstraints_append _ rest hbehind

theorem mergeSlashes_append (hpart : '/' ∉ part) :
    mergeSlashes (part ++ rest) = part ++ mergeSlashes rest := by
  induction part with
  | nil => rfl
  | cons c part ih =>
      rw [List.mem_cons, not_or] at hpart
      rw [List.cons_append, mergeSlashes, ih hpart.2, List.cons_append]
      exact fun _ hslash => absurd hslash.symm hpart.1

theorem mergeSlashes_slashes {slashes : Nat} (hslashes : 0 < slashes) (hrest : rest.head? ≠ some '/') :
    mergeSlashes (List.replicate slashes '/' ++ rest) = '/' :: mergeSlashes rest := by
  induction slashes, hslashes using Nat.le_induction with
  | base =>
      rw [List.replicate_one, List.singleton_append, mergeSlashes]
      rintro more - rfl
      exact hrest rfl
  | succ slashes hslashes ih =>
      obtain ⟨fewer, rfl⟩ := Nat.exists_eq_add_of_le' hslashes
      rw [List.replicate_succ, List.cons_append] at ih
      rw [List.replicate_succ, List.replicate_succ, List.cons_append, List.cons_append, mergeSlashes, ih]

/-- Nothing happens to a slash in front of another one, or at the end. -/
theorem passes_slash (hrest : ∀ c ∈ rest.head?, c = '/') :
    dropConstraints 0 (braceColons 0 ('/' :: rest)) = '/' :: dropConstraints 0 (braceColons 0 rest) := by
  have hother : ¬ StartsColon ('/' :: rest) := by
    generalize htext : '/' :: rest = text
    rintro ⟨more, -⟩
    obtain rfl := (List.cons.inj htext).2
    exact absurd (hrest ':' rfl) (by decide)
  rw [braceColons_char hother]
  exact dropConstraints_append ['/'] _ (by decide)

theorem passes_slashes (rest : List Char) (slashes : Nat) (hrest : ∀ c ∈ rest.head?, c = '/') :
    dropConstraints 0 (braceColons 0 (List.replicate slashes '/' ++ rest)) =
      List.replicate slashes '/' ++ dropConstraints 0 (braceColons 0 rest) := by
  induction slashes with
  | zero => rfl
  | succ slashes ih =>
      have hhead : ∀ c ∈ (List.replicate slashes '/' ++ rest).head?, c = '/' := by
        cases slashes with
        | zero => exact hrest
        | succ slashes => exact fun c hc => (Option.some.inj hc).symm
      rw [List.replicate_succ, List.cons_append, passes_slash hhead, ih, List.cons_append]

theorem IsLiteral.not_startsColon {text : List Char} (h : IsLiteral text)
    (hrest : ∀ c ∈ rest.head?, c = '/') : ¬ StartsColon ('/' :: (text ++ rest)) := by
  -- The character behind the colon may be the first one behind the segment, which is a slash.
  generalize hstart : '/' :: (text ++ rest) = start
  rintro @⟨c, more, hc⟩
  have hsplit := (List.cons.inj hstart).2
  match text, h.ne_nil, h.colon with
  | [d], _, _ =>
      have hbehind : rest = c :: more := (List.cons.inj hsplit).2
      rw [hrest c (hbehind ▸ rfl)] at hc
      exact absurd hc (by decide)
  | d :: e :: text, _, hcolon =>
      obtain ⟨rfl, rfl, -⟩ : d = ':' ∧ e = c ∧ text ++ rest = more := by simpa using hsplit
      rw [hcolon e text rfl] at hc
      cases hc

/-- A segment behind a slash gets its canonical spelling. -/
theorem Segment.Spells.passes {segment : Segment} {text : List Char} (h : segment.Spells text)
    (hrest : ∀ c ∈ rest.head?, c = '/') :
    dropConstraints 0 (braceColons 0 ('/' :: (text ++ rest))) =
      '/' :: (segment.canonical ++ dropConstraints 0 (braceColons 0 rest)) := by
  have hbraces (hother : ¬ StartsColon ('/' :: (text ++ rest))) :
      braceColons 0 ('/' :: (text ++ rest)) = '/' :: (text ++ braceColons 0 rest) := by
    rw [braceColons_char hother, braceColons_append h.notMem_slash]
  have hslash (text : List Char) : dropConstraints 0 ('/' :: text) = '/' :: dropConstraints 0 text :=
    dropConstraints_append ['/'] _ (by decide)
  cases h with
  | literal h =>
      have hbrace : '\x7b' ∉ text := fun hmem => (h.plain '\x7b' hmem).2.1 rfl
      rw [hbraces (h.not_startsColon hrest), hslash, dropConstraints_append _ _ hbrace]
      rfl
  | @colon name h =>
      have hstops : Stops isNameChar rest := by
        intro c hc
        rw [hrest c hc]
        rfl
      rw [List.cons_append, braceColons_placeholder h hstops, hslash, dropConstraints_braces h,
        Segment.canonical_parameter_append]
  | @braces name h =>
      rw [hbraces nofun, hslash, Segment.canonical_parameter_append, ← dropConstraints_braces h]
      simp
  | @constrained name constraint h hne hplain =>
      have hclosed : '\x7d' ∉ constraint := fun hmem => (hplain '\x7d' hmem).2.2 rfl
      rw [hbraces nofun, hslash, Segment.canonical_parameter_append]
      simpa using dropConstraints_placeholder (braceColons 0 rest) h (List.forall_mem_nil _) hne hclosed

end Passes

namespace Run

variable {segments : List Segment} {text : List Char}

theorem head? (h : Run segments text) : ∀ c ∈ text.head?, c = '/' := by
  have hslash {slashes : Nat} (hslashes : 0 < slashes) (rest : List Char) :
      ∀ c ∈ (List.replicate slashes '/' ++ rest).head?, c = '/' := by
    obtain ⟨fewer, rfl⟩ := Nat.exists_eq_add_of_lt hslashes
    simp [List.replicate_succ]
  cases h with
  | nil slashes => exact fun c hc => List.eq_of_mem_replicate (List.mem_of_mem_head? hc)
  | cons hslashes => exact hslash hslashes _

/-- All spellings of segments become the same, but for slashes at the end. -/
theorem passes (h : Run segments text) :
    ∃ slashes, (slashes = [] ∨ slashes = ['/']) ∧
      mergeSlashes (dropConstraints 0 (braceColons 0 text)) =
        segments.flatMap (fun segment => '/' :: segment.canonical) ++ slashes := by
  induction h with
  | nil slashes =>
      have hpasses := passes_slashes [] slashes nofun
      rw [List.append_nil] at hpasses
      rw [hpasses]
      cases slashes with
      | zero => exact ⟨[], .inl rfl, rfl⟩
      | succ slashes => exact ⟨['/'], .inr rfl, mergeSlashes_slashes (Nat.succ_pos _) nofun⟩
  | @cons segment segments text rest slashes hslashes h hrest ih =>
      obtain ⟨more, hmore, hpasses⟩ := ih
      refine ⟨more, hmore, ?_⟩
      obtain ⟨fewer, rfl⟩ := Nat.exists_eq_add_of_le' hslashes
      have hrun (later : List Char) :
          List.replicate (fewer + 1) '/' ++ later = List.replicate fewer '/' ++ '/' :: later := by
        simp [List.replicate_succ']
      have hhead : (segment.canonical ++ dropConstraints 0 (braceColons 0 rest)).head? ≠ some '/' := by
        rw [List.head?_append_of_ne_nil _ h.canonical.ne_nil]
        exact fun hslash => h.canonical.notMem_slash (List.mem_of_mem_head? hslash)
      rw [hrun, passes_slashes _ fewer (by simp), h.passes hrest.head?, ← hrun,
        mergeSlashes_slashes hslashes hhead, mergeSlashes_append h.canonical.notMem_slash, hpasses,
        List.flatMap_cons, List.cons_append, List.cons_append, List.append_assoc]

theorem getLast?_ne (h : Run segments text) :
    (segments.flatMap fun segment => '/' :: segment.canonical).getLast? ≠ some '/' := by
  induction h with
  | nil => exact nofun
  | @cons segment segments text rest slashes _ h _ ih =>
      rw [List.flatMap_cons, List.getLast?_append, Ne, Option.or_eq_some_iff, not_or]
      refine ⟨ih, fun hlast => h.canonical.notMem_slash ?_⟩
      rw [← List.singleton_append, List.getLast?_append_of_ne_nil _ h.canonical.ne_nil] at hlast
      exact List.mem_of_getLast? hlast.2

end Run

/-- Slashes between the segments of a route are slashes in front of each. -/
theorem canonicalPath_cons (segment : Segment) (segments : List Segment) :
    canonicalPath (segment :: segments) =
      (segment :: segments).flatMap fun segment => '/' :: segment.canonical := by
  induction segments generalizing segment with
  | nil => simp [canonicalPath]
  | cons next segments ih =>
      rw [List.flatMap_cons, ← ih next]
      simp [canonicalPath]

namespace Joined

variable {segments : List Segment} {body : List Char} (h : Joined segments body)

include h

theorem run {slashes : Nat} (hslashes : 0 < slashes) (back : Nat) :
    Run segments (List.replicate slashes '/' ++ (body ++ List.replicate back '/')) := by
  induction h generalizing slashes with
  | nil =>
      rw [List.nil_append, ← List.replicate_add]
      exact .nil _
  | single h => exact .cons hslashes h (.nil back)
  | cons h hbetween _ ih =>
      rw [List.append_assoc, List.append_assoc]
      exact .cons hslashes h (ih hbetween)

theorem ne_nil (hne : segments ≠ []) : body ≠ [] := by
  cases h with
  | nil => exact absurd rfl hne
  | single h => exact h.ne_nil
  | cons h => exact List.append_ne_nil_of_left_ne_nil h.ne_nil _

theorem head?_ne : body.head? ≠ some '/' := by
  cases h with
  | nil => exact nofun
  | single h => exact fun hslash => h.notMem_slash (List.mem_of_mem_head? hslash)
  | cons h =>
      rw [List.head?_append_of_ne_nil _ h.ne_nil]
      exact fun hslash => h.notMem_slash (List.mem_of_mem_head? hslash)

theorem unblanked : Unblanked body := by
  induction h with
  | nil => exact .nil
  | single h => exact h.unblanked
  | cons h _ _ ih => exact h.unblanked.append ((Unblanked.slashes _).append ih)

end Joined

namespace Spelled

variable {segments : List Segment} {path : List Char}

/-- Without the blanks around it, and with a slash at its start, a path has slashes in front of each of
its segments. -/
theorem run (h : Spelled segments path) : Run segments (rooted (trim path)) := by
  obtain @⟨lead, trail, body, front, back, hlead, hbody, htrail⟩ := h
  have hunblanked := (Unblanked.slashes front).append (hbody.unblanked.append (.slashes back))
  rw [hunblanked.trim_eq hlead htrail, rooted]
  split_ifs with hroot
  · cases front with
    | succ front => exact hbody.run (Nat.succ_pos front) back
    | zero =>
        cases segments with
        | nil =>
            cases hbody
            exact .nil back
        | cons segment segments =>
            have hne : body ≠ [] := hbody.ne_nil (List.cons_ne_nil _ _)
            rw [List.replicate_zero, List.nil_append, List.head?_append_of_ne_nil _ hne] at hroot
            exact absurd (beq_iff_eq.mp hroot) hbody.head?_ne
  · rw [← List.cons_append, ← List.replicate_succ]
    exact hbody.run (Nat.succ_pos front) back

theorem normalizeChars_eq (h : Spelled segments path) : normalizeChars path = canonicalPath segments := by
  obtain ⟨slashes, hslashes, hpasses⟩ := h.run.passes
  have htidy := tidy_passes (head?_rooted (trim path))
  have hlast := h.run.getLast?_ne
  rw [hpasses] at htidy
  rw [normalizeChars, hpasses]
  cases segments with
  | nil =>
      rcases hslashes with rfl | rfl
      · exact absurd htidy.rooted (by simp)
      · rfl
  | cons segment segments =>
      rw [canonicalPath_cons]
      rcases hslashes with rfl | rfl
      · rw [List.append_nil]
        exact dropLastSlash_eq_self fun hslash => absurd hslash hlast
      · exact dropLastSlash_append (List.cons_ne_nil _ _)

end Spelled

end DocCompiler.Route

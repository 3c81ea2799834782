import DocCompiler.Proofs.Document.Route

/-!
What is canonical about the canonical form of a path. It starts with a slash, its slashes are single, no
placeholder is left in another spelling, and it is its own canonical form unless it ends with a blank,
which it does when blanks of the path stand in front of slashes at its end.
-/

namespace DocCompiler.Route

open Text

/-- A path with single slashes, the first at its start, and with all placeholders in one spelling. -/
structure Tidy (path : List Char) : Prop where
  rooted : path.head? = some '/'
  single : ¬ ['/', '/'] <:+: path
  /-- No placeholder is left that is written with a colon. -/
  colons : Free StartsColon path
  /-- No placeholder is left that has a constraint. -/
  constraints : Free StartsConstrained path

/-- A path as it is written in a document. -/
structure Canonical (path : List Char) : Prop extends Tidy path where
  /-- No slash stands at the end, but for the one that is the path. -/
  last : path.getLast? = some '/' → path = ['/']

/-- The last character of a text is a blank. -/
def EndsBlank (text : List Char) : Prop :=
  ∃ c, text.getLast? = some c ∧ isBlank c = true

/-- All characters of a text are slashes. -/
def AllSlashes (text : List Char) : Prop :=
  ∀ c ∈ text, c = '/'

/-- A text ends with a blank, if slashes behind it do not count. -/
inductive BlankBeforeSlashes : List Char → Prop
  | here {c : Char} {slashes : List Char} (hc : isBlank c = true) (hslashes : AllSlashes slashes) :
      BlankBeforeSlashes (c :: slashes)
  | later (c : Char) {rest : List Char} (h : BlankBeforeSlashes rest) : BlankBeforeSlashes (c :: rest)

/-- A pass over texts leaves all characters but a mark as they are. -/
structure Spares (mark : Char) (pass : List Char → List Char → Prop) : Prop where
  /-- Any other character that comes out was there before. -/
  of_cons : ∀ {c text out}, pass text (c :: out) → c ≠ mark → ∃ rest, text = c :: rest ∧ pass rest out
  /-- A text that starts with any other character goes on to start with it. -/
  head? : ∀ {c text out}, pass text out → text.head? = some c → c ≠ mark → out.head? = some c

namespace Spares

variable {mark c : Char} {pass : List Char → List Char → Prop} {text rest later : List Char}
  (hspares : Spares mark pass)

include hspares

theorem of_append (part : List Char) (h : pass text (part ++ later)) (hpart : mark ∉ part) :
    ∃ rest, text = part ++ rest ∧ pass rest later := by
  induction part generalizing text with
  | nil => exact ⟨text, rfl, h⟩
  | cons c part ih =>
      rw [List.mem_cons, not_or] at hpart
      obtain ⟨behind, rfl, hbehind⟩ := hspares.of_cons h (Ne.symm hpart.1)
      obtain ⟨rest, rfl, hrest⟩ := ih hbehind hpart.2
      exact ⟨rest, rfl, hrest⟩

theorem startsColon (hcolon : mark ≠ ':') (hname : isNameChar mark = false) (h : pass rest later)
    (hstarts : StartsColon (c :: later)) : StartsColon (c :: rest) := by
  generalize htext : c :: later = text at hstarts
  obtain @⟨d, more, hd⟩ := hstarts
  obtain ⟨rfl, rfl⟩ := List.cons.inj htext
  have hmark : mark ≠ d := (ne_of_isNameChar (isNameChar_of_isNameStart hd) hname).symm
  obtain ⟨after, rfl, -⟩ := hspares.of_append [':', d] h (by simp [hcolon, hmark])
  exact .intro after hd

theorem startsConstrained (hcolon : mark ≠ ':') (hname : isNameChar mark = false)
    (hblank : isBlank mark = false) (hclosing : mark ≠ '\x7d')
    (hmem : ∀ {text out}, pass text out → '\x7d' ∈ out → '\x7d' ∈ text) (h : pass rest later)
    (hstarts : StartsConstrained (c :: later)) : StartsConstrained (c :: rest) := by
  generalize htext : c :: later = text at hstarts
  obtain @⟨name, blanks, constraint, more, hvalid, hblanks, hne, hclosed⟩ := hstarts
  obtain ⟨rfl, rfl⟩ := List.cons.inj htext
  have hmark : mark ∉ name ++ (blanks ++ [':']) := by
    have hnone : mark ∉ blanks := fun hmark => ne_of_isBlank (hblanks mark hmark) hblank rfl
    simp [hvalid.notMem mark hname, hnone, hcolon]
  -- Up to the colon the pass changed nothing; behind it the constraint may have come out shorter.
  have hsplit : name ++ (blanks ++ ':' :: (constraint ++ '\x7d' :: more)) =
      name ++ (blanks ++ [':']) ++ (constraint ++ '\x7d' :: more) := by simp
  rw [hsplit] at h
  obtain ⟨after, rfl, hafter⟩ := hspares.of_append _ h hmark
  have hhead : after.head? ≠ some '\x7d' := by
    intro hhead
    obtain ⟨d, constraint, rfl⟩ := List.exists_cons_of_ne_nil hne
    obtain rfl : d = '\x7d' := Option.some.inj (hspares.head? hafter hhead hclosing.symm)
    exact hclosed List.mem_cons_self
  simpa using startsConstrained_of_closing hvalid hblanks (hmem hafter (by simp)) hhead

end Spares

namespace Braces

theorem spares : Spares '/' Braces where
  of_cons h hc := by
    cases h with
    | placeholder => exact absurd rfl hc
    | char _ h => exact ⟨_, rfl, h⟩
  head? h hhead hc := by
    cases h with
    | nil => cases hhead
    | placeholder => exact absurd (Option.some.inj hhead).symm hc
    | char => exact hhead

variable {text out : List Char}

theorem rooted (h : Braces text out) (hroot : text.head? = some '/') : out.head? = some '/' := by
  cases h with
  | nil => cases hroot
  | placeholder => rfl
  | char => exact hroot

theorem colons (h : Braces text out) : Free StartsColon out := by
  induction h with
  | nil => exact .nil nofun
  | @placeholder name rest later hname hstops _ ih =>
      have hslash : '/' ∉ '\x7b' :: (name ++ ['\x7d']) := by
        simp [hname.notMem '/' rfl]
      have hbehind := Free.append (fun _ => StartsColon.head?) hslash ih
      refine Free.cons_iff.mpr ⟨nofun, ?_⟩
      simpa using hbehind
  | char hother h ih =>
      exact Free.cons_iff.mpr ⟨fun hstarts => hother (spares.startsColon (by decide) rfl h hstarts), ih⟩

end Braces

namespace Drops

theorem spares : Spares '\x7b' Drops where
  of_cons h hc := by
    cases h with
    | placeholder => exact absurd rfl hc
    | char _ h => exact ⟨_, rfl, h⟩
  head? h hhead hc := by
    cases h with
    | nil => cases hhead
    | placeholder => exact absurd (Option.some.inj hhead).symm hc
    | char => exact hhead

variable {text out : List Char} {c : Char}

theorem mem (h : Drops text out) (hc : c ∈ out) : c ∈ text := by
  induction h with
  | nil => exact hc
  | placeholder _ _ _ _ _ ih =>
      simp only [List.mem_cons, List.mem_append] at hc ⊢
      tauto
  | char _ _ ih => exact List.mem_cons.mpr ((List.mem_cons.mp hc).imp_right ih)

theorem colons (h : Drops text out) (hfree : Free StartsColon text) : Free StartsColon out := by
  induction h with
  | nil => exact hfree
  | @placeholder name blanks constraint rest later hname _ _ _ _ ih =>
      have hrest : rest <:+ '\x7b' :: (name ++ (blanks ++ ':' :: (constraint ++ '\x7d' :: rest))) :=
        ⟨'\x7b' :: (name ++ (blanks ++ ':' :: (constraint ++ ['\x7d']))), by simp⟩
      have hslash : '/' ∉ '\x7b' :: (name ++ ['\x7d']) := by
        simp [hname.notMem '/' rfl]
      simpa using Free.append (fun _ => StartsColon.head?) hslash (ih (hfree.suffix hrest))
  | char _ h ih =>
      obtain ⟨hfirst, hlater⟩ := Free.cons_iff.mp hfree
      exact Free.cons_iff.mpr ⟨fun hstarts => hfirst (spares.startsColon (by decide) rfl h hstarts), ih hlater⟩

theorem constraints (h : Drops text out) : Free StartsConstrained out := by
  induction h with
  | nil => exact .nil nofun
  | @placeholder name blanks constraint rest later hname _ _ _ _ ih =>
      have hbrace : '\x7b' ∉ name ++ ['\x7d'] := by
        simp [hname.notMem '\x7b' rfl]
      have hbehind := Free.append (fun _ => StartsConstrained.head?) hbrace ih
      refine Free.cons_iff.mpr ⟨fun hstarts => ?_, by simpa using hbehind⟩
      obtain ⟨c, hc, hblank | rfl⟩ := hstarts.exists_behind hname (.cons rfl)
      · obtain rfl := Option.some.inj hc
        exact absurd hblank (by decide)
      · cases hc
  | char hother h ih =>
      refine Free.cons_iff.mpr ⟨fun hstarts => hother ?_, ih⟩
      exact spares.startsConstrained (by decide) rfl (by decide) (by decide) Drops.mem h hstarts

end Drops

namespace Merges

variable {text out : List Char} {c : Char}

theorem head?_eq (h : Merges text out) : out.head? = text.head? := by
  induction h with
  | nil => rfl
  | slash _ ih => exact ih
  | char => rfl

theorem spares : Spares '/' Merges where
  of_cons h hc := by
    cases h with
    | slash h => exact absurd (Option.some.inj h.head?_eq) hc
    | char _ h => exact ⟨_, rfl, h⟩
  head? h hhead _ := h.head?_eq.trans hhead

theorem mem (h : Merges text out) (hc : c ∈ out) : c ∈ text := by
  induction h with
  | nil => exact hc
  | slash _ ih => exact List.mem_cons_of_mem _ (ih hc)
  | char _ _ ih => exact List.mem_cons.mpr ((List.mem_cons.mp hc).imp_right ih)

theorem single (h : Merges text out) : ¬ ['/', '/'] <:+: out := by
  induction h with
  | nil => simp
  | slash _ ih => exact ih
  | @char c rest later hother h ih =>
      rw [List.infix_cons_iff, not_or]
      refine ⟨?_, ih⟩
      rintro ⟨more, hmore⟩
      obtain ⟨rfl, rfl⟩ := List.cons.inj hmore
      obtain ⟨tail, rfl⟩ := List.head?_eq_some_iff.mp h.head?_eq.symm
      exact hother ⟨tail, rfl⟩

theorem colons (h : Merges text out) (hfree : Free StartsColon text) : Free StartsColon out := by
  induction h with
  | nil => exact hfree
  | slash _ ih => exact ih (Free.cons_iff.mp hfree).2
  | char _ h ih =>
      obtain ⟨hfirst, hlater⟩ := Free.cons_iff.mp hfree
      exact Free.cons_iff.mpr ⟨fun hstarts => hfirst (spares.startsColon (by decide) rfl h hstarts), ih hlater⟩

theorem constraints (h : Merges text out) (hfree : Free StartsConstrained text) :
    Free StartsConstrained out := by
  induction h with
  | nil => exact hfree
  | slash _ ih => exact ih (Free.cons_iff.mp hfree).2
  | char _ h ih =>
      obtain ⟨hfirst, hlater⟩ := Free.cons_iff.mp hfree
      refine Free.cons_iff.mpr ⟨fun hstarts => hfirst ?_, ih hlater⟩
      exact spares.startsConstrained (by decide) rfl (by decide) (by decide) Merges.mem h hstarts

end Merges

section Unchanged

variable {text : List Char}

theorem braceColons_eq_self (h : Free StartsColon text) : braceColons 0 text = text := by
  induction text with
  | nil => rfl
  | cons c rest ih =>
      obtain ⟨hfirst, hlater⟩ := Free.cons_iff.mp h
      rw [braceColons_char hfirst, ih hlater]

theorem dropConstraints_eq_self (h : Free StartsConstrained text) : dropConstraints 0 text = text := by
  induction text with
  | nil => rfl
  | cons c rest ih =>
      obtain ⟨hfirst, hlater⟩ := Free.cons_iff.mp h
      rw [dropConstraints_char hfirst, ih hlater]

theorem mergeSlashes_eq_self (h : ¬ ['/', '/'] <:+: text) : mergeSlashes text = text := by
  fun_induction mergeSlashes text with
  | case1 rest ih => exact absurd ⟨[], rest, rfl⟩ h
  | case2 c rest hother ih => rw [ih fun hlater => h (List.infix_cons hlater)]
  | case3 => rfl

theorem rooted_eq_self (h : text.head? = some '/') : rooted text = text := by
  rw [rooted, if_pos (beq_iff_eq.mpr h)]

theorem head?_rooted (text : List Char) : (rooted text).head? = some '/' := by
  rw [rooted]
  split_ifs with hroot
  · exact beq_iff_eq.mp hroot
  · rfl

theorem dropLastSlash_eq_self (h : text.getLast? = some '/' → text = ['/']) : dropLastSlash text = text := by
  refine if_neg ?_
  simp only [Bool.and_eq_true, decide_eq_true_eq, beq_iff_eq, not_and]
  intro hlong hlast
  rw [h hlast] at hlong
  exact absurd hlong (by decide)

theorem dropLastSlash_append {part : List Char} (h : part ≠ []) : dropLastSlash (part ++ ['/']) = part := by
  have hlong : 0 < part.length := List.length_pos_iff.mpr h
  simp [dropLastSlash, hlong]

/-- A slash that is cut stands behind something. -/
theorem dropLastSlash_cases (text : List Char) :
    (∃ part, part ≠ [] ∧ text = part ++ ['/']) ∨ (text.getLast? = some '/' → text = ['/']) := by
  by_cases hlast : text.getLast? = some '/'
  · obtain ⟨part, rfl⟩ := List.getLast?_eq_some_iff.mp hlast
    by_cases hpart : part = []
    · exact .inr fun _ => by rw [hpart, List.nil_append]
    · exact .inl ⟨part, hpart, rfl⟩
  · exact .inr fun h => absurd h hlast

theorem dropLastSlash_isPrefix (text : List Char) : dropLastSlash text <+: text := by
  rw [dropLastSlash]
  split_ifs
  · exact List.dropLast_prefix text
  · exact List.prefix_rfl

end Unchanged

section Ends

variable {text : List Char}

theorem endsBlank_concat {part : List Char} {c : Char} : EndsBlank (part ++ [c]) ↔ isBlank c = true := by
  simp [EndsBlank]

theorem trimStart_eq_self (h : Stops isBlank text) : trimStart text = text := by
  cases text with
  | nil => rfl
  | cons c rest => exact List.dropWhile_cons_of_neg (by rw [h.head]; decide)

theorem trimEnd_eq_self (h : ¬ EndsBlank text) : trimEnd text = text := by
  rcases List.eq_nil_or_concat' text with rfl | ⟨part, c, rfl⟩
  · rfl
  · rw [endsBlank_concat] at h
    simp [trimEnd, dropEndWhile, h]

theorem not_endsBlank_trimEnd (text : List Char) : ¬ EndsBlank (trimEnd text) := by
  rintro ⟨c, hc, hblank⟩
  rw [trimEnd, dropEndWhile, List.getLast?_reverse] at hc
  rw [stops_dropWhile isBlank text.reverse c hc] at hblank
  cases hblank

theorem trimEnd_ne_nil {c : Char} (hmem : c ∈ text) (hc : isBlank c = false) : trimEnd text ≠ [] := by
  intro hnil
  rw [trimEnd, dropEndWhile, List.reverse_eq_nil_iff, List.dropWhile_eq_nil_iff] at hnil
  rw [hnil c (List.mem_reverse.mpr hmem)] at hc
  cases hc

theorem trimEnd_isPrefix (text : List Char) : trimEnd text <+: text := by
  rw [← List.reverse_suffix, trimEnd, dropEndWhile, List.reverse_reverse]
  exact List.dropWhile_suffix _

end Ends

theorem allSlashes_cons {c : Char} {rest : List Char} :
    AllSlashes (c :: rest) ↔ c = '/' ∧ AllSlashes rest :=
  List.forall_mem_cons

theorem not_allSlashes_of_mem {c : Char} {text : List Char} (hc : c ∈ text) (hother : c ≠ '/') :
    ¬ AllSlashes text :=
  fun h => hother (h c hc)

namespace BlankBeforeSlashes

variable {c : Char} {part rest : List Char}

theorem cons_iff : BlankBeforeSlashes (c :: rest) ↔
    isBlank c = true ∧ AllSlashes rest ∨ BlankBeforeSlashes rest := by
  constructor
  · rintro (⟨hc, hslashes⟩ | ⟨-, h⟩)
    · exact .inl ⟨hc, hslashes⟩
    · exact .inr h
  · rintro (⟨hc, hslashes⟩ | h)
    · exact .here hc hslashes
    · exact .later c h

theorem cons_of_not_isBlank (hc : isBlank c = false) :
    BlankBeforeSlashes (c :: rest) ↔ BlankBeforeSlashes rest := by
  simp [cons_iff, hc]

/-- What stands in front of a character that is no slash does not count. -/
theorem append_cons (hslash : c ≠ '/') (hc : isBlank c = false) :
    BlankBeforeSlashes (part ++ c :: rest) ↔ BlankBeforeSlashes rest := by
  induction part with
  | nil => exact cons_of_not_isBlank hc
  | cons d part ih =>
      have hmem : c ∈ part ++ c :: rest := by simp
      rw [List.cons_append, cons_iff, ih]
      exact or_iff_right fun h => not_allSlashes_of_mem hmem hslash h.2

theorem append_of_not_isBlank (hpart : ∀ d ∈ part, isBlank d = false) :
    BlankBeforeSlashes (part ++ rest) ↔ BlankBeforeSlashes rest := by
  induction part with
  | nil => exact Iff.rfl
  | cons d part ih =>
      rw [List.forall_mem_cons] at hpart
      rw [List.cons_append, cons_of_not_isBlank hpart.1, ih hpart.2]

/-- The last character counts as it is, or is a slash that does not count. -/
theorem concat_iff : BlankBeforeSlashes (part ++ [c]) ↔
    isBlank c = true ∨ c = '/' ∧ BlankBeforeSlashes part := by
  induction part with
  | nil =>
      have hnil : ¬ BlankBeforeSlashes [] := nofun
      have hslashes : AllSlashes [] := nofun
      simp [cons_iff, hnil, hslashes]
  | cons d part ih =>
      have hslashes : AllSlashes (part ++ [c]) ↔ AllSlashes part ∧ c = '/' := by
        simp only [AllSlashes, List.forall_mem_append, List.forall_mem_singleton]
      rw [List.cons_append, cons_iff, ih, cons_iff, hslashes]
      tauto

/-- A text whose last character is no slash ends with a blank or does not. -/
theorem iff_endsBlank {text : List Char} (hlast : text.getLast? ≠ some '/') :
    BlankBeforeSlashes text ↔ EndsBlank text := by
  rcases List.eq_nil_or_concat' text with rfl | ⟨part, c, rfl⟩
  · exact ⟨nofun, nofun⟩
  · rw [concat_iff, endsBlank_concat]
    refine or_iff_left fun hslash => hlast ?_
    rw [hslash.1, List.getLast?_append, List.getLast?_singleton, Option.some_or]

end BlankBeforeSlashes

section Slashes

variable {text out : List Char}

theorem Braces.allSlashes (h : Braces text out) : AllSlashes text ↔ AllSlashes out := by
  induction h with
  | nil => exact Iff.rfl
  | placeholder =>
      exact iff_of_false (not_allSlashes_of_mem (c := ':') (by simp) (by decide))
        (not_allSlashes_of_mem (c := '\x7b') (by simp) (by decide))
  | char _ _ ih => rw [allSlashes_cons, allSlashes_cons, ih]

theorem Drops.allSlashes (h : Drops text out) : AllSlashes text ↔ AllSlashes out := by
  induction h with
  | nil => exact Iff.rfl
  | placeholder =>
      exact iff_of_false (not_allSlashes_of_mem (c := '\x7b') (by simp) (by decide))
        (not_allSlashes_of_mem (c := '\x7b') (by simp) (by decide))
  | char _ _ ih => rw [allSlashes_cons, allSlashes_cons, ih]

theorem Merges.allSlashes (h : Merges text out) : AllSlashes text ↔ AllSlashes out := by
  induction h with
  | nil => exact Iff.rfl
  | slash _ ih => rw [allSlashes_cons, ih, eq_self, true_and]
  | char _ _ ih => rw [allSlashes_cons, allSlashes_cons, ih]

theorem Braces.blankBeforeSlashes (h : Braces text out) :
    BlankBeforeSlashes text ↔ BlankBeforeSlashes out := by
  induction h with
  | nil => exact Iff.rfl
  | @placeholder name rest later hname _ _ ih =>
      have hbefore : ∀ d ∈ ['/', ':'] ++ name, isBlank d = false := by
        simp only [List.forall_mem_append, List.forall_mem_cons]
        exact ⟨⟨rfl, rfl, nofun⟩, fun d hd => isBlank_of_isNameChar (hname.isNameChar d hd)⟩
      have htext : BlankBeforeSlashes (['/', ':'] ++ name ++ rest) ↔ BlankBeforeSlashes rest :=
        BlankBeforeSlashes.append_of_not_isBlank hbefore
      have hout : BlankBeforeSlashes ('/' :: '\x7b' :: name ++ '\x7d' :: later) ↔ BlankBeforeSlashes later :=
        BlankBeforeSlashes.append_cons (by decide) rfl
      exact htext.trans (ih.trans hout.symm)
  | char _ h ih => rw [BlankBeforeSlashes.cons_iff, BlankBeforeSlashes.cons_iff, ih, h.allSlashes]

theorem Drops.blankBeforeSlashes (h : Drops text out) :
    BlankBeforeSlashes text ↔ BlankBeforeSlashes out := by
  induction h with
  | nil => exact Iff.rfl
  | @placeholder name blanks constraint rest later _ _ _ _ _ ih =>
      have htext : BlankBeforeSlashes
          ('\x7b' :: (name ++ (blanks ++ ':' :: constraint)) ++ '\x7d' :: rest) ↔ BlankBeforeSlashes rest :=
        BlankBeforeSlashes.append_cons (by decide) rfl
      have hout : BlankBeforeSlashes ('\x7b' :: name ++ '\x7d' :: later) ↔ BlankBeforeSlashes later :=
        BlankBeforeSlashes.append_cons (by decide) rfl
      simpa using htext.trans (ih.trans hout.symm)
  | char _ h ih => rw [BlankBeforeSlashes.cons_iff, BlankBeforeSlashes.cons_iff, ih, h.allSlashes]

theorem Merges.blankBeforeSlashes (h : Merges text out) :
    BlankBeforeSlashes text ↔ BlankBeforeSlashes out := by
  induction h with
  | nil => exact Iff.rfl
  | slash _ ih => rw [BlankBeforeSlashes.cons_of_not_isBlank rfl, ih]
  | char _ h ih => rw [BlankBeforeSlashes.cons_iff, BlankBeforeSlashes.cons_iff, ih, h.allSlashes]

end Slashes

theorem blankBeforeSlashes_rooted (text : List Char) :
    BlankBeforeSlashes (rooted text) ↔ BlankBeforeSlashes text := by
  rw [rooted]
  split_ifs
  · exact Iff.rfl
  · exact BlankBeforeSlashes.cons_of_not_isBlank rfl

namespace Tidy

variable {path part : List Char}

theorem of_isPrefix (h : Tidy path) (hpart : part <+: path) (hne : part ≠ []) : Tidy part := by
  obtain ⟨rest, rfl⟩ := hpart
  obtain ⟨hroot, hsingle, hcolons, hconstraints⟩ := h
  refine ⟨?_, fun hpair => hsingle (hpair.trans (List.prefix_append part rest).isInfix),
    hcolons.of_append StartsColon.append, hconstraints.of_append StartsConstrained.append⟩
  rwa [List.head?_append_of_ne_nil _ hne] at hroot

theorem passes (h : Tidy path) : mergeSlashes (dropConstraints 0 (braceColons 0 (Route.rooted path))) = path := by
  rw [rooted_eq_self h.rooted, braceColons_eq_self h.colons, dropConstraints_eq_self h.constraints,
    mergeSlashes_eq_self h.single]

theorem trimStart_eq (h : Tidy path) : trimStart path = path := by
  refine trimStart_eq_self fun c hc => ?_
  obtain rfl := Option.some.inj (h.rooted.symm.trans hc)
  rfl

theorem canonical_dropLastSlash (h : Tidy path) : Canonical (dropLastSlash path) := by
  rcases dropLastSlash_cases path with ⟨part, hne, rfl⟩ | hlast
  · rw [dropLastSlash_append hne]
    refine ⟨h.of_isPrefix (List.prefix_append part _) hne, fun hslash => ?_⟩
    obtain ⟨front, rfl⟩ := List.getLast?_eq_some_iff.mp hslash
    exact absurd ⟨front, [], by simp⟩ h.single
  · rw [dropLastSlash_eq_self hlast]
    exact ⟨h, hlast⟩

/-- A tidy path ends with a blank after the cut when a blank stands in front of its last slash. -/
theorem endsBlank_dropLastSlash (h : Tidy path) :
    EndsBlank (dropLastSlash path) ↔ BlankBeforeSlashes path := by
  rcases dropLastSlash_cases path with ⟨part, hne, rfl⟩ | hlast
  · have hpart : part.getLast? ≠ some '/' := by
      intro hslash
      obtain ⟨front, rfl⟩ := List.getLast?_eq_some_iff.mp hslash
      exact h.single ⟨front, [], by simp⟩
    rw [dropLastSlash_append hne, BlankBeforeSlashes.concat_iff, BlankBeforeSlashes.iff_endsBlank hpart]
    simp [isBlank]
  · rw [dropLastSlash_eq_self hlast]
    by_cases hslash : path.getLast? = some '/'
    · rw [hlast hslash]
      exact iff_of_false (by rintro ⟨c, ⟨⟩, ⟨⟩⟩) (by rintro (⟨⟨⟩, -⟩ | ⟨-, ⟨⟩⟩))
    · exact (BlankBeforeSlashes.iff_endsBlank hslash).symm

end Tidy

/-- What the passes make of a text that starts with a slash is tidy. -/
theorem tidy_passes {text : List Char} (h : text.head? = some '/') :
    Tidy (mergeSlashes (dropConstraints 0 (braceColons 0 text))) := by
  have hbraces := braces_braceColons text
  have hdrops := drops_dropConstraints (braceColons 0 text)
  have hmerges := merges_mergeSlashes (dropConstraints 0 (braceColons 0 text))
  refine ⟨?_, hmerges.single, hmerges.colons (hdrops.colons hbraces.colons),
    hmerges.constraints hdrops.constraints⟩
  rw [hmerges.head?_eq]
  exact Drops.spares.head? hdrops (hbraces.rooted h) (by decide)

/-- The passes keep the blanks that stand in front of the slashes at the end. -/
theorem blankBeforeSlashes_passes (text : List Char) :
    BlankBeforeSlashes (mergeSlashes (dropConstraints 0 (braceColons 0 text))) ↔ BlankBeforeSlashes text := by
  rw [← (merges_mergeSlashes _).blankBeforeSlashes, ← (drops_dropConstraints _).blankBeforeSlashes,
    ← (braces_braceColons _).blankBeforeSlashes]

/-- A canonical path is its own canonical form, unless a blank at its end is cut. -/
theorem Canonical.normalizeChars_eq_self_iff {path : List Char} (h : Canonical path) :
    normalizeChars path = path ↔ ¬ EndsBlank path := by
  have hne : trimEnd path ≠ [] := trimEnd_ne_nil (List.mem_of_mem_head? h.rooted) rfl
  have hpasses : normalizeChars path = dropLastSlash (trimEnd path) := by
    rw [normalizeChars, trim, h.trimStart_eq, (h.toTidy.of_isPrefix (trimEnd_isPrefix path) hne).passes]
  by_cases hend : EndsBlank path
  · refine iff_of_false (fun heq => ?_) (not_not.mpr hend)
    have hback := dropLastSlash_isPrefix (trimEnd path)
    rw [← hpasses, heq] at hback
    have hsame : trimEnd path = path := (trimEnd_isPrefix path).eq_of_length_le hback.length_le
    exact not_endsBlank_trimEnd path (hsame.symm ▸ hend)
  · refine iff_of_true ?_ hend
    rw [hpasses, trimEnd_eq_self hend, dropLastSlash_eq_self h.last]

/-- The form of a path is canonical. It is its own form unless it ends with a blank, and it does so when
the path has blanks in front of the slashes at its end. -/
theorem normalize_canonical (path : String) :
    Canonical (normalize path).toList ∧
      (normalize (normalize path) = normalize path ↔ ¬ EndsBlank (normalize path).toList) ∧
      (EndsBlank (normalize path).toList ↔ BlankBeforeSlashes (trim path.toList)) := by
  have htidy := tidy_passes (head?_rooted (trim path.toList))
  have hchars : (normalize path).toList = normalizeChars path.toList := String.toList_ofList
  have hcanonical : Canonical (normalize path).toList := hchars ▸ htidy.canonical_dropLastSlash
  refine ⟨hcanonical, ?_, ?_⟩
  · rw [← hcanonical.normalizeChars_eq_self_iff, ← String.toList_inj, normalize, String.toList_ofList]
  · rw [hchars, normalizeChars, htidy.endsBlank_dropLastSlash, blankBeforeSlashes_passes,
      blankBeforeSlashes_rooted]

/-- A path whose form is not its own form, and which names another route for it. -/
theorem normalize_blank_before_slash :
    normalize "/a /" = "/a " ∧ normalize "/a " = "/a" := by
  decide +kernel

end DocCompiler.Route

import DocCompiler.Proofs.Text.Line
import DocCompiler.Text.Pattern

/-!
What patterns match. Which parts of a text a pattern may match is told by its form, and the match that a search
comes to is one of them. The same match is found wherever a search starts to count.
-/

namespace DocCompiler

/-- The state behind a part of what follows, with what was picked out in the part. -/
structure MatchState.Passes (state : MatchState) (part : List Char) (groups : List (PatternGroup × List Char))
    (after : MatchState) : Prop where
  rest_eq : state.rest = part ++ after.rest
  taken_eq : after.taken = state.taken + part.length
  groups_eq : after.groups = groups ++ state.groups

theorem MatchState.Passes.trans {state between after : MatchState} {part more : List Char}
    {groups others : List (PatternGroup × List Char)} (h : state.Passes part groups between)
    (h' : between.Passes more others after) : state.Passes (part ++ more) (others ++ groups) after where
  rest_eq := by rw [h.rest_eq, h'.rest_eq, List.append_assoc]
  taken_eq := by rw [h'.taken_eq, h.taken_eq, List.length_append, Nat.add_assoc]
  groups_eq := by rw [h'.groups_eq, h.groups_eq, List.append_assoc]

/-- The same state of a search that has taken more characters before. -/
def MatchState.shift (count : Nat) (state : MatchState) : MatchState :=
  { state with taken := count + state.taken }

namespace Pattern

/-- The parts that a pattern matches, each with what is picked out in it, newest first. -/
inductive Matches : Pattern → List Char → List (PatternGroup × List Char) → Prop
  | nothing : Matches .nothing [] []
  | one {accepts : Char → Bool} {c : Char} (h : accepts c = true) : Matches (.one accepts) [c] []
  | text (literal : List Char) : Matches (.text literal) literal []
  | follow {first second : Pattern} {part more : List Char} {groups others : List (PatternGroup × List Char)}
      (h : Matches first part groups) (h' : Matches second more others) :
      Matches (.follow first second) (part ++ more) (others ++ groups)
  | first {first second : Pattern} {part : List Char} {groups : List (PatternGroup × List Char)}
      (h : Matches first part groups) : Matches (.either first second) part groups
  | second {first second : Pattern} {part : List Char} {groups : List (PatternGroup × List Char)}
      (h : Matches second part groups) : Matches (.either first second) part groups
  | stop (body : Pattern) (greedy : Bool) : Matches (.many body greedy) [] []
  | more {body : Pattern} {greedy : Bool} {part more : List Char}
      {groups others : List (PatternGroup × List Char)} (h : Matches body part groups)
      (h' : Matches (.many body greedy) more others) :
      Matches (.many body greedy) (part ++ more) (others ++ groups)
  | group {kind : PatternGroup} {body : Pattern} {part : List Char}
      {groups : List (PatternGroup × List Char)} (h : Matches body part groups) :
      Matches (.group kind body) part ((kind, part) :: groups)

section Inversion

variable {first second body : Pattern} {part : List Char} {groups : List (PatternGroup × List Char)}

theorem matches_nothing_iff : nothing.Matches part groups ↔ part = [] ∧ groups = [] := by
  refine ⟨fun h => ?_, ?_⟩
  · cases h
    exact ⟨rfl, rfl⟩
  · rintro ⟨rfl, rfl⟩
    exact .nothing

theorem matches_one_iff {accepts : Char → Bool} :
    (one accepts).Matches part groups ↔ ∃ c, accepts c = true ∧ part = [c] ∧ groups = [] := by
  refine ⟨fun h => ?_, ?_⟩
  · cases h with
    | one hc => exact ⟨_, hc, rfl, rfl⟩
  · rintro ⟨c, hc, rfl, rfl⟩
    exact .one hc

theorem matches_text_iff {literal : List Char} :
    (text literal).Matches part groups ↔ part = literal ∧ groups = [] := by
  refine ⟨fun h => ?_, ?_⟩
  · cases h
    exact ⟨rfl, rfl⟩
  · rintro ⟨rfl, rfl⟩
    exact .text part

theorem matches_follow_iff :
    (follow first second).Matches part groups ↔ ∃ front back picked later, first.Matches front picked ∧
      second.Matches back later ∧ part = front ++ back ∧ groups = later ++ picked := by
  refine ⟨fun h => ?_, ?_⟩
  · cases h with
    | follow h h' => exact ⟨_, _, _, _, h, h', rfl, rfl⟩
  · rintro ⟨_, _, _, _, h, h', rfl, rfl⟩
    exact .follow h h'

theorem matches_either_iff :
    (either first second).Matches part groups ↔ first.Matches part groups ∨ second.Matches part groups := by
  refine ⟨fun h => ?_, fun h => h.elim .first .second⟩
  cases h with
  | first h => exact .inl h
  | second h => exact .inr h

theorem matches_many_iff {greedy : Bool} :
    (many body greedy).Matches part groups ↔ (part = [] ∧ groups = []) ∨
      ∃ front back picked later, body.Matches front picked ∧ (many body greedy).Matches back later ∧
        part = front ++ back ∧ groups = later ++ picked := by
  refine ⟨fun h => ?_, ?_⟩
  · cases h with
    | stop => exact .inl ⟨rfl, rfl⟩
    | more h h' => exact .inr ⟨_, _, _, _, h, h', rfl, rfl⟩
  · rintro (⟨rfl, rfl⟩ | ⟨_, _, _, _, h, h', rfl, rfl⟩)
    · exact .stop body greedy
    · exact .more h h'

theorem matches_group_iff {kind : PatternGroup} :
    (group kind body).Matches part groups ↔
      ∃ picked, body.Matches part picked ∧ groups = (kind, part) :: picked := by
  refine ⟨fun h => ?_, ?_⟩
  · cases h with
    | group h => exact ⟨_, h, rfl⟩
  · rintro ⟨_, h, rfl⟩
    exact .group h

end Inversion

section Search

variable {pattern body : Pattern} {state final : MatchState} {next : MatchState → Option MatchState}

/-- A way to go on from a state: behind a part that a pattern matches, the rest is found. -/
def Leads (pattern : Pattern) (state : MatchState) (next : MatchState → Option MatchState)
    (final : MatchState) : Prop :=
  ∃ part groups after, pattern.Matches part groups ∧ state.Passes part groups after ∧ next after = .some final

theorem passes_refl (state : MatchState) : state.Passes [] [] state :=
  ⟨rfl, rfl, rfl⟩

theorem leads_of_iterate {greedy : Bool} {fuel : Nat}
    (hbody : ∀ {state final next}, body.step state next = .some final → body.Leads state next final)
    (h : iterate body.step greedy fuel state next = .some final) : (many body greedy).Leads state next final := by
  induction fuel generalizing state next with
  | zero => exact ⟨[], [], state, .stop body greedy, passes_refl state, h⟩
  | succ fuel ih =>
      have hstop (h : next state = .some final) : (many body greedy).Leads state next final :=
        ⟨[], [], state, .stop body greedy, passes_refl state, h⟩
      have hmore (h : (body.step state fun after => iterate body.step greedy fuel after next) = .some final) :
          (many body greedy).Leads state next final := by
        obtain ⟨part, groups, between, hpart, hpasses, hrest⟩ := hbody h
        obtain ⟨more, others, after, hmore, hlater, hnext⟩ := ih hrest
        exact ⟨part ++ more, others ++ groups, after, .more hpart hmore, hpasses.trans hlater, hnext⟩
      rw [iterate] at h
      split_ifs at h
      · exact (Option.or_eq_some_iff.mp h).elim hmore fun h => hstop h.2
      · exact (Option.or_eq_some_iff.mp h).elim hstop fun h => hmore h.2

/-- A search finds something that the pattern matches, with what follows found behind it. -/
theorem leads_of_step (h : pattern.step state next = .some final) : pattern.Leads state next final := by
  induction pattern generalizing state next final with
  | nothing => exact ⟨[], [], state, .nothing, passes_refl state, h⟩
  | one accepts =>
      rw [step] at h
      split at h
      · rename_i c rest hrest
        split_ifs at h with haccepts
        refine ⟨[c], [], state.take 1, .one haccepts, ⟨?_, rfl, rfl⟩, h⟩
        rw [MatchState.take, hrest]
        rfl
      · cases h
  | text literal =>
      rw [step] at h
      split_ifs at h with hprefix
      obtain ⟨after, hafter⟩ := List.isPrefixOf_iff_prefix.mp hprefix
      refine ⟨literal, [], state.take literal.length, .text literal, ⟨?_, rfl, rfl⟩, h⟩
      rw [MatchState.take, ← hafter, List.drop_left]
  | follow first second ihfirst ihsecond =>
      obtain ⟨part, groups, between, hpart, hpasses, hrest⟩ := ihfirst h
      obtain ⟨more, others, after, hmore, hlater, hnext⟩ := ihsecond hrest
      exact ⟨part ++ more, others ++ groups, after, .follow hpart hmore, hpasses.trans hlater, hnext⟩
  | either first second ihfirst ihsecond =>
      rw [step] at h
      rcases Option.or_eq_some_iff.mp h with hfirst | ⟨-, hsecond⟩
      · obtain ⟨part, groups, after, hpart, hpasses, hnext⟩ := ihfirst hfirst
        exact ⟨part, groups, after, .first hpart, hpasses, hnext⟩
      · obtain ⟨part, groups, after, hpart, hpasses, hnext⟩ := ihsecond hsecond
        exact ⟨part, groups, after, .second hpart, hpasses, hnext⟩
  | many body greedy ih => exact leads_of_iterate ih h
  | group kind body ih =>
      obtain ⟨part, groups, after, hpart, hpasses, hnext⟩ := ih h
      have htake : state.rest.take (after.taken - state.taken) = part := by
        rw [hpasses.taken_eq, Nat.add_sub_cancel_left, hpasses.rest_eq, List.take_left]
      simp only [htake] at hnext
      exact ⟨part, (kind, part) :: groups, { after with groups := (kind, part) :: after.groups }, .group hpart,
        ⟨hpasses.rest_eq, hpasses.taken_eq, congrArg ((kind, part) :: ·) hpasses.groups_eq⟩, hnext⟩

/-- What a pattern finds at the start of a text. -/
theorem exists_of_matchStart? {text : List Char} (h : pattern.matchStart? text = .some final) :
    ∃ part, pattern.Matches part final.groups ∧ text = part ++ final.rest ∧ final.taken = part.length := by
  obtain ⟨part, groups, after, hpart, hpasses, hafter⟩ := leads_of_step h
  obtain rfl := Option.some.inj hafter
  refine ⟨part, ?_, hpasses.rest_eq, by rw [hpasses.taken_eq, Nat.zero_add]⟩
  rwa [hpasses.groups_eq, List.append_nil]

end Search

section Shift

variable {pattern body : Pattern} {state : MatchState} {next : MatchState → Option MatchState} {count : Nat}

theorem iterate_shift {greedy : Bool} {fuel : Nat}
    (hbody : ∀ state next,
      body.step (state.shift count) next = body.step state fun after => next (after.shift count)) :
    iterate body.step greedy fuel (state.shift count) next =
      iterate body.step greedy fuel state fun after => next (after.shift count) := by
  induction fuel generalizing state with
  | zero => rfl
  | succ fuel ih => simp only [iterate, hbody, ih]

/-- A search goes on in the same way when more characters were taken before. -/
theorem step_shift (pattern : Pattern) (state : MatchState) (next : MatchState → Option MatchState) :
    pattern.step (state.shift count) next = pattern.step state fun after => next (after.shift count) := by
  induction pattern generalizing state next with
  | nothing => rfl
  | one accepts =>
      rw [step, step]
      simp only [MatchState.shift]
      split
      · rfl
      · rfl
  | text literal => simp only [step, MatchState.shift, MatchState.take, Nat.add_assoc]
  | follow first second ihfirst ihsecond => simp only [step, ihfirst, ihsecond]
  | either first second ihfirst ihsecond => simp only [step, ihfirst, ihsecond]
  | many body greedy ih => exact iterate_shift ih
  | group kind body ih =>
      simp only [step, ih]
      simp only [MatchState.shift, Nat.add_sub_add_left]

theorem iterate_map {greedy : Bool} {fuel : Nat} {change : MatchState → MatchState}
    (hbody : ∀ state next,
      (body.step state fun after => (next after).map change) = (body.step state next).map change) :
    (iterate body.step greedy fuel state fun after => (next after).map change) =
      (iterate body.step greedy fuel state next).map change := by
  induction fuel generalizing state with
  | zero => rfl
  | succ fuel ih =>
      simp only [iterate, hbody, ih]
      split <;> exact (Option.map_or ..).symm

/-- What is done with all that a search comes to is done with what it finds. -/
theorem step_map (pattern : Pattern) (change : MatchState → MatchState) (state : MatchState)
    (next : MatchState → Option MatchState) :
    (pattern.step state fun after => (next after).map change) = (pattern.step state next).map change := by
  induction pattern generalizing state next with
  | nothing => rfl
  | one accepts =>
      rw [step, step]
      split
      · split_ifs <;> rfl
      · rfl
  | text literal =>
      rw [step, step]
      split_ifs <;> rfl
  | follow first second ihfirst ihsecond => simp only [step, ihfirst, ihsecond]
  | either first second ihfirst ihsecond =>
      rw [step, step, ihfirst, ihsecond]
      exact (Option.map_or ..).symm
  | many body greedy ih => exact iterate_map ih
  | group kind body ih => exact ih _ _

theorem step_of_matchStart? {text : List Char} {found : MatchState} (h : pattern.matchStart? text = .some found) :
    pattern.step { rest := text, taken := count } .some = .some (found.shift count) := by
  have hstate : ({ rest := text, taken := count } : MatchState) = ({ rest := text } : MatchState).shift count := rfl
  rw [hstate, step_shift]
  exact (step_map pattern (MatchState.shift count) { rest := text } .some).trans (congrArg (Option.map _) h)

/-- A search that may skip characters at the start skips all of them. -/
theorem matchStart?_any_follow {accepts : Char → Bool} {lead text : List Char} {found : MatchState}
    (hlead : ∀ c ∈ lead, accepts c = true) (htext : Text.Stops accepts text)
    (h : pattern.matchStart? text = .some found) :
    (follow (any accepts) pattern).matchStart? (lead ++ text) = .some (found.shift lead.length) := by
  suffices hskip : ∀ fuel taken, lead.length ≤ fuel →
      iterate (one accepts).step true fuel { rest := lead ++ text, taken } (fun after => pattern.step after .some) =
        .some (found.shift (taken + lead.length)) by
    have hwhole := hskip (lead ++ text).length 0 (by simp)
    rwa [Nat.zero_add] at hwhole
  induction lead with
  | nil =>
      intro fuel taken _
      have hstop : (one accepts).step { rest := text, taken } = fun _ => none := by
        funext next
        cases text with
        | nil => rfl
        | cons c rest => simp [step, htext.head]
      rw [List.nil_append, List.length_nil, Nat.add_zero]
      cases fuel with
      | zero => exact step_of_matchStart? h
      | succ fuel =>
          rw [iterate, if_pos rfl, hstop, Option.none_or]
          exact step_of_matchStart? h
  | cons c lead ih =>
      rw [List.forall_mem_cons] at hlead
      rintro (_ | fuel) taken hfuel
      · cases hfuel
      · have hgoes : iterate (one accepts).step true fuel { rest := lead ++ text, taken := taken + 1 }
            (fun after => pattern.step after .some) = .some (found.shift (taken + 1 + lead.length)) :=
          ih hlead.2 fuel (taken + 1) (Nat.le_of_succ_le_succ hfuel)
        rw [iterate, if_pos rfl, step]
        simp only [List.cons_append, hlead.1, if_true, MatchState.take, List.drop_succ_cons, List.drop_zero]
        rw [hgoes, Option.some_or, List.length_cons, Nat.add_right_comm, Nat.add_assoc]

end Shift

section Forms

variable {test : Char → Bool} {pattern first second body : Pattern} {part : List Char}
  {groups : List (PatternGroup × List Char)}

/-- A pattern whose single characters all pass a test. -/
def Within (test : Char → Bool) : Pattern → Prop
  | .nothing => True
  | .one accepts => ∀ c, accepts c = true → test c = true
  | .text literal => ∀ c ∈ literal, test c = true
  | .follow first second => first.Within test ∧ second.Within test
  | .either first second => first.Within test ∧ second.Within test
  | .many body _ => body.Within test
  | .group _ body => body.Within test

theorem Matches.within (h : pattern.Matches part groups) (hwithin : pattern.Within test) :
    ∀ c ∈ part, test c = true := by
  induction h with
  | nothing | stop => simp
  | one haccepts => simpa using hwithin _ haccepts
  | text => exact hwithin
  | follow _ _ ih ih' => exact List.forall_mem_append.mpr ⟨ih hwithin.1, ih' hwithin.2⟩
  | first _ ih => exact ih hwithin.1
  | second _ ih => exact ih hwithin.2
  | more _ _ ih ih' => exact List.forall_mem_append.mpr ⟨ih hwithin, ih' hwithin⟩
  | group _ ih => exact ih hwithin

theorem within_choice {patterns : List Pattern} (h : ∀ pattern ∈ patterns, pattern.Within test) :
    (choice patterns).Within test := by
  fun_induction choice patterns with
  | case1 => exact fun _ hc => absurd hc Bool.false_ne_true
  | case2 pattern => exact h pattern (by simp)
  | case3 pattern rest _ ih => exact ⟨h pattern (by simp), ih fun other hother => h other (by simp [hother])⟩

theorem within_word {words : List String} (h : (words.all fun word => word.toList.all test) = true) :
    (word words).Within test := by
  simp only [List.all_eq_true] at h
  exact within_choice (List.forall_mem_map.mpr h)

/-- The characters of a repeated class are of that class. -/
theorem forall_of_matches_any (h : (any test).Matches part groups) : ∀ c ∈ part, test c = true :=
  h.within fun _ hc => hc

/-- A pattern whose matches all start with a character that passes a test. -/
def Opens (test : Char → Bool) (pattern : Pattern) : Prop :=
  ∀ part groups, pattern.Matches part groups → ∃ c rest, part = c :: rest ∧ test c = true

theorem opens_one {accepts : Char → Bool} (h : ∀ c, accepts c = true → test c = true) :
    (one accepts).Opens test := by
  intro part groups hmatch
  obtain ⟨c, hc, rfl, -⟩ := matches_one_iff.mp hmatch
  exact ⟨c, [], rfl, h c hc⟩

theorem opens_literal {value : String} (h : value.toList.head?.any test = true) : (literal value).Opens test := by
  intro part groups hmatch
  obtain ⟨rfl, -⟩ := matches_text_iff.mp hmatch
  rw [Option.any_eq_true] at h
  obtain ⟨c, hc, htest⟩ := h
  exact ⟨c, _, (List.cons_head?_tail hc).symm, htest⟩

theorem opens_choice {patterns : List Pattern} (h : ∀ pattern ∈ patterns, pattern.Opens test) :
    (choice patterns).Opens test := by
  fun_induction choice patterns with
  | case1 =>
      intro part groups hmatch
      obtain ⟨c, hc, -⟩ := matches_one_iff.mp hmatch
      cases hc
  | case2 pattern => exact h pattern (by simp)
  | case3 pattern rest _ ih =>
      intro part groups hmatch
      exact (matches_either_iff.mp hmatch).elim (h pattern (by simp) part groups)
        (ih (fun other hother => h other (by simp [hother])) part groups)

theorem opens_word {words : List String} (h : ∀ word ∈ words, word.toList.head?.any test = true) :
    (word words).Opens test :=
  opens_choice (List.forall_mem_map.mpr fun word hword => opens_literal (h word hword))

theorem Opens.follow (h : first.Opens test) : (Pattern.follow first second).Opens test := by
  intro part groups hmatch
  obtain ⟨front, back, picked, later, hfront, -, rfl, -⟩ := matches_follow_iff.mp hmatch
  obtain ⟨c, rest, rfl, hc⟩ := h front picked hfront
  exact ⟨c, rest ++ back, rfl, hc⟩

/-- What may be left out does not matter, if it opens as the rest does. -/
theorem Opens.optional_follow (h : first.Opens test) (h' : second.Opens test) :
    (Pattern.follow (optional first) second).Opens test := by
  intro part groups hmatch
  obtain ⟨front, back, picked, later, hfront, hback, rfl, -⟩ := matches_follow_iff.mp hmatch
  rcases matches_either_iff.mp hfront with hfront | hfront
  · obtain ⟨c, rest, rfl, hc⟩ := h front picked hfront
    exact ⟨c, rest ++ back, rfl, hc⟩
  · obtain ⟨rfl, -⟩ := matches_nothing_iff.mp hfront
    exact h' back later hback

theorem Opens.many_follow {greedy : Bool} (h : body.Opens test) (h' : second.Opens test) :
    (Pattern.follow (.many body greedy) second).Opens test := by
  intro part groups hmatch
  obtain ⟨front, back, picked, later, hfront, hback, rfl, -⟩ := matches_follow_iff.mp hmatch
  rcases matches_many_iff.mp hfront with ⟨rfl, -⟩ | ⟨once, more, _, _, honce, -, rfl, -⟩
  · exact h' back later hback
  · obtain ⟨c, rest, rfl, hc⟩ := h once _ honce
    exact ⟨c, rest ++ more ++ back, rfl, hc⟩

/-- A pattern that picks out a name, which is not empty. -/
def Names (pattern : Pattern) : Prop :=
  ∀ part groups, pattern.Matches part groups → ∃ name, groups.lookup .name = .some name ∧ name ≠ []

theorem names_group (h : body.Opens test) : (Pattern.group .name body).Names := by
  intro part groups hmatch
  obtain ⟨picked, hpart, rfl⟩ := matches_group_iff.mp hmatch
  obtain ⟨c, rest, rfl, -⟩ := h part picked hpart
  exact ⟨c :: rest, rfl, by simp⟩

theorem Names.follow (h : second.Names) : (Pattern.follow first second).Names := by
  intro part groups hmatch
  obtain ⟨front, back, picked, later, -, hback, -, rfl⟩ := matches_follow_iff.mp hmatch
  obtain ⟨name, hname, hne⟩ := h back later hback
  exact ⟨name, by rw [List.lookup_append, hname, Option.some_or], hne⟩

end Forms

end Pattern

end DocCompiler

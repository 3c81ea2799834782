import DocCompiler.Proofs.Document.Follow
import DocCompiler.Proofs.Document.Consistency

/-!
The keys of responses in the documents of accepted models. They are status codes, but their last two digits
may be of any script, and a line break may follow.
-/

namespace DocCompiler

open Annotation Text

section Digits

/-- What is found in a table is a range that holds the code point. -/
theorem Text.Ranges.exists_of_search {table : Ranges.Table} {code fuel low high index : Nat}
    (h : Ranges.search table code fuel low high = some index) :
    ∃ range, table[index]? = some range ∧ range.1 ≤ code ∧ code ≤ range.2 := by
  fun_induction Ranges.search table code fuel low high with
  | case1 | case2 | case3 => cases h
  | case4 _ _ _ _ _ _ _ _ _ ih | case5 _ _ _ _ _ _ _ _ _ _ ih => exact ih h
  | case6 _ _ _ _ middle first last hrange hfirst hlast =>
      obtain rfl := Option.some.inj h
      exact ⟨(first, last), hrange, not_lt.mp hfirst, not_lt.mp hlast⟩

theorem Text.digitRanges_short {index : Nat} {range : Nat × Nat} (h : digitRanges[index]? = some range) :
    range.2 ≤ range.1 + 9 := by
  have hall : digitRanges.all (fun range => decide (range.2 ≤ range.1 + 9)) = true := by decide +kernel
  exact of_decide_eq_true (Array.all_eq_true'.mp hall range (Array.mem_of_getElem? h))

/-- The value of a decimal digit of any script is one of ten. -/
theorem Text.digitValue?_le {c : Char} {value : Nat} (h : digitValue? c = some value) : value ≤ 9 := by
  unfold digitValue? at h
  split_ifs at h with hdigit hascii
  · obtain rfl := Option.some.inj h
    simp only [Char.isDigit, Bool.and_eq_true, decide_eq_true_eq] at hdigit
    have hlast : c.toNat ≤ 57 := hdigit.2
    omega
  · split at h
    · cases h
    · next index hindex =>
      obtain ⟨range, hrange, hfirst, hlast⟩ := Ranges.exists_of_search hindex
      have hshort := digitRanges_short hrange
      rw [hrange, Option.map_some] at h
      obtain rfl := Option.some.inj h
      omega

end Digits

/-- A status code: three digits that spell a number from 100 to 599. -/
structure IsStatus (text : List Char) : Prop where
  length : text.length = 3
  digits : ∀ c ∈ text, c.isDigit = true
  least : 100 ≤ digitsValue text
  greatest : digitsValue text ≤ 599

/-- Three decimal digits of any script, the first one of them plain, that spell a number from 100 to 599. A
line break may follow. -/
inductive SpellsStatus : List Char → Prop
  | intro {a b c : Char} {tail : List Char} (ha : a.isDigit = true) (hb : isDecimal b = true)
      (hc : isDecimal c = true) (hleast : 100 ≤ digitsValue [a, b, c])
      (hgreatest : digitsValue [a, b, c] ≤ 599) (htail : tail = [] ∨ tail = ['\n']) :
      SpellsStatus (a :: b :: c :: tail)

/-- Without a line break and with plain characters only a status code is spelled as such. -/
theorem SpellsStatus.isStatus {text : List Char} (h : SpellsStatus text)
    (hplain : ∀ c ∈ text, c.toNat < 128 ∧ c ≠ '\n') : IsStatus text := by
  obtain @⟨a, b, c, tail, ha, hb, hc, hleast, hgreatest, htail⟩ := h
  have hdigit {d : Char} (hdecimal : isDecimal d = true) (hascii : d.toNat < 128) : d.isDigit = true := by
    by_contra hother
    rw [isDecimal, digitValue?, if_neg hother, if_pos hascii] at hdecimal
    cases hdecimal
  rcases htail with rfl | rfl
  · simp only [List.forall_mem_cons] at hplain
    refine ⟨rfl, ?_, hleast, hgreatest⟩
    simp only [List.forall_mem_cons]
    exact ⟨ha, hdigit hb hplain.2.1.1, hdigit hc hplain.2.2.1.1, nofun⟩
  · exact absurd rfl (hplain '\n' (by simp)).2

/-- The number that three digits spell, the first one of them plain. -/
theorem digitsValue_three {a b c : Char} (ha : a.isDigit = true) (hb : isDecimal b = true)
    (hc : isDecimal c = true) :
    ∃ tens ≤ 9, ∃ ones ≤ 9, digitsValue [a, b, c] = 100 * (a.toNat - 48) + 10 * tens + ones := by
  obtain ⟨tens, htens⟩ := Option.isSome_iff_exists.mp hb
  obtain ⟨ones, hones⟩ := Option.isSome_iff_exists.mp hc
  have hfirst : digitValue? a = some (a.toNat - 48) := by rw [digitValue?, if_pos ha]
  refine ⟨tens, digitValue?_le htens, ones, digitValue?_le hones, ?_⟩
  simp only [digitsValue, List.foldl_cons, List.foldl_nil, hfirst, htens, hones, Option.elim_some]
  omega

namespace Rule

/-- The texts that the rule takes for status codes are three digits, and maybe a line break. -/
theorem exists_of_isStatusCode {status : String} (h : isStatusCode status = true) :
    ∃ a b c tail, status.toList = a :: b :: c :: tail ∧ (tail = [] ∨ tail = ['\n']) ∧ '1' ≤ a ∧ a ≤ '5' ∧
      isDecimal b = true ∧ isDecimal c = true := by
  have hdigits {a b c : Char} (h : ('1' ≤ a && a ≤ '5' && isDecimal b && isDecimal c) = true) :
      '1' ≤ a ∧ a ≤ '5' ∧ isDecimal b = true ∧ isDecimal c = true := by
    simpa [and_assoc] using h
  unfold isStatusCode at h
  match htext : status.toList with
  | [a, b, c] =>
      rw [htext] at h
      exact ⟨a, b, c, [], rfl, .inl rfl, hdigits h⟩
  | [a, b, c, d] =>
      rw [htext] at h
      by_cases hbreak : d = '\n'
      · subst hbreak
        exact ⟨a, b, c, ['\n'], rfl, .inr rfl, hdigits h⟩
      · simp [hbreak] at h
  | [] | [_] | [_, _] =>
      rw [htext] at h
      cases h
  | _ :: _ :: _ :: _ :: _ :: _ =>
      rw [htext] at h
      simp at h

theorem isStatusCode_iff {status : String} : isStatusCode status = true ↔ SpellsStatus status.toList := by
  constructor
  · intro h
    obtain ⟨a, b, c, tail, htext, htail, hlow, hhigh, hb, hc⟩ := exists_of_isStatusCode h
    have hleast : 49 ≤ a.toNat := hlow
    have hgreatest : a.toNat ≤ 53 := hhigh
    have ha : a.isDigit = true := by
      simp only [Char.isDigit, Bool.and_eq_true, decide_eq_true_eq]
      exact ⟨Nat.le_trans (by decide) hleast, Nat.le_trans hgreatest (by decide)⟩
    obtain ⟨tens, htens, ones, hones, hvalue⟩ := digitsValue_three ha hb hc
    rw [htext]
    exact .intro ha hb hc (by omega) (by omega) htail
  · intro h
    generalize htext : status.toList = text at h
    obtain @⟨a, b, c, tail, ha, hb, hc, hleast, hgreatest, htail⟩ := h
    obtain ⟨tens, htens, ones, hones, hvalue⟩ := digitsValue_three ha hb hc
    have hlow : '1' ≤ a := show 49 ≤ a.toNat by omega
    have hhigh : a ≤ '5' := show a.toNat ≤ 53 by omega
    rcases htail with rfl | rfl <;> simp [isStatusCode, htext, hlow, hhigh, hb, hc]

/-- Without a breach the responses of an operation are declared by default or for status codes. -/
theorem status_of_statusCodes {model : Model} {parts : Parts} (h : statusCodes.breaches model parts = .ok [])
    {entry : String × Endpoint} (hentry : entry ∈ endpointsOf parts) {given : Datum × Part}
    (hgiven : given ∈ entry.2.responses) (hmarker : ¬ given.1.IsMarker) :
    ∃ status, given.1 = .text status ∧ (status = "default" ∨ SpellsStatus status.toList) := by
  obtain ⟨found, hfound, hnone⟩ := Result.bind_eq_ok_iff.mp h
  rw [Result.pure_eq_ok_iff, List.filterMap_eq_nil_iff] at hnone
  obtain ⟨results, hresults, hendpoint⟩ := Result.ok_of_mapM_eq_ok hfound hentry
  obtain ⟨result, hresult, hstatus⟩ := Result.ok_of_mapM_eq_ok hendpoint hgiven
  rw [show result = none from hnone result (List.mem_flatten_of_mem hresults hresult)] at hstatus
  rcases given with ⟨name, response⟩
  cases name with
  | unresolved marker => exact absurd ⟨marker, rfl⟩ hmarker
  | text status =>
      simp only [wrongStatus?] at hstatus
      split_ifs at hstatus with hknown
      · simp only [Bool.or_eq_true, beq_iff_eq, isStatusCode_iff] at hknown
        exact ⟨status, rfl, hknown⟩
      · cases hstatus
  | _ => cases hstatus

end Rule

section Accepting

variable {units : List AnnotatedUnit} {overrides : Overrides} {model : Model}

theorem Accepted.status_of_mem_responses (h : Accepted units overrides model) {route : String × Endpoint}
    (hroute : route ∈ model.routes) {given : Datum × Part} (hgiven : given ∈ route.2.responses) :
    ∃ status, given.1 = .text status ∧ (status = "default" ∨ SpellsStatus status.toList) := by
  have hunmarked := h.unmarked
  obtain ⟨parts, hparts, hrules⟩ := h.breaches_eq_nil
  have hendpoint : route.2 ∈ (Rule.endpointsOf parts).map (·.2) := by
    rw [← Model.endpoints_walk hparts]
    exact model.endpoints_sublist.subset (List.mem_map_of_mem hroute)
  obtain ⟨entry, hentry, heq⟩ := List.mem_map.mp hendpoint
  have hmarkers := hunmarked.of_mem_parts hparts (Rule.mem_endpointsOf_iff.mp hentry)
  rw [← heq] at hgiven
  refine Rule.status_of_statusCodes (hrules _ (by simp [Rule.all])) hentry hgiven ?_
  have hnames : Rule.datumMarkers (.list (entry.2.responses.map (·.1))) = [] :=
    Rule.datumMarkers_of_markers hmarkers (by simp [Rule.fieldsOf, Rule.namesOf, Endpoint.part])
  exact Rule.not_isMarker_of_datumMarkers
    (Rule.datumMarkers_of_mem_items hnames (List.mem_map_of_mem hgiven))

/-- In the document of an accepted model the responses of an operation stand under distinct keys, which are
`default` or spell status codes; those of plain characters without a line break are status codes. -/
theorem Accepted.statuses (h : Accepted units overrides model) (version : String) :
    ∃ document, Layout.document model version = .ok document ∧
      ∀ operation ∈ Document.operations document,
        ((operation.2.entriesUnder "responses").map (·.1)).Nodup ∧
          ∀ key ∈ (operation.2.entriesUnder "responses").map (·.1), ∃ status, key = .text status ∧
            (status = "default" ∨ SpellsStatus status.toList) ∧
              ((∀ c ∈ status.toList, c.toNat < 128 ∧ c ≠ '\n') →
                status = "default" ∨ IsStatus status.toList) := by
  have hclosed := h.closed_any
  obtain ⟨document, hdocument⟩ := hclosed.fits.layout version
  refine ⟨document, hdocument, fun operation hoperation => ?_⟩
  obtain ⟨routes, hroutes, hrendered⟩ := Document.operations_forall₂ hdocument
  obtain ⟨route, hmem, -, hlaid⟩ := Result.exists_left_of_forall₂ hrendered hoperation
  have hroute := hroutes.subset hmem
  obtain ⟨entries, hentries, heq⟩ := Layout.responses_eq_ok_iff.mp
    ((hclosed.fits.of_mem_routes hroute).1.entriesUnder_responses hlaid)
  rw [heq]
  have hkeys : ∀ key ∈ (Datum.distinctEntries entries).map (·.1), ∃ status, key = .text status ∧
      (status = "default" ∨ SpellsStatus status.toList) := by
    intro key hkey
    obtain ⟨entry, hentry, rfl⟩ := List.mem_map.mp hkey
    obtain ⟨other, hother, hname⟩ := List.mem_map.mp (Datum.mem_distinctEntries hentry).1
    obtain ⟨given, hgiven, htext, -⟩ := Result.exists_left_of_forall₂ hentries hother
    obtain ⟨status, hstatus, hspells⟩ := h.status_of_mem_responses hroute hgiven
    exact ⟨status, by rw [← hname, htext, hstatus]; rfl, hspells⟩
  refine ⟨?_, fun key hkey => ?_⟩
  · refine (Datum.distinct_iff_keys.mp (Datum.distinct_distinctEntries entries)).imp_of_mem ?_
    intro first second hfirst _ hne heq
    obtain ⟨status, rfl, -⟩ := hkeys first hfirst
    rw [Datum.text_sameKey.mpr heq.symm] at hne
    cases hne
  · obtain ⟨status, hstatus, hspells⟩ := hkeys key hkey
    exact ⟨status, hstatus, hspells, fun hplain => hspells.imp_right (·.isStatus hplain)⟩

end Accepting

/-- A document in which an operation has a response for a status code. -/
theorem statuses_pets :
    ∃ document, Layout.document Pets.model "3.0.3" = .ok document ∧
      ∀ operation ∈ Document.operations document,
        ((operation.2.entriesUnder "responses").map (·.1)).Nodup ∧
          ∀ key ∈ (operation.2.entriesUnder "responses").map (·.1), ∃ status, key = .text status ∧
            (status = "default" ∨ SpellsStatus status.toList) ∧
              ((∀ c ∈ status.toList, c.toNat < 128 ∧ c ≠ '\n') →
                status = "default" ∨ IsStatus status.toList) :=
  Accepted.statuses Pets.accepted "3.0.3"

namespace Scripts

/-- A source with an operation whose responses have Arabic digits and a line break in their keys. -/
def units : List AnnotatedUnit :=
  [{ identity := "pets", fingerprint := "", blocks := [
      { symbol := .ofFile "pets", nodes := [Pets.node "Info" [("title", "Pets"), ("version", "1")] []] },
      { symbol := { kind := .method, name := .text "show", qualifiedName := .text "Pets.show" }
        nodes := [
          Pets.node "Get" [("path", "/pets")] [
            Pets.node "Response" [("response", "2\u0660\u0660"), ("description", "Found")] [],
            Pets.node "Response" [("response", "404\n"), ("description", "Not found")] []]] }] }]

/-- The model of the source. -/
def model : Model :=
  (accept? units {}).getD {}

theorem accepted : Accepted units {} model :=
  accepted_getD {} (by decide +kernel)

/-- The keys of the responses in the document of the source. -/
def keys : List String :=
  match Layout.document model "3.0.3" with
  | .ok document =>
      (Document.operations document).flatMap fun operation =>
        (operation.2.entriesUnder "responses").filterMap fun entry => entry.1.text?
  | .error _ => []

end Scripts

/-- No rule keeps digits of other scripts, or a line break, out of the keys of responses. -/
theorem Accepted.not_isStatus_of_script :
    ¬ ∀ (units : List AnnotatedUnit) (overrides : Overrides) (model : Model), Accepted units overrides model →
      ∀ document, Layout.document model "3.0.3" = .ok document →
        ∀ operation ∈ Document.operations document,
          ∀ key ∈ (operation.2.entriesUnder "responses").map (·.1), ∃ status, key = .text status ∧
            (status = "default" ∨ IsStatus status.toList) := by
  intro hall
  have hkeys : Scripts.keys = ["2\u0660\u0660", "404\n"] := by decide +kernel
  have hmem : "2\u0660\u0660" ∈ Scripts.keys := by rw [hkeys]; exact List.mem_cons_self
  rw [Scripts.keys] at hmem
  split at hmem
  · next document hdocument =>
    obtain ⟨operation, hoperation, hkey⟩ := List.mem_flatMap.mp hmem
    obtain ⟨⟨key, value⟩, hentry, htext⟩ := List.mem_filterMap.mp hkey
    obtain ⟨status, rfl, hstatus⟩ := hall _ _ _ Scripts.accepted document hdocument operation hoperation
      key (List.mem_map_of_mem hentry)
    obtain rfl := Option.some.inj htext
    rcases hstatus with hdefault | hstatus
    · exact absurd hdefault (by decide)
    · exact absurd (hstatus.digits '\u0660' (by decide)) (by decide)
  · cases hmem

end DocCompiler

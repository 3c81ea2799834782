import Mathlib.Tactic.SplitIfs
import DocCompiler.Proofs.Data.Result
import DocCompiler.Yaml.Reader

/-!
Mappings of YAML texts while they are filled. A mapping without merge keys is filled with what is made of
its own entries.
-/

namespace DocCompiler.Yaml

open Result

/-- The number of a node with a tag that has no meaning as a key: neither a merge key nor the default key. -/
def IsPlainKey (nodes : Array Node) (number : Nat) : Prop :=
  (Graph.node nodes number).tag ≠ standardTag "merge" ∧ (Graph.node nodes number).tag ≠ standardTag "value"

instance (nodes : Array Node) (number : Nat) : Decidable (IsPlainKey nodes number) :=
  inferInstanceAs (Decidable (_ ∧ _))

namespace Make

section Runs

variable {number : Nat} {maker later : Maker} {tag : String} {entries : List (Nat × Nat)}

theorem run_node (h : Graph.node maker.nodes number = ⟨tag, .entries entries⟩) :
    (node number).run maker = .ok (⟨tag, .entries entries⟩, maker) := by
  rw [← h]
  rfl

theorem run_entriesOf (h : Graph.node maker.nodes number = ⟨tag, .entries entries⟩) :
    (entriesOf number).run maker = .ok (entries, maker) := by
  rw [entriesOf, run_bind_of_ok (run_node h)]
  rfl

/-- A node that is put in its own place changes nothing. -/
theorem run_change_self (h : Graph.node maker.nodes number = ⟨tag, .entries entries⟩) :
    (change number ⟨tag, .entries entries⟩).run maker = .ok ((), maker) := by
  have hself : maker.nodes.setIfInBounds number ⟨tag, .entries entries⟩ = maker.nodes := by
    rw [← h, Graph.node, Array.getD_eq_getD_getElem?]
    refine Array.ext Array.size_setIfInBounds fun index hindex hindex' => ?_
    rw [Array.getElem_setIfInBounds hindex']
    split_ifs with hnumber
    · subst hnumber
      rw [Array.getElem?_eq_getElem hindex', Option.getD_some]
    · rfl
  change Except.ok ((), { maker with nodes := maker.nodes.setIfInBounds number ⟨tag, .entries entries⟩ }) = _
  rw [hself]

variable (hnode : Graph.node maker.nodes number = ⟨tag, .entries entries⟩)
  (hplain : ∀ entry ∈ entries, IsPlainKey maker.nodes entry.1)

include hnode hplain

theorem run_takeMerge : (takeMerge number).run maker = .ok (none, maker) := by
  have hfind : entries.find? (fun entry => (Graph.node maker.nodes entry.1).tag == standardTag "merge") = none :=
    List.find?_eq_none.mpr fun entry hentry => by rw [beq_iff_eq]; exact (hplain entry hentry).1
  have hget : (get : Make Maker).run maker = .ok (maker, maker) := rfl
  rw [takeMerge, run_bind_of_ok (run_node hnode), run_bind_of_ok (run_entriesOf hnode), run_bind_of_ok hget]
  dsimp only
  rw [hfind]
  rfl

theorem run_plainKeys : (plainKeys number).run maker = .ok ((), maker) := by
  rw [plainKeys, run_bind_of_ok (run_entriesOf hnode)]
  clear hnode
  induction entries with
  | nil => rfl
  | cons entry rest ih =>
      rw [List.forall_mem_cons] at hplain
      have hentry : (do
          let node ← node entry.1
          if node.tag == standardTag "value" then change entry.1 { node with tag := standardTag "str" }
          : Make Unit).run maker = .ok ((), maker) := by
        have hrun : (node entry.1).run maker = .ok (Graph.node maker.nodes entry.1, maker) := rfl
        rw [run_bind_of_ok hrun, if_neg (by rw [beq_iff_eq]; exact hplain.1.2)]
        rfl
      exact (run_bind_of_ok hentry).trans (ih hplain.2)

/-- A mapping without merge keys stays as it is. -/
theorem run_flatten (fuel : Nat) : (flatten (fuel + 1) number).run maker = .ok ((), maker) := by
  have hcollect : (collect fuel fuel number).run maker = .ok ([], maker) := by
    cases fuel with
    | zero =>
        rw [collect]
        rfl
    | succ fuel =>
        rw [collect, run_bind_of_ok (run_takeMerge hnode hplain)]
        rfl
  rw [flatten, run_bind_of_ok hcollect, run_bind_of_ok (run_plainKeys hnode hplain),
    run_bind_of_ok (run_node hnode), run_bind_of_ok (run_entriesOf hnode), List.nil_append]
  exact run_change_self hnode

/-- A mapping without merge keys is filled with its entries; of equal keys the first one stays, with the value
of the last one. -/
theorem run_fill {found : List (Datum × Made)} (htag : CollectionKind.ofTag? tag = some .map)
    (hmake : (entries.mapM fun (key, value) => do return (← makeKey key, ← make value)).run maker =
      .ok (found, later)) :
    (fill number).run maker = .ok ((), { later with
      filled := later.filled.setIfInBounds number (some (.map (Datum.distinctEntries found))) }) := by
  have hfuel : mergeFuel.run maker = .ok (maker.nodes.size + 1, maker) := rfl
  rw [fill, run_bind_of_ok (run_node hnode)]
  simp only [htag]
  rw [if_neg (by decide), run_bind_of_ok hfuel, run_bind_of_ok (run_flatten hnode hplain _),
    run_bind_of_ok (run_entriesOf hnode), run_bind_of_ok hmake]
  rfl

end Runs

/-- A collection that waits alone is filled first, and then those that it brings in. -/
theorem run_fillAll {fuel number : Nat} {maker later : Maker} (hpending : maker.pending = [number])
    (h : (fill number).run { maker with pending := [] } = .ok ((), later)) :
    (fillAll (fuel + 1)).run maker = (fillAll fuel).run later := by
  have hget : (get : Make Maker).run maker = .ok (maker, maker) := rfl
  have hclear : (modify fun maker => { maker with pending := [] } : Make Unit).run maker =
      .ok ((), { maker with pending := [] }) := rfl
  have hfill : ([number].reverse.forM fill).run { maker with pending := [] } = .ok ((), later) := by
    change (fill number >>= fun _ => pure ()).run _ = _
    rw [run_bind_of_ok h]
    rfl
  rw [fillAll, run_bind_of_ok hget, hpending]
  exact (run_bind_of_ok hclear).trans (run_bind_of_ok hfill)

/-- The root is made first, and filled with everything in it. -/
theorem run_root {number : Nat} {maker later final : Maker} {made : Made}
    (hmake : (make number).run maker = .ok (made, later))
    (hfill : (fillAll (later.nodes.size + 1)).run later = .ok ((), final)) :
    (root number).run maker = .ok (made, final) := by
  have hget : (get : Make Maker).run later = .ok (later, later) := rfl
  rw [root, run_bind_of_ok hmake, run_bind_of_ok hget, run_bind_of_ok hfill]
  rfl

end Make

end DocCompiler.Yaml

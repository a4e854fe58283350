import Schematic.Proofs.Caps
import Schematic.Proofs.Feedback

/-!
# Logic depth

How many passes a circuit without feedback takes: in any order of declaration as many as its levels,
and one to see that nothing changes any more.

* `Circuit.Acyclic`: no id reads from itself; `Circuit.acyclic_iff`: no loop is found.
* `Circuit.level`, `Circuit.depth`: the level of an id is above those of the ids that it reads from.
* `Values.Toward`: values on their way to the ones on which a relaxation settles.
  `Values.Toward.at?_foldl`: **an element arrives at its turn in a pass if all its sources have.**
* `Netlist.at?_finals_of_level_le`: after so many passes, the ids up to this level have arrived.
* `Netlist.at?_foldl_of_sourcesFirst`: within one pass, each has at its turn, if sources are declared
  first.
* `Netlist.evaluate_depth`: **the bound on the passes**, by depth and by order of declaration.
-/

namespace Schematic

open Relation

/-! ## Levels -/

namespace Circuit

variable (c : Circuit)

/-- No id reads from itself, in any number of steps. -/
def Acyclic : Prop := ∀ id, ¬TransGen c.ReadsFrom id id

/-- The declared ids that an id reads from. -/
def sources (id : String) : List String :=
  (Netlist.ofCircuit c).edges.filterMap fun (source, target) =>
    if (Netlist.ofCircuit c).signals.name? target = some id then
      (Netlist.ofCircuit c).signals.name? source
    else none

variable {c} {id source : String}

theorem mem_sources : source ∈ c.sources id ↔ c.ReadsFrom id source := by
  have hname := Netlist.sound_signals c
  simp only [sources, List.mem_filterMap, Prod.exists, Option.ite_none_right_eq_some, readsFrom_iff,
    Netlist.Feeds, hname id, hname source]
  constructor
  · rintro ⟨b, a, hedge, ha, hb⟩
    exact ⟨a, b, ha, hb, hedge⟩
  · rintro ⟨a, b, ha, hb, hedge⟩
    exact ⟨b, a, hedge, ha, hb⟩

/-- **A circuit is acyclic exactly if no loop is found in it.** -/
theorem acyclic_iff : c.Acyclic ↔ (Netlist.ofCircuit c).loops = [] := by
  rw [List.eq_nil_iff_forall_not_mem]
  constructor
  · intro h l hl
    obtain ⟨s, hs, -, -⟩ := Netlist.mem_loops.1 hl
    obtain ⟨id, hid⟩ := Netlist.exists_number?_of_lt (Netlist.lt_size_of_transGen hs)
    exact h id ((transGen_readsFrom_iff hid hid).2 hs)
  · intro h id hid
    obtain ⟨source, hfirst, -⟩ := TransGen.head'_iff.1 hid
    obtain ⟨a, -, ha, -, -⟩ := readsFrom_iff.1 hfirst
    have hself := (transGen_readsFrom_iff ha ha).1 hid
    obtain ⟨l, hl, -⟩ := Netlist.exists_loop_iff.2 ⟨hself, hself⟩
    exact h l hl

instance : Decidable c.Acyclic := decidable_of_iff' _ acyclic_iff

/-- Without a cycle, reading ends. -/
theorem Acyclic.wellFounded (h : c.Acyclic) : WellFounded fun source id => c.ReadsFrom id source := by
  refine ⟨fun id => by_contra fun hid => ?_⟩
  -- an id from which reading does not end reads from another such id, and so on without end
  have hnext : ∀ id, ¬Acc (fun source id => c.ReadsFrom id source) id →
      ∃ source ∈ c.nodes.map (·.id), ¬Acc (fun source id => c.ReadsFrom id source) source ∧
        c.ReadsFrom id source := by
    intro id hid
    obtain ⟨source, hsource, hreads⟩ := exists_not_acc_lt_of_not_acc hid
    exact ⟨source, hreads.declared, hsource, hreads⟩
  obtain ⟨source, hdeclared, hsource, -⟩ := hnext id hid
  obtain ⟨a, -, -, hcycle⟩ :=
    exists_transGen_self ⟨source, hdeclared, hsource⟩ fun id _ => hnext id
  exact h a hcycle

/-- **The level of an id**: 0 if it reads from no declared id, and otherwise one more than the largest
level of those that it reads from. -/
def level (c : Circuit) (h : c.Acyclic) (id : String) : ℕ :=
  ((c.sources id).attach.map fun source => level c h source.1 + 1).max?.getD 0
termination_by h.wellFounded.wrap id
decreasing_by exact mem_sources.1 source.2

theorem level_eq (h : c.Acyclic) (id : String) :
    c.level h id = ((c.sources id).map fun source => c.level h source + 1).max?.getD 0 := by
  rw [level.eq_def, List.attach_map_val (f := fun source => c.level h source + 1)]

theorem level_lt_of_readsFrom (h : c.Acyclic) (hreads : c.ReadsFrom id source) :
    c.level h source < c.level h id := by
  rw [level_eq h id]
  exact List.le_max?_getD_of_mem
    (List.mem_map_of_mem (f := fun source => c.level h source + 1) (mem_sources.2 hreads))

/-- The largest level of a node. -/
def depth (c : Circuit) (h : c.Acyclic) : ℕ :=
  (c.nodes.map fun n => c.level h n.id).max?.getD 0

theorem level_le_depth (h : c.Acyclic) {n : Node} (hn : n ∈ c.nodes) :
    c.level h n.id ≤ c.depth h :=
  List.le_max?_getD_of_mem (List.mem_map_of_mem hn)

/-- Every id that is read is that of an input, or declared before the ids that read from it. -/
def SourcesFirst (c : Circuit) : Prop :=
  ∀ id source, c.ReadsFrom id source → (∃ n ∈ c.nodes, n.id = source ∧ n.kind = .input) ∨
    (c.nodes.map (·.id)).idxOf source < (c.nodes.map (·.id)).idxOf id

theorem ReadsFrom.exists_node (h : c.ReadsFrom id source) : ∃ n ∈ c.nodes, n.id = id := by
  obtain ⟨_, ⟨e, he, hid, -⟩, -⟩ := h
  exact ⟨e.node, (Netlist.of_mem_elements he).1, hid⟩

/-- Only the sources of declared ids need to be looked at. -/
theorem sourcesFirst_iff : c.SourcesFirst ↔ ∀ n ∈ c.nodes, ∀ source ∈ c.sources n.id,
    (∃ m ∈ c.nodes, m.id = source ∧ m.kind = .input) ∨
      (c.nodes.map (·.id)).idxOf source < (c.nodes.map (·.id)).idxOf n.id := by
  constructor
  · intro h n _ source hsource
    exact h n.id source (mem_sources.1 hsource)
  · intro h id source hreads
    obtain ⟨n, hn, rfl⟩ := hreads.exists_node
    exact h n hn source (mem_sources.2 hreads)

instance : Decidable c.SourcesFirst := decidable_of_iff' _ sourcesFirst_iff

end Circuit

/-! ## On the way to the settled values -/

section Toward

variable {elements : List Element} {final values next : Values} {state : Values × ℕ}

/-- Every output and gate has the value that its cell computes, or neither has one. -/
def Values.Exact (elements : List Element) (values : Values) : Prop :=
  ∀ e ∈ elements, e.cell ≠ .input → values.at? e.signal = e.cell.value? values

theorem Values.Exact.closed (h : final.Exact elements) : final.Closed elements := by
  intro e he v hv
  rw [h e he (Cell.ne_input_of_value? hv), hv]

/-- What has its final value keeps it, as long as values are only added. -/
theorem Values.Below.at?_eq (h : values.Below next) (h' : next.Below final) {s : ℕ}
    (hs : values.at? s = final.at? s) : next.at? s = final.at? s := by
  refine Option.ext fun v => ⟨fun hv => h' s v hv, fun hv => h s v ?_⟩
  rw [hs, hv]

/-- Values on the way to the final ones: not all of these are known yet, but those of inputs are. -/
structure Values.Toward (elements : List Element) (values final : Values) : Prop where
  inBounds : ∀ e ∈ elements, e.signal < values.size
  below : values.Below final
  inputs : ∀ e ∈ elements, e.cell = .input → values.at? e.signal = final.at? e.signal

namespace Values.Toward

/-- **An update stays on the way**, and only adds to what is known. -/
theorem update (hexact : final.Exact elements) (h : state.1.Toward elements final) {e : Element}
    (he : e ∈ elements) :
    (e.update state).1.Toward elements final ∧ state.1.Below (e.update state).1 := by
  obtain ⟨hgrow, hbelow⟩ := h.below.update hexact.closed he (h.inBounds e he)
  refine ⟨⟨fun e' he' => ?_, hbelow, fun e' he' hin => ?_⟩, hgrow⟩
  · rw [size_update]
    exact h.inBounds e' he'
  · exact hgrow.at?_eq hbelow (h.inputs e' he' hin)

theorem foldl (hexact : final.Exact elements) (h : state.1.Toward elements final) {es : List Element}
    (hes : ∀ e ∈ es, e ∈ elements) :
    (es.foldl Element.update state).1.Toward elements final ∧
      state.1.Below (es.foldl Element.update state).1 := by
  refine foldl_update_induction
    (P := fun next => next.Toward elements final ∧ state.1.Below next) ?_ hes ⟨h, Below.refl _⟩
  rintro e he next ⟨hnext, hgrow⟩
  obtain ⟨hafter, hmore⟩ := hnext.update hexact he
  exact ⟨hafter, hgrow.trans hmore⟩

/-- **An element whose sources have arrived arrives at its update.** -/
theorem at?_update (hexact : final.Exact elements) (h : state.1.Toward elements final) {e : Element}
    (he : e ∈ elements)
    (hsources : ∀ w ∈ e.cell.wires, ∀ s, w.source = some s → state.1.at? s = final.at? s) :
    (e.update state).1.at? e.signal = final.at? e.signal := by
  obtain ⟨hnext, hgrow⟩ := h.update hexact he
  by_cases hin : e.cell = .input
  · exact hnext.inputs e he hin
  · have hvalue : e.cell.value? state.1 = final.at? e.signal := by
      rw [Cell.value?_congr_sources hsources, hexact e he hin]
    rw [Element.at?_update (h.inBounds e he), if_pos rfl, hvalue]
    cases hfinal : final.at? e.signal with
    | some v => rfl
    | none =>
      -- what never gets a value has none before
      cases hv : state.1.at? e.signal with
      | none => rfl
      | some v =>
        have := h.below _ v hv
        rw [hfinal] at this
        cases this

/-- The turn of an element in a pass: its sources have to arrive before, and it keeps its value. -/
theorem at?_foldl (hexact : final.Exact elements) (h : state.1.Toward elements final)
    {es es' : List Element} {e : Element} (hes : ∀ e' ∈ es ++ e :: es', e' ∈ elements)
    (hsources : ∀ w ∈ e.cell.wires, ∀ s, w.source = some s →
      (es.foldl Element.update state).1.at? s = final.at? s) :
    ((es ++ e :: es').foldl Element.update state).1.at? e.signal = final.at? e.signal := by
  have he : e ∈ elements := hes e (List.mem_append_right _ List.mem_cons_self)
  obtain ⟨hbefore, -⟩ := h.foldl hexact fun e' he' => hes e' (List.mem_append_left _ he')
  obtain ⟨hturn, -⟩ := hbefore.update hexact he
  obtain ⟨hafter, hgrow⟩ := hturn.foldl hexact fun e' he' =>
    hes e' (List.mem_append_right _ (List.mem_cons_of_mem e he'))
  rw [List.foldl_append, List.foldl_cons]
  exact hgrow.at?_eq hafter.below (hbefore.at?_update hexact he hsources)

/-- **One pass takes what has arrived one step further.** -/
theorem at?_pass (hexact : final.Exact elements) (h : values.Toward elements final) {e : Element}
    (he : e ∈ elements)
    (hsources : ∀ w ∈ e.cell.wires, ∀ s, w.source = some s → values.at? s = final.at? s) :
    (pass elements values).1.at? e.signal = final.at? e.signal := by
  have hstart : ((values, 0) : Values × ℕ).1.Toward elements final := h
  obtain ⟨es, es', hsplit⟩ := List.append_of_mem he
  have hall : ∀ e' ∈ es ++ e :: es', e' ∈ elements := fun e' he' => hsplit ▸ he'
  obtain ⟨hbefore, hgrow⟩ := hstart.foldl hexact fun e' he' => hall e' (List.mem_append_left _ he')
  have hturn := hstart.at?_foldl hexact hall fun w hw s hs =>
    hgrow.at?_eq hbefore.below (hsources w hw s hs)
  rwa [← hsplit] at hturn

/-- Once all elements have arrived, all is up to date. -/
theorem closed (hexact : final.Exact elements) (h : values.Toward elements final)
    (hall : ∀ e ∈ elements, values.at? e.signal = final.at? e.signal) : values.Closed elements := by
  intro e he v hv
  rw [hall e he]
  exact hexact.closed e he v (h.below.value? hv)

end Values.Toward

end Toward

/-- What stands before an entry of a list is in the part before it. -/
theorem mem_of_idxOf_lt {l l' : List String} {a b : String}
    (h : (l ++ b :: l').idxOf a < (l ++ b :: l').idxOf b) : a ∈ l := by
  by_contra ha
  have hb : (l ++ b :: l').idxOf b ≤ l.length := by
    rw [List.idxOf_append]
    split
    · exact List.idxOf_le_length
    · simp
  rw [List.idxOf_append_of_notMem ha] at h
  omega

namespace Netlist

variable {c : Circuit}

/-- The values on which an evaluation settles. -/
def settled (c : Circuit) (inputs : Levels) : Values :=
  (ofCircuit c).finals (c.drivenIds.length + 1) inputs

theorem exact_settled (hkinds : c.KindsAgree) (inputs : Levels) :
    (settled c inputs).Exact (ofCircuit c).elements := by
  intro e he hin
  have hconv := converged_relax hkinds inputs le_rfl
  exact (held_seed hkinds inputs).at?_eq_value? (oneCell hkinds) hconv he hin

theorem toward_finals (hkinds : c.KindsAgree) (k : ℕ) (inputs : Levels) :
    ((ofCircuit c).finals k inputs).Toward (ofCircuit c).elements (settled c inputs) := by
  refine ⟨(held_finals hkinds k inputs).inBounds, ?_, fun e he hin => ?_⟩
  · have hseed : ((ofCircuit c).seed inputs).Below (settled c inputs) :=
      below_finals hkinds (Nat.zero_le _)
    exact hseed.after_relax (fun e he => signal_lt_seed inputs he)
      (exact_settled hkinds inputs).closed k
  · rw [settled, at?_finals_of_input hkinds _ inputs he hin, at?_finals_of_input hkinds _ inputs he hin]

/-- **After `k` passes, the ids up to level `k` have their settled values**, in any order of
declaration. -/
theorem at?_finals_of_level_le (hkinds : c.KindsAgree) (h : c.Acyclic) (inputs : Levels) {k : ℕ}
    {e : Element} (he : e ∈ (ofCircuit c).elements) (hlevel : c.level h e.node.id ≤ k) :
    ((ofCircuit c).finals k inputs).at? e.signal = (settled c inputs).at? e.signal := by
  have hexact := exact_settled hkinds inputs
  induction k generalizing e with
  | zero =>
    by_cases hin : e.cell = .input
    · exact (toward_finals hkinds 0 inputs).inputs e he hin
    · -- an output or a gate of level 0 reads from nothing, so it never gets a value
      have hnone : e.cell.value? (settled c inputs) = none := by
        refine Option.eq_none_iff_forall_ne_some.2 fun v hv => ?_
        obtain ⟨w, hw, s, hs⟩ := (Cell.computes_iff.2 hv).exists_source
        obtain ⟨e', -, -, hreads⟩ := exists_source he hw hs
        have hlt := Circuit.level_lt_of_readsFrom h hreads
        omega
      rw [hexact e he hin, hnone]
      exact at?_seed_eq_none hkinds inputs he hin
  | succ k ih =>
    rw [finals, values_relax_succ]
    refine (toward_finals hkinds k inputs).at?_pass hexact he fun w hw s hs => ?_
    obtain ⟨e', he', rfl, hreads⟩ := exists_source he hw hs
    have hlt := Circuit.level_lt_of_readsFrom h hreads
    exact ih he' (by omega)

/-- If sources are declared first, what an element reads is an input or had its turn in the pass. -/
theorem input_or_earlier (hkinds : c.KindsAgree) (h : c.SourcesFirst) {es es' : List Element}
    {e source : Element} (hsplit : (ofCircuit c).elements = es ++ e :: es')
    (hsource : source ∈ (ofCircuit c).elements) (hreads : c.ReadsFrom e.node.id source.node.id) :
    source.cell = .input ∨ ∃ earlier ∈ es, earlier.signal = source.signal := by
  rcases h _ _ hreads with ⟨n, hn, hid, hkind⟩ | hlt
  · left
    rw [← Cell.kind_eq_input_iff, kind_cell hsource, ← hkind]
    exact hkinds _ (of_mem_elements hsource).1 n hn hid.symm
  · right
    have hids : c.nodes.map (·.id) = es.map (·.node.id) ++ e.node.id :: es'.map (·.node.id) := by
      rw [← map_node_elements c, hsplit]
      simp [Function.comp_def]
    rw [hids] at hlt
    obtain ⟨earlier, hearlier, hid⟩ := List.mem_map.1 (mem_of_idxOf_lt hlt)
    have hmem : earlier ∈ (ofCircuit c).elements := by
      rw [hsplit]
      exact List.mem_append_left _ hearlier
    exact ⟨earlier, hearlier, signal_eq_of_id_eq hmem hsource hid⟩

/-- **Within one pass, the elements up to the current one have their settled values**, if sources are
declared first. -/
theorem at?_foldl_of_sourcesFirst (hkinds : c.KindsAgree) (h : c.SourcesFirst) (inputs : Levels)
    {es es' : List Element} (hsplit : (ofCircuit c).elements = es ++ es') {e : Element} (he : e ∈ es) :
    (es.foldl Element.update ((ofCircuit c).seed inputs, 0)).1.at? e.signal =
      (settled c inputs).at? e.signal := by
  have hexact := exact_settled hkinds inputs
  have hstart : (((ofCircuit c).seed inputs, 0) : Values × ℕ).1.Toward (ofCircuit c).elements
    (settled c inputs) := toward_finals hkinds 0 inputs
  -- the induction is on the part of the pass that has been made
  induction es using List.reverseRecOn generalizing es' e with
  | nil => cases he
  | append_singleton es last ih =>
    have hmem : ∀ e' ∈ es ++ [last], e' ∈ (ofCircuit c).elements := fun e' he' =>
      hsplit ▸ List.mem_append_left _ he'
    rw [List.append_assoc, List.singleton_append] at hsplit
    have hlast : last ∈ (ofCircuit c).elements := hmem last (by simp)
    obtain ⟨hbefore, -⟩ := hstart.foldl hexact fun e' he' => hmem e' (List.mem_append_left _ he')
    rcases List.mem_append.1 he with he | he
    · obtain ⟨hnext, hgrow⟩ := hbefore.update hexact hlast
      rw [List.foldl_append]
      exact hgrow.at?_eq hnext.below (ih hsplit he)
    · obtain rfl := List.mem_singleton.1 he
      refine hstart.at?_foldl hexact hmem fun w hw s hs => ?_
      obtain ⟨source, hsource, rfl, hreads⟩ := exists_source hlast hw hs
      rcases input_or_earlier hkinds h hsplit hsource hreads with hin | ⟨earlier, hearlier, hsame⟩
      · exact hbefore.inputs source hsource hin
      · rw [← hsame]
        exact ih hsplit hearlier

/-- Once all elements have their settled values, one more pass settles. -/
theorem converged_of_at?_finals (hkinds : c.KindsAgree) (inputs : Levels) {k cap : ℕ}
    (hall : ∀ e ∈ (ofCircuit c).elements,
      ((ofCircuit c).finals k inputs).at? e.signal = (settled c inputs).at? e.signal)
    (hcap : k + 1 ≤ cap) :
    ((ofCircuit c).evaluate cap inputs).converged = true ∧
      ((ofCircuit c).evaluate cap inputs).iterations ≤ k + 1 := by
  have hclosed := (toward_finals hkinds k inputs).closed (exact_settled hkinds inputs) hall
  exact converged_of_closed_relax hclosed hcap

/-- **The passes are bounded by the logic depth.** If ids are distinct and no id reads from itself in
any number of steps, an evaluation settles within one pass more than the largest level, whatever the
order of declaration. If every source but inputs is declared before what reads it, two passes are
enough, however large the circuit is. -/
theorem evaluate_depth (c : Circuit) (hids : (c.nodes.map (·.id)).Nodup) (hacyclic : c.Acyclic)
    (inputs : Levels) (cap : ℕ) :
    (c.depth hacyclic + 1 ≤ cap →
      ((ofCircuit c).evaluate cap inputs).converged = true ∧
      ((ofCircuit c).evaluate cap inputs).iterations ≤ c.depth hacyclic + 1) ∧
    (c.SourcesFirst → 2 ≤ cap →
      ((ofCircuit c).evaluate cap inputs).converged = true ∧
      ((ofCircuit c).evaluate cap inputs).iterations ≤ 2) := by
  have hkinds := Circuit.kindsAgree_of_nodup hids
  constructor
  · intro hcap
    refine converged_of_at?_finals hkinds inputs (fun e he => ?_) hcap
    have hle := Circuit.level_le_depth hacyclic (of_mem_elements he).1
    exact at?_finals_of_level_le hkinds hacyclic inputs he hle
  · intro hfirst hcap
    refine converged_of_at?_finals hkinds inputs (fun e he => ?_) hcap
    rw [finals, values_relax_succ, relax_zero]
    exact at?_foldl_of_sourcesFirst hkinds hfirst inputs (List.append_nil _).symm he

end Netlist

/-- Two inverters and a gate with one wired pin, each declared after the gate that it reads from. -/
def Circuit.staggered : Circuit where
  nodes := [⟨"n1", "NOT", 0, 0, []⟩, ⟨"n2", "NOT", 0, 0, []⟩, ⟨"g", "AND", 0, 0, []⟩,
    ⟨"A", "In", 0, 0, []⟩]
  connections := [⟨⟨"A", "out"⟩, ⟨"n1", "in"⟩⟩, ⟨⟨"n1", "out"⟩, ⟨"n2", "in"⟩⟩,
    ⟨⟨"n2", "out"⟩, ⟨"g", "a"⟩⟩]

open Netlist in
/-- Declared back to front, three levels take four passes, of which the last one only confirms. With
sources first, two passes are enough, although one gate never gets a value. -/
theorem Circuit.stages_evaluate_depth :
    (stages.nodes.map (·.id)).Nodup ∧ (∃ h : stages.Acyclic, stages.depth h = 3) ∧
    ((ofCircuit stages).evaluate 3 ∅).converged = false ∧
    ((ofCircuit stages).evaluate 4 ∅).converged = true ∧
    ((ofCircuit stages).evaluate 4 ∅).iterations ≤ 4 ∧
    (staggered.nodes.map (·.id)).Nodup ∧ staggered.Acyclic ∧ staggered.SourcesFirst ∧
    ((ofCircuit staggered).evaluate 2 ∅).converged = true ∧
    ((ofCircuit staggered).evaluate 2 ∅).nodeOutputs["g"]? = none := by
  have hids : (stages.nodes.map (·.id)).Nodup := by decide
  have h : stages.Acyclic := by decide +kernel
  have hY : stages.sources "Y" = ["n2"] := by decide +kernel
  have hn2 : stages.sources "n2" = ["n1"] := by decide +kernel
  have hn1 : stages.sources "n1" = ["A"] := by decide +kernel
  have hA : stages.sources "A" = [] := by decide +kernel
  have hlevelA : stages.level h "A" = 0 := by
    rw [level_eq, hA]
    rfl
  have hlevel1 : stages.level h "n1" = 1 := by simp [level_eq h "n1", hn1, hlevelA]
  have hlevel2 : stages.level h "n2" = 2 := by simp [level_eq h "n2", hn2, hlevel1]
  have hlevelY : stages.level h "Y" = 3 := by simp [level_eq h "Y", hY, hlevel2]
  have hdepth : stages.depth h = 3 := by
    change [stages.level h "Y", stages.level h "n2", stages.level h "n1",
      stages.level h "A"].max?.getD 0 = 3
    rw [hlevelY, hlevel2, hlevel1, hlevelA]
    rfl
  obtain ⟨hsettles, -⟩ := evaluate_depth stages hids h ∅ 4
  rw [hdepth] at hsettles
  obtain ⟨hconv, hit⟩ := hsettles le_rfl
  have hids' : (staggered.nodes.map (·.id)).Nodup := by decide
  have h' : staggered.Acyclic := by decide +kernel
  have hfirst : staggered.SourcesFirst := by decide +kernel
  obtain ⟨-, hsettles'⟩ := evaluate_depth staggered hids' h' ∅ 2
  exact ⟨hids, ⟨h, hdepth⟩, by decide +kernel, hconv, hit, hids', h', hfirst,
    (hsettles' hfirst le_rfl).1, by decide +kernel⟩

end Schematic

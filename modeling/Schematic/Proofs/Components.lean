import Mathlib.Data.List.Lex
import Mathlib.Data.List.Sort
import Schematic.Proofs.Diagnosis

/-!
# Components

The loops that are warned about are the strongly connected components of the wiring, less the single
signals that do not feed themselves, and they are listed in order of declaration.

* `Signals.pairwise_names_ofIds`: names are numbered in order of first appearance.
* `Circuit.reportedLoops`: the ids of each warning about a loop, in report order.
* `Netlist.Components`: a listing of the strongly connected components, in any order, which can be checked
  (`Netlist.components_iff`).
* `Netlist.loops_eq_sortedLoops`: **sorting any listing of the components gives the loops.**
* `Circuit.reportedLoops_components`: **loop detection is sound, complete and ordered.**
-/

namespace Schematic

open Relation

/-! ## Order of declaration -/

namespace Signals

/-- **Names are numbered in order of first appearance.** -/
theorem pairwise_names_ofIds (ids : List String) :
    (ofIds ids).names.toList.Pairwise fun a b => ids.idxOf a < ids.idxOf b := by
  induction ids using List.reverseRecOn with
  | nil => exact List.Pairwise.nil
  | append_singleton ids id ih =>
    have hmem : ∀ a ∈ (ofIds ids).names.toList, a ∈ ids := by
      intro a ha
      obtain ⟨k, hk⟩ := Array.mem_iff_getElem?.1 (Array.mem_toList_iff.1 ha)
      exact isSome_number?_ofIds.1 (by rw [(sound_ofIds ids a k).2 hk]; rfl)
    -- an id further on does not move the ids before it
    have hold : (ofIds ids).names.toList.Pairwise fun a b =>
        (ids ++ [id]).idxOf a < (ids ++ [id]).idxOf b := by
      refine ih.imp_of_mem fun {a b} ha hb hlt => ?_
      rwa [List.idxOf_append_of_mem (hmem a ha), List.idxOf_append_of_mem (hmem b hb)]
    rw [ofIds_concat, add]
    split
    · exact hold
    · rename_i hnew
      have hid : id ∉ ids := mt contains_ofIds_iff.2 hnew
      rw [Array.toList_push, List.pairwise_append]
      refine ⟨hold, List.pairwise_singleton _ _, fun a ha b hb => ?_⟩
      obtain rfl := List.mem_singleton.1 hb
      rw [List.idxOf_append_of_mem (hmem a ha), List.idxOf_append_of_notMem hid]
      exact Nat.lt_add_right _ (List.idxOf_lt_length_of_mem (hmem a ha))

end Signals

/-- The earliest node with the first id comes before all nodes with the second. -/
def Circuit.DeclaredBefore (c : Circuit) (a b : String) : Prop :=
  (c.nodes.map (·.id)).idxOf a < (c.nodes.map (·.id)).idxOf b

namespace Netlist

variable {c : Circuit} {a b : ℕ}

theorem declaredBefore_of_lt {id id' : String} (ha : (ofCircuit c).signals.name? a = some id)
    (hb : (ofCircuit c).signals.name? b = some id') (hlt : a < b) : c.DeclaredBefore id id' := by
  obtain ⟨hlta, ha⟩ := Array.getElem?_eq_some_iff.1 ha
  obtain ⟨hltb, hb⟩ := Array.getElem?_eq_some_iff.1 hb
  have hnames : (ofCircuit c).signals.names.toList.Pairwise c.DeclaredBefore :=
    Signals.pairwise_names_ofIds _
  have hbefore := List.pairwise_iff_getElem.1 hnames a b (by simpa using hlta) (by simpa using hltb) hlt
  rwa [Array.getElem_toList, Array.getElem_toList, ha, hb] at hbefore

/-! ## The loops found -/

theorem pairwise_loopAt (s : ℕ) : (loopAt c s).Pairwise (· < ·) :=
  List.pairwise_lt_range.sublist List.filter_sublist

theorem pairwise_of_mem_loops {l : List ℕ} (hl : l ∈ (ofCircuit c).loops) : l.Pairwise (· < ·) := by
  obtain ⟨s, -, rfl, -⟩ := mem_loops.1 hl
  exact pairwise_loopAt s

/-- A loop is the loop of each of its signals. -/
theorem eq_loopAt_of_mem_loops {l : List ℕ} (hl : l ∈ (ofCircuit c).loops) (ha : a ∈ l) :
    l = loopAt c a := by
  obtain ⟨s, -, rfl, -⟩ := mem_loops.1 hl
  exact (loopAt_eq ha).symm

/-- **Loops are listed by their first signals.** -/
theorem pairwise_head_loops (c : Circuit) :
    (ofCircuit c).loops.Pairwise fun l l' => ∃ s ∈ l.head?, ∃ s' ∈ l'.head?, s < s' := by
  refine List.pairwise_filterMap.2 ((List.pairwise_lt_range.sublist List.filter_sublist).imp ?_)
  intro s s' hlt l hl l' hl'
  obtain ⟨hhead, hloop⟩ := Option.ite_none_right_eq_some.1 hl
  obtain ⟨hhead', hloop'⟩ := Option.ite_none_right_eq_some.1 hl'
  cases hloop
  cases hloop'
  exact ⟨s, hhead, s', hhead', hlt⟩

/-- No signal is in two loops, or twice in one. -/
theorem nodup_flatten_loops (c : Circuit) : (ofCircuit c).loops.flatten.Nodup := by
  refine List.nodup_flatten.2 ⟨fun l hl => (pairwise_of_mem_loops hl).nodup, ?_⟩
  refine (pairwise_head_loops c).imp_of_mem ?_
  rintro l l' hl hl' ⟨s, hs, s', hs', hlt⟩ a ha ha'
  -- loops with a common signal are one loop, and a loop has one first signal
  rw [eq_loopAt_of_mem_loops hl ha] at hs
  rw [eq_loopAt_of_mem_loops hl' ha', hs] at hs'
  cases hs'
  exact absurd hlt (lt_irrefl _)

/-! ## Strongly connected components -/

/-- Lists that part the signals into the classes of mutual reach. -/
structure Components (n : Netlist) (components : List (List ℕ)) : Prop where
  nonempty : ∀ l ∈ components, l ≠ []
  partition : components.flatten.Perm (List.range n.signals.size)
  reach : ∀ l ∈ components, ∀ a ∈ l, ∀ b < n.signals.size,
    b ∈ l ↔ ReflTransGen n.Feeds a b ∧ ReflTransGen n.Feeds b a

/-- The components that are loops, of several signals or of one that feeds itself, in rising order. -/
def sortedLoops (n : Netlist) (components : List (List ℕ)) : List (List ℕ) :=
  ((components.filter fun l =>
    decide (1 < l.length) || l.head?.any fun s => n.edges.contains (s, s)).map (·.mergeSort)).mergeSort

theorem Feeds.target_lt_size (h : (ofCircuit c).Feeds a b) : b < (ofCircuit c).signals.size := by
  obtain ⟨e, he, rfl, -⟩ := feeds_iff.1 h
  exact signal_lt he

variable {components : List (List ℕ)}

/-- A listing of the components can be checked, since the closure of the wiring knows what reaches what. -/
theorem components_iff : (ofCircuit c).Components components ↔
    (∀ l ∈ components, l ≠ []) ∧
    components.flatten.Perm (List.range (ofCircuit c).signals.size) ∧
    ∀ l ∈ components, ∀ a ∈ l, ∀ b < (ofCircuit c).signals.size, b ∈ l ↔
      (b = a ∨ (Rows.ofEdges (ofCircuit c).signals.size (ofCircuit c).edges).closure.has a b = true) ∧
      (a = b ∨ (Rows.ofEdges (ofCircuit c).signals.size (ofCircuit c).edges).closure.has b a = true) := by
  simp only [has_closure_iff, ← reflTransGen_iff_eq_or_transGen]
  constructor
  · intro h
    exact ⟨h.nonempty, h.partition, h.reach⟩
  · rintro ⟨hnonempty, hpartition, hreach⟩
    exact ⟨hnonempty, hpartition, hreach⟩

instance : Decidable ((ofCircuit c).Components components) := decidable_of_iff _ components_iff.symm

theorem Components.nodup (h : (ofCircuit c).Components components) : components.flatten.Nodup :=
  h.partition.nodup_iff.2 List.nodup_range

/-- Components hold signals in range only. -/
theorem Components.lt_size {n : Netlist} (h : n.Components components) {l : List ℕ}
    (hl : l ∈ components) (ha : a ∈ l) : a < n.signals.size :=
  List.mem_range.1 (h.partition.mem_iff.1 (List.mem_flatten.2 ⟨l, hl, ha⟩))

/-- **A component is a loop exactly if its signals reach themselves.** -/
theorem Components.isLoop_iff (h : (ofCircuit c).Components components) {l : List ℕ}
    (hl : l ∈ components) (ha : a ∈ l) :
    (1 < l.length ∨ ∃ s ∈ l.head?, (ofCircuit c).Feeds s s) ↔ TransGen (ofCircuit c).Feeds a a := by
  have hnodup : l.Nodup := (List.nodup_flatten.1 h.nodup).1 l hl
  match l with
  | [s] =>
    obtain rfl := List.mem_singleton.1 ha
    simp only [List.length_singleton, lt_irrefl, false_or, List.head?_cons, Option.mem_some,
      exists_eq_left']
    refine ⟨.single, fun hloop => ?_⟩
    -- the signal after the first on a path back is in the component, so it is the same
    obtain ⟨x, hx, hpath⟩ := TransGen.head'_iff.1 hloop
    have hmem := (h.reach [a] hl a ha x hx.target_lt_size).2 ⟨.single hx, hpath⟩
    rwa [List.mem_singleton.1 hmem] at hx
  | s :: t :: l =>
    refine ⟨fun _ => ?_, fun _ => Or.inl (by simp)⟩
    obtain ⟨b, hb, hne⟩ : ∃ b ∈ s :: t :: l, b ≠ a := by
      by_contra hall
      push Not at hall
      have hst := (hall s (by simp)).trans (hall t (by simp)).symm
      simp [hst] at hnodup
    obtain ⟨hab, hba⟩ := (h.reach _ hl a ha b (h.lt_size hl hb)).1 hb
    rcases reflTransGen_iff_eq_or_transGen.1 hab with heq | hab
    · exact absurd heq hne
    · exact hab.trans_left hba

/-- The loop of a signal is its component, sorted. -/
theorem Components.mergeSort_eq_loopAt (h : (ofCircuit c).Components components) {l : List ℕ}
    (hl : l ∈ components) (ha : a ∈ l) (hloop : TransGen (ofCircuit c).Feeds a a) :
    l.mergeSort = loopAt c a := by
  have hnodup : l.mergeSort.Nodup :=
    (List.mergeSort_perm l _).nodup_iff.2 ((List.nodup_flatten.1 h.nodup).1 l hl)
  refine ((List.sortedLE_mergeSort).sortedLT_of_nodup hnodup).eq_of_mem_iff
    (pairwise_loopAt a).sortedLT fun b => ?_
  rw [List.mem_mergeSort, mem_loopAt]
  constructor
  · intro hb
    obtain ⟨hab, hba⟩ := (h.reach l hl a ha b (h.lt_size hl hb)).1 hb
    exact ⟨hloop.trans_left hab, TransGen.trans_right hba hloop⟩
  · rintro ⟨hab, hba⟩
    exact (h.reach l hl a ha b (lt_size_of_transGen hba)).2 ⟨hab.to_reflTransGen, hba.to_reflTransGen⟩

theorem mem_sortedLoops (h : (ofCircuit c).Components components) {l : List ℕ} :
    l ∈ (ofCircuit c).sortedLoops components ↔ l ∈ (ofCircuit c).loops := by
  have hfilter : l ∈ (ofCircuit c).sortedLoops components ↔ ∃ k ∈ components,
      (1 < k.length ∨ ∃ s ∈ k.head?, (ofCircuit c).Feeds s s) ∧ k.mergeSort = l := by
    simp [sortedLoops, Feeds, and_assoc, Option.any_eq_true]
  rw [hfilter]
  constructor
  · rintro ⟨k, hk, hreal, rfl⟩
    obtain ⟨a, ha⟩ := List.exists_mem_of_ne_nil k (h.nonempty k hk)
    have hloop := (h.isLoop_iff hk ha).1 hreal
    obtain ⟨l, hl, hal, -⟩ := exists_loop_iff.2 ⟨hloop, hloop⟩
    rwa [h.mergeSort_eq_loopAt hk ha hloop, ← eq_loopAt_of_mem_loops hl hal]
  · intro hl
    obtain ⟨a, hloop, rfl, -⟩ := mem_loops.1 hl
    have ha : a ∈ components.flatten :=
      h.partition.mem_iff.2 (List.mem_range.2 (lt_size_of_transGen hloop))
    obtain ⟨k, hk, ha⟩ := List.mem_flatten.1 ha
    exact ⟨k, hk, (h.isLoop_iff hk ha).2 hloop, h.mergeSort_eq_loopAt hk ha hloop⟩

/-- Loops are listed in lexicographic order. -/
theorem sortedLT_loops (c : Circuit) : (ofCircuit c).loops.SortedLT := by
  refine ((pairwise_head_loops c).imp ?_).sortedLT
  rintro l l' ⟨s, hs, s', hs', hlt⟩
  obtain ⟨t, rfl⟩ := List.head?_eq_some_iff.1 hs
  obtain ⟨t', rfl⟩ := List.head?_eq_some_iff.1 hs'
  exact List.Lex.rel hlt

/-- Sorting does not merge components, since no two of them share a signal. -/
theorem Components.nodup_sortedLoops (h : (ofCircuit c).Components components) :
    ((ofCircuit c).sortedLoops components).Nodup := by
  rw [sortedLoops, (List.mergeSort_perm _ _).nodup_iff]
  have hdisjoint := (List.nodup_flatten.1 h.nodup).2
  refine List.pairwise_map.2 ((hdisjoint.imp_of_mem ?_).filter _)
  intro k k' hk hk' hd heq
  obtain ⟨a, ha⟩ := List.exists_mem_of_ne_nil k (h.nonempty k hk)
  have hmem : a ∈ k.mergeSort := List.mem_mergeSort.2 ha
  rw [heq] at hmem
  exact hd ha (List.mem_mergeSort.1 hmem)

/-- **Sorting any listing of the components gives the loops.** -/
theorem loops_eq_sortedLoops (h : (ofCircuit c).Components components) :
    (ofCircuit c).loops = (ofCircuit c).sortedLoops components :=
  (sortedLT_loops c).eq_of_mem_iff
    (List.sortedLE_mergeSort.sortedLT_of_nodup h.nodup_sortedLoops) fun _ => (mem_sortedLoops h).symm

end Netlist

/-! ## The report -/

/-- The ids in a warning about a loop. -/
def Warning.loop? : Warning → Option (List String)
  | .feedbackLoop ids => some ids
  | _ => none

namespace Circuit

/-- **The loops that are warned about**, in report order. -/
def reportedLoops (c : Circuit) : List (List String) := c.warnings.filterMap Warning.loop?

variable {c : Circuit} {id id' : String}

theorem mem_reportedLoops {ids : List String} :
    ids ∈ c.reportedLoops ↔ .feedbackLoop ids ∈ c.warnings := by
  rw [reportedLoops, List.mem_filterMap]
  constructor
  · rintro ⟨w, hw, hids⟩
    cases w with
    | feedbackLoop l =>
      cases hids
      exact hw
    | _ => cases hids
  · exact fun hw => ⟨_, hw, rfl⟩

/-- The report names the signals of each loop. -/
theorem reportedLoops_eq (c : Circuit) : c.reportedLoops =
    (Netlist.ofCircuit c).loops.map (·.filterMap (Netlist.ofCircuit c).signals.name?) := by
  have hdup : (Netlist.ofCircuit c).duplicateIds.filterMap Warning.loop? = [] := by
    refine List.filterMap_eq_nil_iff.2 fun w hw => ?_
    obtain ⟨id, -, hw⟩ := List.mem_filterMap.1 hw
    obtain ⟨-, hw⟩ := Option.ite_none_right_eq_some.1 hw
    cases hw
    rfl
  have hends : (c.connections.flatMap (Netlist.ofCircuit c).undeclaredEnds).filterMap
      Warning.loop? = [] := by
    refine List.filterMap_eq_nil_iff.2 fun w hw => ?_
    obtain ⟨k, -, hw⟩ := List.mem_flatMap.1 hw
    rcases mem_undeclaredEnds.1 hw with ⟨-, rfl⟩ | ⟨-, rfl⟩ <;> rfl
  have helements : ((Netlist.ofCircuit c).elements.flatMap Element.warnings).filterMap
      Warning.loop? = [] := by
    refine List.filterMap_eq_nil_iff.2 fun w hw => ?_
    obtain ⟨e, -, hw⟩ := List.mem_flatMap.1 hw
    rcases Element.mem_warnings.1 hw with ⟨-, rfl⟩ | ⟨_, -, rfl⟩ <;> rfl
  have hloops : (Netlist.ofCircuit c).feedbackLoops.filterMap Warning.loop? =
      (Netlist.ofCircuit c).loops.map (·.filterMap (Netlist.ofCircuit c).signals.name?) := by
    rw [Netlist.feedbackLoops, List.filterMap_map, ← List.filterMap_eq_map]
    rfl
  rw [reportedLoops, warnings, Netlist.warnings, List.filterMap_append, List.filterMap_append,
    List.filterMap_append, hdup, helements, hloops]
  change ([] ++ (c.connections.flatMap _).filterMap _ ++ []) ++ _ = _
  rw [hends]
  rfl

/-- No id is in two reported loops, or twice in one. -/
theorem nodup_flatten_reportedLoops (c : Circuit) : c.reportedLoops.flatten.Nodup := by
  have hflat : c.reportedLoops.flatten =
      (Netlist.ofCircuit c).loops.flatten.filterMap (Netlist.ofCircuit c).signals.name? := by
    rw [reportedLoops_eq, List.filterMap_flatten]
  rw [hflat]
  refine (Netlist.nodup_flatten_loops c).filterMap fun a a' id ha ha' => ?_
  -- an id has one number
  have hnum := (Netlist.sound_signals c id a).2 ha
  rw [(Netlist.sound_signals c id a').2 ha'] at hnum
  exact (Option.some.inj hnum).symm

/-- The ids in a reported loop are in order of declaration. -/
theorem pairwise_of_mem_reportedLoops {ids : List String} (hids : ids ∈ c.reportedLoops) :
    ids.Pairwise c.DeclaredBefore := by
  rw [reportedLoops_eq] at hids
  obtain ⟨l, hl, rfl⟩ := List.mem_map.1 hids
  refine List.pairwise_filterMap.2 ((Netlist.pairwise_of_mem_loops hl).imp ?_)
  intro a b hlt id ha id' hb
  exact Netlist.declaredBefore_of_lt ha hb hlt

/-- The reported loops are in order of declaration of their first ids. -/
theorem pairwise_reportedLoops (c : Circuit) : c.reportedLoops.Pairwise fun ids ids' =>
    ∃ id ∈ ids.head?, ∃ id' ∈ ids'.head?, c.DeclaredBefore id id' := by
  -- every signal of a loop has a name, so the first signal gives the first id
  have hhead : ∀ l ∈ (Netlist.ofCircuit c).loops, ∀ s ∈ l.head?,
      ∃ id, (Netlist.ofCircuit c).signals.name? s = some id ∧
        id ∈ (l.filterMap (Netlist.ofCircuit c).signals.name?).head? := by
    intro l hl s hs
    obtain ⟨t, rfl⟩ := List.head?_eq_some_iff.1 hs
    have hloop := (Netlist.exists_loop_iff.1 ⟨_, hl, List.mem_cons_self, List.mem_cons_self⟩).1
    obtain ⟨id, hid⟩ := Netlist.exists_number?_of_lt (Netlist.lt_size_of_transGen hloop)
    have hname := (Netlist.sound_signals c id s).1 hid
    exact ⟨id, hname, by rw [List.filterMap_cons_some hname]; rfl⟩
  rw [reportedLoops_eq]
  refine List.pairwise_map.2 ((Netlist.pairwise_head_loops c).imp_of_mem ?_)
  rintro l l' hl hl' ⟨s, hs, s', hs', hlt⟩
  obtain ⟨id, hname, hid⟩ := hhead l hl s hs
  obtain ⟨id', hname', hid'⟩ := hhead l' hl' s' hs'
  exact ⟨id, hid, id', hid', Netlist.declaredBefore_of_lt hname hname' hlt⟩

/-- **Loop detection is sound, complete and ordered.** Two ids are reported in one loop exactly if
each reads from the other in some steps, so an id is reported exactly if it reads from itself; no id
is reported twice; the ids of a loop, and the loops by their first ids, are in order of declaration.
Whichever way the strongly connected components are listed, sorting them gives this report. -/
theorem reportedLoops_components (c : Circuit) :
    (∀ id id', (∃ ids ∈ c.reportedLoops, id ∈ ids ∧ id' ∈ ids) ↔
      TransGen c.ReadsFrom id id' ∧ TransGen c.ReadsFrom id' id) ∧
    (∀ id, (∃ ids ∈ c.reportedLoops, id ∈ ids) ↔ TransGen c.ReadsFrom id id) ∧
    c.reportedLoops.flatten.Nodup ∧
    (∀ ids ∈ c.reportedLoops, ids.Pairwise c.DeclaredBefore) ∧
    (c.reportedLoops.Pairwise fun ids ids' =>
      ∃ id ∈ ids.head?, ∃ id' ∈ ids'.head?, c.DeclaredBefore id id') ∧
    ∀ components, (Netlist.ofCircuit c).Components components →
      c.reportedLoops = ((Netlist.ofCircuit c).sortedLoops components).map
        (·.filterMap (Netlist.ofCircuit c).signals.name?) := by
  refine ⟨fun id id' => ?_, fun id => ?_, nodup_flatten_reportedLoops c,
    fun ids => pairwise_of_mem_reportedLoops, pairwise_reportedLoops c, fun components h => ?_⟩
  · simp only [mem_reportedLoops]
    exact exists_feedbackLoop_pair_iff
  · simp only [mem_reportedLoops]
    exact exists_feedbackLoop_iff
  · rw [reportedLoops_eq, Netlist.loops_eq_sortedLoops h]

/-- Two gates that read each other, of which one id is declared twice, and one that reads itself. The
last connection is not read, since its pin is driven already. -/
def rings : Circuit where
  nodes := [⟨"S", "In", 0, 0, []⟩, ⟨"qn", "NOR", 0, 0, []⟩, ⟨"q", "NOR", 0, 0, []⟩,
    ⟨"osc", "NOT", 0, 0, []⟩, ⟨"q", "BUF", 0, 0, []⟩]
  connections := [⟨⟨"S", "out"⟩, ⟨"q", "a"⟩⟩, ⟨⟨"qn", "out"⟩, ⟨"q", "b"⟩⟩, ⟨⟨"q", "out"⟩, ⟨"qn", "a"⟩⟩,
    ⟨⟨"S", "out"⟩, ⟨"qn", "b"⟩⟩, ⟨⟨"osc", "out"⟩, ⟨"osc", "in"⟩⟩, ⟨⟨"osc", "out"⟩, ⟨"q", "in"⟩⟩,
    ⟨⟨"q", "out"⟩, ⟨"osc", "in"⟩⟩]

/-- The loops of `rings`, from its components in another order. -/
theorem rings_reportedLoops : (Netlist.ofCircuit rings).Components [[3], [2, 1], [0]] ∧
    rings.reportedLoops = [["qn", "q"], ["osc"]] := by
  have hcomponents : (Netlist.ofCircuit rings).Components [[3], [2, 1], [0]] := by decide +kernel
  obtain ⟨-, -, -, -, -, hsorted⟩ := reportedLoops_components rings
  refine ⟨hcomponents, (hsorted _ hcomponents).trans ?_⟩
  simp only [Netlist.sortedLoops, List.mergeSort_eq_insertionSort]
  decide +kernel

end Circuit

end Schematic

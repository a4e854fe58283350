import Schematic.Json.Encode
import Schematic.Proofs.Bytes
import Schematic.Proofs.JsonReader
import Schematic.Proofs.Wiring

/-!
# The texts of a session

What an editor gets from a session is text. Reading it with a reader that knows the grammar of JSON
and nothing of sessions, and taking the members of the objects by their keys, gives back what the
session shows.

* `Json.field?`: the member with a key, if no other member has it; so the order of the members and
  how a reader treats repeated keys do not matter.
* `Evaluation.ofJson?_json`, `Widget.ofJson?_json`, `View.ofJson?_json`: evaluations, widgets and
  views are got back from their JSON forms.
* `Session.texts_faithful`: **the texts of a session tell what it shows**, so two sessions that show
  different things have different texts.
-/

namespace Schematic

namespace Json

/-- The member of an object with a key, if there is just one. -/
def field? (key : String) : Json → Option Json
  | .object members =>
    match members.filter fun m => m.1 = key with
    | [m] => some m.2
    | _ => none
  | _ => none

def asString? : Json → Option String
  | .string s => some s
  | _ => none

def asBool? : Json → Option Bool
  | .bool b => some b
  | _ => none

def asInt? : Json → Option ℤ
  | .number n => some n
  | _ => none

def asNat? : Json → Option ℕ
  | .number (.ofNat n) => some n
  | _ => none

/-- A level, or null for one that is not known. -/
def asLevel? : Json → Option (Option Bool)
  | .null => some none
  | .bool b => some (some b)
  | _ => none

/-- An array of values that are each read in one way. -/
def asList? {α : Type} (ofJson? : Json → Option α) : Json → Option (List α)
  | .array items => items.mapM ofJson?
  | _ => none

/-- A member as an entry of a table of levels. -/
def entry? (m : String × Json) : Option (String × Bool) := m.2.asBool?.map fun b => (m.1, b)

/-- An object as a table of levels. -/
def asLevels? : Json → Option Levels
  | .object members => (members.mapM entry?).map fun l => .ofList l
  | _ => none

/-- An object with distinct keys that increase by their bytes. -/
def IsSorted : Json → Prop
  | .object members =>
    (members.map Prod.fst).Nodup ∧
      (members.map Prod.fst).Pairwise fun k k' => Text.bytes k < Text.bytes k'
  | _ => False

/-- A list is got back if each of its members is. -/
theorem mapM_map_eq_some {α β : Type} {f : α → β} {g : β → Option α} (h : ∀ x, g (f x) = some x)
    (l : List α) : (l.map f).mapM g = some l := by
  have hall : l.mapM (g ∘ f) = some (l.map id) := mapM_eq_map fun x _ => h x
  rw [List.mapM_map, hall, List.map_id]

theorem asList?_map {α : Type} {json : α → Json} {ofJson? : Json → Option α}
    (h : ∀ x, ofJson? (json x) = some x) (l : List α) :
    asList? ofJson? (.array (l.map json)) = some l :=
  mapM_map_eq_some h l

theorem asList?_strings (l : List String) : (strings l).asList? asString? = some l :=
  mapM_map_eq_some (f := Json.string) (fun _ => rfl) l

theorem asLevel?_level (v : Option Bool) : (level v).asLevel? = some v := by
  cases v <;> rfl

/-- A table is got back, since its list has every key once. -/
theorem asLevels?_levels (l : Levels) : (levels l).asLevels? = some l := by
  have htable : (Std.ExtTreeMap.ofList l.toList : Levels) = l := by
    refine Std.ExtTreeMap.ext_getElem? fun k => Option.ext fun v => ?_
    rw [Netlist.getElem?_ofList_iff, Std.ExtTreeMap.mem_toList_iff_getElem?_eq_some]
    rintro ⟨k, v⟩ hp ⟨_, v'⟩ hq rfl
    rw [Std.ExtTreeMap.mem_toList_iff_getElem?_eq_some] at hp hq
    exact Option.some.inj (hp.symm.trans hq)
  rw [levels, asLevels?, mapM_map_eq_some (g := entry?) fun _ => rfl]
  exact congrArg some htable

/-- What is got back from its JSON form is got back from its text. -/
theorem read?_compact_bind {α : Type} {json : α → Json} {ofJson? : Json → Option α}
    (h : ∀ x, ofJson? (json x) = some x) (x : α) :
    (read? (json x).compact).bind ofJson? = some x := by
  rw [read?_compact, Option.bind_some, h]

theorem compact_inj {α : Type} {json : α → Json} {ofJson? : Json → Option α}
    (h : ∀ x, ofJson? (json x) = some x) {x y : α} :
    (json x).compact = (json y).compact ↔ x = y := by
  refine ⟨fun heq => ?_, fun heq => by rw [heq]⟩
  have hx := read?_compact_bind h x
  rw [heq, read?_compact_bind h y] at hx
  exact (Option.some.inj hx).symm

theorem isSorted_levels (l : Levels) : (levels l).IsSorted := by
  have hkeys : (l.toList.map fun p => (p.1, Json.bool p.2)).map Prod.fst = l.toList.map Prod.fst := by
    rw [List.map_map]
    rfl
  have hsorted := l.sorted_keys
  rw [← hkeys] at hsorted
  refine ⟨hsorted.imp fun h heq => ?_, hsorted⟩
  subst heq
  exact List.lt_irrefl _ h

end Json

open Json

def Evaluation.ofJson? (v : Json) : Option Evaluation := do
  let nodeOutputs ← (← v.field? "nodeOutputs").asLevels?
  let edgeStates ← (← v.field? "edgeStates").asLevels?
  let iterations ← (← v.field? "iterations").asNat?
  let converged ← (← v.field? "converged").asBool?
  some ⟨nodeOutputs, edgeStates, iterations, converged⟩

/-- A widget, by its tag. -/
def Widget.ofJson? (v : Json) : Option Widget := do
  let tag ← (← v.field? "type").asString?
  let label ← (← v.field? "label").asString?
  if tag = "inputNode" then
    let value ← (← v.field? "value").asBool?
    some (.input label value)
  else if tag = "outputNode" then
    let value ← (← v.field? "value").asLevel?
    some (.output label value)
  else if tag = "notGateNode" then
    let input ← (← v.field? "input").asLevel?
    let output ← (← v.field? "output").asLevel?
    some (.unary label input output)
  else if tag = "gateNode" then
    let inputA ← (← v.field? "inputA").asLevel?
    let inputB ← (← v.field? "inputB").asLevel?
    let output ← (← v.field? "output").asLevel?
    some (.binary label inputA inputB output)
  else none

def ViewNode.ofJson? (v : Json) : Option ViewNode := do
  let id ← (← v.field? "id").asString?
  let position ← v.field? "position"
  let x ← (← position.field? "x").asInt?
  let y ← (← position.field? "y").asInt?
  let widget ← Widget.ofJson? (← v.field? "data")
  some ⟨id, x, y, widget⟩

/-- A wire, whose id is the key of its connection. -/
def ViewEdge.ofJson? (v : Json) : Option ViewEdge := do
  let id ← (← v.field? "id").asString?
  let source ← (← v.field? "source").asString?
  let sourceSlot ← (← v.field? "sourceHandle").asString?
  let target ← (← v.field? "target").asString?
  let targetSlot ← (← v.field? "targetHandle").asString?
  let active ← (← v.field? "active").asBool?
  let connection : Connection := ⟨⟨source, sourceSlot⟩, ⟨target, targetSlot⟩⟩
  if id = connection.key then some ⟨connection, active⟩ else none

def View.ofJson? (v : Json) : Option View := do
  let nodes ← (← v.field? "nodes").asList? ViewNode.ofJson?
  let edges ← (← v.field? "edges").asList? ViewEdge.ofJson?
  some ⟨nodes, edges⟩

theorem Evaluation.ofJson?_json (e : Evaluation) : Evaluation.ofJson? e.json = some e := by
  simp [Evaluation.ofJson?, json, members, field?, asLevels?_levels, asNat?, asBool?]

theorem Evaluation.field?_nodeOutputs (e : Evaluation) :
    e.json.field? "nodeOutputs" = some (levels e.nodeOutputs) := by
  simp [json, members, field?]

theorem Evaluation.field?_edgeStates (e : Evaluation) :
    e.json.field? "edgeStates" = some (levels e.edgeStates) := by
  simp [json, members, field?]

theorem Widget.ofJson?_json (w : Widget) : Widget.ofJson? w.json = some w := by
  cases w <;> simp [Widget.ofJson?, json, field?, asString?, asBool?, asLevel?_level]

theorem ViewNode.ofJson?_json (n : ViewNode) : ViewNode.ofJson? n.json = some n := by
  simp [ViewNode.ofJson?, json, field?, asString?, asInt?, Widget.ofJson?_json]

theorem ViewEdge.ofJson?_json (e : ViewEdge) : ViewEdge.ofJson? e.json = some e := by
  simp [ViewEdge.ofJson?, json, field?, asString?, asBool?]

theorem View.ofJson?_json (v : View) : View.ofJson? v.json = some v := by
  simp [View.ofJson?, json, field?, asList?_map ViewNode.ofJson?_json,
    asList?_map ViewEdge.ofJson?_json]

/-- **The texts of a session are faithful.** Each of them is read back to what the session shows: its
messages, the evaluation and the view. The two tables of the evaluation list their keys once each, in
increasing order of their bytes. So two sessions have one text if and only if they show one thing. -/
theorem Session.texts_faithful (s : Session) :
    (read? s.diagnosticsText).bind (asList? asString?) = some s.parsed.messages ∧
    (read? s.evaluationText).bind Evaluation.ofJson? = some s.evaluate ∧
    (∃ outputs, (read? s.evaluationText).bind (field? "nodeOutputs") = some outputs ∧
      outputs.IsSorted) ∧
    (∃ states, (read? s.evaluationText).bind (field? "edgeStates") = some states ∧
      states.IsSorted) ∧
    (read? s.viewText).bind View.ofJson? = some s.view ∧
    ∀ s' : Session,
      (s.diagnosticsText = s'.diagnosticsText ↔ s.parsed.messages = s'.parsed.messages) ∧
      (s.evaluationText = s'.evaluationText ↔ s.evaluate = s'.evaluate) ∧
      (s.viewText = s'.viewText ↔ s.view = s'.view) := by
  have hread : read? s.evaluationText = some s.evaluate.json := read?_compact _
  refine ⟨read?_compact_bind asList?_strings _, read?_compact_bind Evaluation.ofJson?_json _,
    ⟨_, ?_, isSorted_levels s.evaluate.nodeOutputs⟩, ⟨_, ?_, isSorted_levels s.evaluate.edgeStates⟩,
    read?_compact_bind View.ofJson?_json _,
    fun s' => ⟨compact_inj asList?_strings, compact_inj Evaluation.ofJson?_json,
      compact_inj View.ofJson?_json⟩⟩
  · rw [hread, Option.bind_some, Evaluation.field?_nodeOutputs]
  · rw [hread, Option.bind_some, Evaluation.field?_edgeStates]

/-- An id with a quote, a backslash and a character beyond the first plane. -/
example : (Session.new "In \"\\😀@0,0").evaluationText =
    "\x7b\"nodeOutputs\":\x7b\"\\\"\\\\😀\":false\x7d,\"edgeStates\":\x7b\x7d," ++
      "\"iterations\":1,\"converged\":true\x7d" := by
  decide +kernel

end Schematic

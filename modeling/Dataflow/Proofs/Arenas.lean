import Dataflow.Graph.Arena
import Dataflow.Proofs.Declarations
import Dataflow.Proofs.Tables
import Mathlib.Data.List.Find

/-!
# Graphs built in place

A graph is built by calls that write into a store, and nothing takes a write
back.  What is wanted of the graph therefore hangs on the order of checks and
writes inside each call.  The equations `Arena.run_addNode`, `Arena.run_insertEdge`
and `Arena.run_connectMapped` give all that a call can do, and a call that fails has
written nothing in any of them.  With the invariant `Arena.Sound`, which ties the
table and the places of the edges to the slots, each call does to the store what
the declaration does to the graph that the store stands for (`Arena.simulates_perform`).

* `Arena.sound_build`, `Arena.graph_build`: the store after any calls.
* `Arena.constructed`: the invariant of graphs under construction, their history,
  and the failing calls.
-/

namespace Dataflow

/-! ## Repeated targets -/

theorem adjacent?_of_sorted {texts : List String} (h : texts.Pairwise (· ≤ ·)) :
    Arena.adjacent? texts = texts.find? fun text => decide (1 < texts.count text) := by
  induction texts with
  | nil => rfl
  | cons a rest ih =>
    obtain ⟨ha, hrest⟩ := List.pairwise_cons.1 h
    cases rest with
    | nil => simp [Arena.adjacent?]
    | cons b rest =>
      rw [Arena.adjacent?]
      by_cases hab : a = b
      · subst hab
        simp
      -- A text smaller than its neighbour is smaller than all that follow.
      · have hnew : a ∉ b :: rest := fun hmem => by
          rcases List.mem_cons.1 hmem with heq | hmem
          · exact hab heq
          · exact hab (String.le_antisymm (ha b List.mem_cons_self)
              ((List.pairwise_cons.1 hrest).1 a hmem))
        have hcount : (a :: b :: rest).count a = 1 := by
          rw [List.count_cons_self, List.count_eq_zero_of_not_mem hnew]
        have hskip : ((a :: b :: rest).find? fun text => decide (1 < (a :: b :: rest).count text)) =
            (b :: rest).find? fun text => decide (1 < (a :: b :: rest).count text) :=
          List.find?_cons_of_neg (by rw [hcount]; decide)
        rw [if_neg hab, ih hrest, hskip]
        refine List.find?_congr fun text htext => ?_
        have hne : a ≠ text := fun heq => hnew (heq ▸ htext)
        rw [List.count_cons_of_ne hne]

/-- Sorting and looking at neighbours finds the smallest repeated text. -/
theorem adjacent?_mergeSort (texts : List String) :
    Arena.adjacent? (texts.mergeSort fun a b => decide (a ≤ b)) = Graph.repeated? texts := by
  have hsorted : (texts.mergeSort fun a b => decide (a ≤ b)).Pairwise (· ≤ ·) := by
    refine (List.pairwise_mergeSort (fun a b c hab hbc => ?_) (fun a b => ?_) texts).imp
      of_decide_eq_true
    · exact decide_eq_true (String.le_trans (of_decide_eq_true hab) (of_decide_eq_true hbc))
    · simpa using String.le_total a b
  rw [adjacent?_of_sorted hsorted, Graph.repeated?]
  refine List.find?_congr fun text _ => ?_
  rw [(List.mergeSort_perm texts _).count_eq]

/-! ## Tables of places -/

/-- The table leads from each key of a list to the place where it stands, and from no other
key anywhere. -/
def Indexes (places : Table Nat) (keys : List String) : Prop :=
  ∀ key place, places.find? key = some place ↔ keys[place]? = some key

namespace Indexes

variable {places : Table Nat} {keys : List String}

theorem empty : Indexes .empty [] := fun _ _ => by simp

theorem isSome_find? (h : Indexes places keys) (key : String) :
    (places.find? key).isSome = true ↔ key ∈ keys := by
  rw [Option.isSome_iff_exists, List.mem_iff_getElem?]
  exact exists_congr fun place => h key place

/-- Two places are the same just if their keys are. -/
theorem place_eq_iff (h : Indexes places keys) {place place' : Nat} {key key' : String}
    (hplace : keys[place]? = some key) (hplace' : keys[place']? = some key') :
    place = place' ↔ key = key' := by
  constructor
  · rintro rfl
    exact Option.some.inj (hplace.symm.trans hplace')
  · rintro rfl
    exact Option.some.inj (((h _ _).2 hplace).symm.trans ((h _ _).2 hplace'))

/-- A new key goes to the next place. -/
theorem insert (h : Indexes places keys) {key : String} (hkey : key ∉ keys) :
    Indexes (places.insert key keys.length) (keys ++ [key]) := by
  intro other place
  rw [Table.find?_insert]
  by_cases hother : other = key
  · subst hother
    rw [if_pos rfl, List.getElem?_append]
    split
    next hlt =>
      refine ⟨fun heq => ?_, fun hplace => absurd (List.mem_of_getElem? hplace) hkey⟩
      exact absurd (Option.some.inj heq) (by omega)
    next hle =>
      rw [List.getElem?_singleton]
      split
      · simp; omega
      · simp; omega
  · rw [if_neg hother, h other place, List.getElem?_append]
    split
    · exact Iff.rfl
    next hle =>
      rw [List.getElem?_eq_none (Nat.le_of_not_lt hle), List.getElem?_singleton]
      split
      · simpa using fun heq => hother heq.symm
      · exact Iff.rfl

end Indexes

namespace Arena

variable {arena : Arena}

/-! ## What calls do -/

theorem run_addNode (arena : Arena) (key : String) (node : Node) :
    (addNode key node).run arena =
      if key = "" then .error (.structural .emptyKey) arena
      else if (arena.places.find? key).isSome then .error (.structural (.nodeExists key)) arena
      else .ok () (arena.occupy key (.work node)) := by
  -- Reading the arena leaves it alone, and what remains is the chain of checks.
  change EStateM.run (if _ then _ else if _ then _ else _) arena = _
  split
  · rfl
  split
  · rfl
  · rfl

theorem run_placeOf (arena : Arena) (key : String) :
    (placeOf key).run arena =
      match arena.places.find? key with
      | some place => .ok place arena
      | none => .error (.structural (.nodeMissing key)) arena := by
  change EStateM.run (match arena.places.find? key with | some _ => _ | none => _) arena = _
  split
  · rfl
  · rfl

theorem run_insertEdge (arena : Arena) (edge : Edge) :
    (insertEdge edge).run arena =
      if edge.source = endKey then .error (.structural .leavesEnd) arena
      else if edge.target = startKey then .error (.structural .entersStart) arena
      else
        match arena.places.find? edge.source, arena.places.find? edge.target with
        | none, _ => .error (.structural (.nodeMissing edge.source)) arena
        | some _, none => .error (.structural (.nodeMissing edge.target)) arena
        | some source, some target =>
          if arena.hasLink source target then
            .error (.structural (.edgeExists edge.source edge.target)) arena
          else .ok () (arena.pushLink source target edge) := by
  unfold insertEdge
  split
  · rfl
  split
  · rfl
  rw [EStateM.run_bind, run_placeOf]
  cases arena.places.find? edge.source with
  | none => rfl
  | some source =>
    dsimp only
    rw [EStateM.run_bind, run_placeOf]
    cases arena.places.find? edge.target with
    | none => rfl
    | some target =>
      change EStateM.run (if _ then _ else _) arena = _
      dsimp only
      split
      · rfl
      · rfl

theorem run_connectMapped (arena : Arena) (source target : String) (mappings : List Mapping) :
    (connectMapped source target mappings).run arena =
      if mappings.isEmpty then .error (.structural (.edgeWithoutMappings source target)) arena
      else
        match Graph.repeated? (mappings.map (·.target)) with
        | some field => .error (.structural (.targetRepeated source target field)) arena
        | none => (insertEdge (.mapped source target mappings)).run arena := by
  have hplain : (Edge.mapped source target mappings).isPlain = mappings.isEmpty := by
    simp [Edge.isPlain, Edge.mapped]
  unfold connectMapped
  dsimp only
  rw [hplain]
  split
  · rfl
  next hne =>
    have htargets : (Edge.mapped source target mappings).targets = mappings.map (·.target) := by
      rw [Edge.targets, Graph.effectiveMappings_mapped source target (by simpa using hne),
        List.map_map]
      rfl
    rw [htargets, adjacent?_mergeSort]
    cases Graph.repeated? (mappings.map (·.target)) with
    | none => rfl
    | some field => rfl

/-! ## The table and the slots -/

theorem keys_occupy (arena : Arena) (key : String) (role : Role) :
    (arena.occupy key role).keys = arena.keys ++ [key] := by
  simp [keys, occupy, pushSlot, enter]

/-- A key keeps its place when another one comes. -/
theorem getElem?_keys_occupy {place : Nat} {other : String} (h : arena.keys[place]? = some other)
    (key : String) (role : Role) : (arena.occupy key role).keys[place]? = some other := by
  obtain ⟨hplace, _⟩ := List.getElem?_eq_some_iff.1 h
  rw [keys_occupy, List.getElem?_append_left hplace, h]

theorem indexes_occupy (h : Indexes arena.places arena.keys) {key : String}
    (hkey : key ∉ arena.keys) (role : Role) :
    Indexes (arena.occupy key role).places (arena.occupy key role).keys := by
  have hlength : arena.slots.length = arena.keys.length := (List.length_map _).symm
  rw [keys_occupy]
  change Indexes (arena.places.insert key arena.slots.length) _
  rw [hlength]
  exact h.insert hkey

/-- The slots are those of the start, the end and nodes, the table is theirs, and every
edge connects the places of its keys. -/
structure Sound (arena : Arena) : Prop where
  indexes : Indexes arena.places arena.keys
  slots : arena.slots = (startKey, .start) :: (endKey, .finish) ::
    arena.nodes.map fun entry => (entry.1, .work entry.2)
  source : ∀ link ∈ arena.links, arena.keys[link.source]? = some link.content.source
  target : ∀ link ∈ arena.links, arena.keys[link.target]? = some link.content.target

theorem sound_new (input output : Ty) : (new input output).Sound where
  indexes := by
    refine indexes_occupy (indexes_occupy .empty List.not_mem_nil .start) ?_ .finish
    rw [keys_occupy]
    show endKey ∉ [startKey]
    decide
  slots := rfl
  source := nofun
  target := nofun

theorem Sound.keys_eq (h : arena.Sound) : arena.graph.keys = arena.keys := by
  have hkeys : arena.keys = arena.slots.map (·.1) := rfl
  rw [hkeys, h.slots, Graph.keys]
  simp [graph, Function.comp_def]

theorem Sound.isSome_find? (h : arena.Sound) (key : String) :
    (arena.places.find? key).isSome = arena.graph.contains key := by
  rw [Bool.eq_iff_iff, h.indexes.isSome_find?, Graph.contains, List.contains_iff_mem, h.keys_eq]

theorem Sound.occupy (h : arena.Sound) {key : String} (hkey : key ∉ arena.keys) (node : Node) :
    (arena.occupy key (.work node)).Sound := by
  have hkeys := keys_occupy arena key (.work node)
  have hnodes : (arena.occupy key (.work node)).nodes = arena.nodes ++ [(key, node)] := by
    simp [nodes, Arena.occupy, pushSlot, enter, nodeOf?]
  refine ⟨indexes_occupy h.indexes hkey _, ?_, fun link hlink => ?_, fun link hlink => ?_⟩
  · change arena.slots ++ [(key, .work node)] = _
    rw [hnodes, h.slots]
    simp
  · exact getElem?_keys_occupy (h.source link hlink) key _
  · exact getElem?_keys_occupy (h.target link hlink) key _

theorem Sound.pushLink (h : arena.Sound) {edge : Edge} {source target : Nat}
    (hsource : arena.keys[source]? = some edge.source)
    (htarget : arena.keys[target]? = some edge.target) :
    (arena.pushLink source target edge).Sound := by
  refine ⟨h.indexes, h.slots, fun link hlink => ?_, fun link hlink => ?_⟩
  · rcases List.mem_append.1 hlink with hlink | hlink
    · exact h.source link hlink
    · exact List.mem_singleton.1 hlink ▸ hsource
  · rcases List.mem_append.1 hlink with hlink | hlink
    · exact h.target link hlink
    · exact List.mem_singleton.1 hlink ▸ htarget

theorem Sound.hasLink_eq (h : arena.Sound) {edge : Edge} {source target : Nat}
    (hsource : arena.keys[source]? = some edge.source)
    (htarget : arena.keys[target]? = some edge.target) :
    arena.hasLink source target = arena.graph.hasEdge edge.source edge.target := by
  have hedges : arena.graph.edges = arena.links.map (·.content) := rfl
  rw [hasLink, Graph.hasEdge, hedges, List.any_map, Bool.eq_iff_iff, List.any_eq_true,
    List.any_eq_true]
  refine exists_congr fun link => and_congr_right fun hlink => ?_
  have hs := h.indexes.place_eq_iff (h.source link hlink) hsource
  have ht := h.indexes.place_eq_iff (h.target link hlink) htarget
  simp [hs, ht]

/-! ## Calls and declarations -/

/-- The call that a declaration makes. -/
def perform : Declaration → Call Unit
  | .node key node => addNode key node
  | .edge source target => connect source target
  | .mapped source target mappings => connectMapped source target mappings

/-- What a call may come to, next to what the declaration comes to on the graph that the
arena stands for.  A call that fails has changed nothing. -/
inductive Simulates (arena : Arena) : EStateM.Result Error Arena Unit → Except Error Graph → Prop
  | ok {arena' : Arena} (hsound : arena'.Sound) :
    Simulates arena (.ok () arena') (.ok arena'.graph)
  | error (fault : GraphFault) :
    Simulates arena (.error (.structural fault) arena) (.error (.structural fault))

/-- A call that fails has changed nothing, and its error is structural. -/
theorem Simulates.of_error {arena' : Arena} {error : Error} {declared : Except Error Graph}
    (h : Simulates arena (.error error arena') declared) :
    (∃ fault, error = .structural fault) ∧ arena' = arena := by
  cases h with
  | error fault => exact ⟨⟨fault, rfl⟩, rfl⟩

theorem simulates_addNode (h : arena.Sound) (key : String) (node : Node) :
    Simulates arena ((addNode key node).run arena) (arena.graph.addNode key node) := by
  rw [run_addNode, Graph.addNode, h.isSome_find?]
  split
  · exact .error .emptyKey
  split
  · exact .error (.nodeExists key)
  next hnew =>
    rw [Graph.contains, List.contains_iff_mem, h.keys_eq] at hnew
    have hgraph : { arena.graph with nodes := arena.graph.nodes ++ [(key, node)] } =
        (arena.occupy key (.work node)).graph := by
      simp [graph, nodes, edges, occupy, pushSlot, enter, nodeOf?]
    rw [hgraph]
    exact .ok (h.occupy hnew node)

theorem simulates_insertEdge (h : arena.Sound) (edge : Edge) :
    Simulates arena ((insertEdge edge).run arena) (arena.graph.insertEdge edge) := by
  rw [run_insertEdge, Graph.insertEdge, ← h.isSome_find?, ← h.isSome_find?]
  split
  · exact .error .leavesEnd
  split
  · exact .error .entersStart
  cases hsource : arena.places.find? edge.source with
  | none => exact .error (.nodeMissing edge.source)
  | some source =>
    cases htarget : arena.places.find? edge.target with
    | none => exact .error (.nodeMissing edge.target)
    | some target =>
      have hs := (h.indexes _ _).1 hsource
      have ht := (h.indexes _ _).1 htarget
      simp only [h.hasLink_eq hs ht, Option.isSome_some, Bool.not_true, Bool.false_eq_true,
        if_false]
      split
      · exact .error (.edgeExists edge.source edge.target)
      · have hgraph : { arena.graph with edges := arena.graph.edges ++ [edge] } =
            (arena.pushLink source target edge).graph := by
          simp [graph, nodes, edges, pushLink]
        rw [hgraph]
        exact .ok (h.pushLink hs ht)

/-- A call does to an arena what the declaration does to the graph that the arena stands
for. -/
theorem simulates_perform (h : arena.Sound) (call : Declaration) :
    Simulates arena ((perform call).run arena) (arena.graph.declare call) := by
  cases call with
  | node key node => exact simulates_addNode h key node
  | edge source target => exact simulates_insertEdge h { source, target }
  | mapped source target mappings =>
    change Simulates arena ((connectMapped source target mappings).run arena)
      (arena.graph.connectMapped source target mappings)
    rw [run_connectMapped, Graph.connectMapped]
    split
    · exact .error (.edgeWithoutMappings source target)
    cases Graph.repeated? (mappings.map (·.target)) with
    | some field => exact .error (.targetRepeated source target field)
    | none => exact simulates_insertEdge h (.mapped source target mappings)

/-! ## Runs -/

/-- The arena after a call, whatever came of it. -/
def after (arena : Arena) (call : Declaration) : Arena :=
  match (perform call).run arena with
  | .ok _ arena' => arena'
  | .error _ arena' => arena'

/-- The arena after some calls on a new one. -/
def build (input output : Ty) (calls : List Declaration) : Arena :=
  calls.foldl after (new input output)

/-- Whether a call succeeds. -/
def succeeds (arena : Arena) (call : Declaration) : Bool :=
  match (perform call).run arena with
  | .ok _ _ => true
  | .error _ _ => false

/-- Those of some calls that succeed when they are made one after the other. -/
def accepted (arena : Arena) : List Declaration → List Declaration
  | [] => []
  | call :: calls =>
    if arena.succeeds call then call :: accepted (arena.after call) calls
    else accepted (arena.after call) calls

/-- A call succeeds where the declaration does, or it leaves the arena alone. -/
theorem Sound.after_cases (h : arena.Sound) (call : Declaration) :
    (arena.succeeds call = true ∧ (arena.after call).Sound ∧
      arena.graph.declare call = .ok (arena.after call).graph) ∨
    (arena.succeeds call = false ∧ arena.after call = arena ∧
      ∃ fault, arena.graph.declare call = .error (.structural fault)) := by
  have hsim := simulates_perform h call
  unfold succeeds after
  generalize (perform call).run arena = result, arena.graph.declare call = declared at hsim ⊢
  cases hsim with
  | ok hsound => exact .inl ⟨rfl, hsound, rfl⟩
  | error fault => exact .inr ⟨rfl, rfl, fault, rfl⟩

theorem Sound.after (h : arena.Sound) (call : Declaration) :
    (arena.after call).Sound ∧ (arena.after call).graph = arena.graph.after call := by
  unfold Graph.after
  rcases h.after_cases call with ⟨_, hsound, hdeclare⟩ | ⟨_, hsame, fault, hdeclare⟩
  · rw [hdeclare]
    exact ⟨hsound, rfl⟩
  · rw [hdeclare, hsame]
    exact ⟨h, rfl⟩

theorem Sound.foldl_after (h : arena.Sound) (calls : List Declaration) :
    (calls.foldl Arena.after arena).Sound ∧
      (calls.foldl Arena.after arena).graph = calls.foldl Graph.after arena.graph := by
  induction calls generalizing arena with
  | nil => exact ⟨h, rfl⟩
  | cons call calls ih =>
    obtain ⟨hsound, hgraph⟩ := h.after call
    rw [List.foldl_cons, List.foldl_cons, ← hgraph]
    exact ih hsound

theorem sound_build (input output : Ty) (calls : List Declaration) :
    (build input output calls).Sound :=
  ((sound_new input output).foldl_after calls).1

/-- The arena stands for the graph that the calls declare. -/
theorem graph_build (input output : Ty) (calls : List Declaration) :
    (build input output calls).graph = Graph.declared input output calls :=
  ((sound_new input output).foldl_after calls).2

/-- What every accepted declaration adds to a list of the graph is there in the order of the
calls that succeeded. -/
theorem Sound.history {α : Type} (read : Graph → List α) (added : Declaration → Option α)
    (hstep : ∀ graph call graph', Graph.declare graph call = .ok graph' →
      read graph' = read graph ++ (added call).toList)
    (h : arena.Sound) (calls : List Declaration) :
    read (calls.foldl Arena.after arena).graph =
      read arena.graph ++ (accepted arena calls).filterMap added := by
  induction calls generalizing arena with
  | nil => exact (List.append_nil _).symm
  | cons call calls ih =>
    rw [List.foldl_cons, accepted]
    rcases h.after_cases call with ⟨hsucceeds, hsound, hdeclare⟩ | ⟨hfails, hsame, _⟩
    · rw [ih hsound, hstep _ _ _ hdeclare, if_pos hsucceeds, List.append_assoc]
      cases hadded : added call with
      | none => rw [List.filterMap_cons_none hadded]; rfl
      | some a => rw [List.filterMap_cons_some hadded]; rfl
    · rw [hsame, if_neg (by simp [hfails]), ih h]

/-- A call that succeeds is an accepted declaration. -/
theorem Sound.exists_declare_of_mem (h : arena.Sound) {calls : List Declaration}
    {call : Declaration} (hcall : call ∈ accepted arena calls) :
    ∃ graph graph' : Graph, graph.declare call = .ok graph' := by
  induction calls generalizing arena with
  | nil => exact nomatch hcall
  | cons first calls ih =>
    rw [accepted] at hcall
    rcases h.after_cases first with ⟨hsucceeds, hsound, hdeclare⟩ | ⟨hfails, hsame, _⟩
    · rw [if_pos hsucceeds] at hcall
      rcases List.mem_cons.1 hcall with rfl | hcall
      · exact ⟨_, _, hdeclare⟩
      · exact ih hsound hcall
    · rw [if_neg (by simp [hfails]), hsame] at hcall
      exact ih h hcall

/-! ## Graphs under construction -/

/-- What holds of an arena whatever calls have been made on it. -/
structure Constructed (arena : Arena) : Prop extends Sound arena where
  key_ne : ∀ key ∈ arena.keys, key ≠ ""
  keys_nodup : arena.keys.Nodup
  start_once : arena.keys.count startKey = 1
  finish_once : arena.keys.count endKey = 1
  /-- Two edges never lead from one key to one other. -/
  apart : arena.edges.Pairwise fun a b => ¬(a.source = b.source ∧ a.target = b.target)
  source_ne : ∀ edge ∈ arena.edges, edge.source ≠ endKey
  target_ne : ∀ edge ∈ arena.edges, edge.target ≠ startKey
  /-- An edge fills a part of an input once. -/
  targets_nodup : ∀ edge ∈ arena.edges, (edge.mappings.map (·.target)).Nodup
  /-- The mappings of an edge read what its source makes. -/
  bound : ∀ edge ∈ arena.edges, ∀ mapping ∈ edge.mappings, mapping.node = edge.source

theorem constructed_build (input output : Ty) (calls : List Declaration) :
    (build input output calls).Constructed := by
  have hsound := sound_build input output calls
  have hwell := Graph.wellFormed_declared input output calls
  have hkeys := Graph.key_ne_of_mem_declared input output calls
  have htargets := Graph.nodup_targets_declared input output calls
  have hnodes := Graph.node_of_mem_declared input output calls
  rw [← graph_build] at hwell hkeys htargets hnodes
  rw [hsound.keys_eq] at hkeys
  have hnodup : (build input output calls).keys.Nodup := hsound.keys_eq ▸ hwell.keys
  have hstart : startKey ∈ (build input output calls).keys := by
    rw [← hsound.keys_eq]
    exact List.mem_cons_self
  have hend : endKey ∈ (build input output calls).keys := by
    rw [← hsound.keys_eq]
    exact List.mem_cons_of_mem _ List.mem_cons_self
  refine { hsound with
    key_ne := hkeys
    keys_nodup := hnodup
    start_once := List.count_eq_one_of_mem hnodup hstart
    finish_once := List.count_eq_one_of_mem hnodup hend
    apart := hwell.apart
    source_ne := hwell.source_ne
    target_ne := hwell.target_ne
    targets_nodup := fun edge hedge => ?_
    bound := fun edge hedge => ?_ }
  · rcases edge.mappings_cases with hplain | heffective
    · rw [hplain]
      exact .nil
    · exact heffective ▸ htargets edge hedge
  · rcases edge.mappings_cases with hplain | heffective
    · rw [hplain]
      exact nofun
    · exact heffective ▸ hnodes edge hedge

/-- A call succeeds where the graph admits what it declares. -/
theorem Sound.succeeds_iff (h : arena.Sound) (call : Declaration) :
    arena.succeeds call = true ↔ arena.graph.Admits call := by
  rw [← Graph.declare_isOk_iff]
  rcases h.after_cases call with ⟨hsucceeds, _, hdeclare⟩ | ⟨hfails, _, fault, hdeclare⟩
  · simp [hsucceeds, hdeclare]
  · simp [hfails, hdeclare]

/-- Whatever calls are made on a new graph, it keeps its invariant, and its nodes and edges
are those of the calls that succeeded, in their order.  A call succeeds where the graph
admits what it declares.  One that fails does so with a structural error and changes nothing.
The same declarations make the same graph where none of them writes. -/
theorem constructed (input output : Ty) (calls : List Declaration) :
    let arena := build input output calls
    let kept := accepted (new input output) calls
    arena.Constructed ∧
      arena.nodes = kept.filterMap Declaration.node? ∧
      arena.edges = kept.filterMap Declaration.edge? ∧
      (∀ source target mappings, .mapped source target mappings ∈ kept → mappings ≠ []) ∧
      (∀ call, arena.succeeds call = true ↔ arena.graph.Admits call) ∧
      (∀ call error arena', (perform call).run arena = .error error arena' →
        (∃ fault, error = .structural fault) ∧ arena' = arena) ∧
      arena.graph = Graph.declared input output calls := by
  intro arena kept
  have hnew := sound_new input output
  refine ⟨constructed_build input output calls,
    hnew.history Graph.nodes Declaration.node? (fun _ _ _ => Graph.nodes_declare) calls,
    hnew.history Graph.edges Declaration.edge? (fun _ _ _ => Graph.edges_declare) calls, ?_,
    (sound_build input output calls).succeeds_iff, ?_, graph_build input output calls⟩
  · intro source target mappings hmapped
    obtain ⟨_, _, hdeclare⟩ := hnew.exists_declare_of_mem hmapped
    exact (Graph.connectMapped_eq_ok hdeclare).1
  · intro call error arena' hcall
    have hsim := simulates_perform (sound_build input output calls) call
    change (perform call).run (build input output calls) = _ at hcall
    rw [hcall] at hsim
    exact hsim.of_error

end Arena

end Dataflow

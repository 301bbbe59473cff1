import Dataflow.Graph.Board
import Dataflow.Proofs.Arenas
import Dataflow.Proofs.Shape
import Mathlib.Data.List.Pairwise

/-!
# Graphs compiled in place

Compiling computes guards and assemblers in passes of their own and pairs them
with edges and slots by position.  An edge or a slot could get what belongs to
another one and the graph would still compile.  Here is why it does not: every
list is in the order of the places or of the edges, and the place of a key is
where the table says (`Arena.Sound`).

* `Arena.Sound.circuit_compile`: pairing by position gives the circuit that is made by key.
* `Board.Sound.wire?_circuit`, `Board.Sound.incoming_circuit`: looking up by place and by key
  agree.
* `Arena.compile_preserves`: a compiled graph is the declared one.
-/

namespace Dataflow

/-! ## Tables of positions -/

theorem indexes_ofList {keys : List String} (h : keys.Nodup) :
    Indexes (.ofList keys.zipIdx) keys := by
  induction keys using List.reverseRecOn with
  | nil => exact .empty
  | append_singleton keys key ih =>
    obtain ⟨hkeys, _, hnew⟩ := List.nodup_append.1 h
    have hkey : key ∉ keys := fun hmem => hnew key hmem key (List.mem_singleton_self key) rfl
    have hlast : Table.ofList (keys ++ [key]).zipIdx =
        (Table.ofList keys.zipIdx).insert key keys.length := by
      simp [Table.ofList, List.zipIdx_append]
    rw [hlast]
    exact (ih hkeys).insert hkey

namespace Arena

variable {arena : Arena}

/-! ## Roles and types by place -/

theorem inputOf_role (arena : Arena) (key : String) :
    arena.inputOf (arena.graph.role key) = arena.graph.inputType key := by
  unfold Graph.role Graph.inputType
  split
  · rfl
  · cases arena.graph.node? key with
    | some node => rfl
    | none => rfl

theorem outputOf_role (arena : Arena) (key : String) :
    arena.outputOf (arena.graph.role key) = arena.graph.outputType key := by
  unfold Graph.role Graph.outputType
  split
  · rfl
  · cases arena.graph.node? key with
    | some node => rfl
    | none => rfl

/-- What stands at a place is what the key there stands for. -/
theorem Sound.slots_eq (h : arena.Sound) (hwell : arena.graph.WellFormed) :
    arena.slots = arena.keys.map fun key => (key, arena.graph.role key) := by
  have hnode : ∀ entry ∈ arena.nodes, arena.graph.role entry.1 = .work entry.2 := by
    intro entry hentry
    exact Graph.role_of_node? (hwell.ne_startKey_of_mem (List.mem_map_of_mem hentry))
      (hwell.node?_of_mem hentry)
  rw [← h.keys_eq, Graph.keys, List.map_cons, List.map_cons, Graph.role_startKey,
    hwell.role_endKey, List.map_map]
  refine h.slots.trans (congrArg _ (congrArg _ (List.map_congr_left fun entry hentry => ?_)))
  rw [Function.comp_apply, hnode entry hentry]

section

variable (h : arena.Sound) (hwell : arena.graph.WellFormed) {place : Nat} {key : String}
  (hplace : arena.keys[place]? = some key)
include h hwell hplace

theorem Sound.slot_eq : arena.slots[place]? = some (key, arena.graph.role key) := by
  rw [h.slots_eq hwell, List.getElem?_map, hplace]
  rfl

theorem Sound.inputAt_eq : arena.inputAt place = arena.graph.inputType key := by
  rw [inputAt, h.slot_eq hwell hplace]
  exact inputOf_role arena key

theorem Sound.outputAt_eq : arena.outputAt place = arena.graph.outputType key := by
  rw [outputAt, h.slot_eq hwell hplace]
  exact outputOf_role arena key

end

/-! ## The passes -/

section

variable (h : arena.Sound) (hwell : arena.graph.WellFormed)
include h hwell

/-- The guards of an edge are those for the types of the keys it was declared with. -/
theorem Sound.plan_eq {link : Link Edge} (hlink : link ∈ arena.links) :
    arena.plan link = arena.graph.edgePlan link.content := by
  unfold plan Graph.edgePlan
  rw [h.outputAt_eq hwell (h.source link hlink), h.inputAt_eq hwell (h.target link hlink)]

theorem Sound.wire_eq {link : Link Edge} (hlink : link ∈ arena.links) :
    arena.graph.wire link.content =
      (fun body : Body => ⟨link.content.source, link.content.target, body.mappings, body.plan⟩) <$>
        arena.body link := by
  unfold Graph.wire body
  rw [h.plan_eq hwell hlink]
  cases arena.graph.edgePlan link.content with
  | error e => rfl
  | ok plan => rfl

theorem Sound.assemblers_eq (merges : MergeRegistry) :
    arena.assemblers merges = arena.keys.map fun key => ⟨arena.graph.inputType key, merges⟩ := by
  have hlength : arena.slots.length = arena.keys.length := (List.length_map _).symm
  refine List.ext_getElem (by simp [assemblers, hlength]) fun place hplace hplace' => ?_
  rw [List.length_map] at hplace'
  have hat := h.inputAt_eq hwell (List.getElem?_eq_getElem hplace')
  simp [assemblers, hat]

end

end Arena

/-! ## Reading a board -/

namespace Board

/-- Keys are different, and the edges connect places that have keys. -/
structure Sound (board : Board) : Prop where
  nodup : board.keys.Nodup
  source : ∀ link ∈ board.links, ∃ key, board.keys[link.source]? = some key
  target : ∀ link ∈ board.links, ∃ key, board.keys[link.target]? = some key

/-- The first edge whose keys are these. -/
def between (board : Board) (source target : String) : Option (Link Body) :=
  board.links.find? fun link =>
    (board.wire link).source = source && (board.wire link).target = target

variable {board : Board}

theorem Sound.indexes (h : board.Sound) : Indexes board.places board.keys :=
  indexes_ofList h.nodup

/-- Sorting the edges into a place by position puts them in order of declaration, in whatever
order they are found. -/
theorem mergeSort_of_perm {place : Nat} {found : List (Link Body × Nat)}
    (hperm : found.Perm (board.links.zipIdx.filter fun link => link.1.target = place)) :
    (found.mergeSort fun a b => decide (a.2 ≤ b.2)) =
      board.links.zipIdx.filter fun link => link.1.target = place := by
  have hsorted : (found.mergeSort fun a b => decide (a.2 ≤ b.2)).Pairwise
      fun a b => a.2 ≤ b.2 := by
    refine (List.pairwise_mergeSort (fun a b c hab hbc => ?_) (fun a b => ?_) _).imp
      of_decide_eq_true
    · exact decide_eq_true (Nat.le_trans (of_decide_eq_true hab) (of_decide_eq_true hbc))
    · simpa using Nat.le_total a.2 b.2
  have hids : (board.links.zipIdx.filter fun link => link.1.target = place).Pairwise
      fun a b => a.2 ≤ b.2 := by
    refine (List.pairwise_map.1 ?_).filter _
    rw [List.zipIdx_map_snd]
    exact List.pairwise_le_range' 1
  refine List.Perm.eq_of_pairwise ?_ hsorted hids ((List.mergeSort_perm _ _).trans hperm)
  -- Edges at one position are one edge.
  intro a b ha hb hab hba
  have ha := (List.mem_filter.1 (hperm.mem_iff.1 (List.mem_mergeSort.1 ha))).1
  have hb := (List.mem_filter.1 hb).1
  rw [List.mem_zipIdx_iff_getElem?] at ha hb
  have hid : a.2 = b.2 := Nat.le_antisymm hab hba
  exact Prod.ext (Option.some.inj (ha.symm.trans (hid ▸ hb))) hid

theorem incoming_eq (board : Board) (place : Nat) :
    board.incoming place = board.links.filter fun link => link.target = place := by
  have hlinks : board.links = board.links.zipIdx.map (·.1) := (List.zipIdx_map_fst 0 _).symm
  rw [incoming, directed, mergeSort_of_perm (List.reverse_perm _)]
  conv_rhs => rw [hlinks, List.filter_map]
  rfl

section

variable (h : board.Sound)
include h

theorem Sound.getD_eq_iff {place place' : Nat} {key : String}
    (hkey : ∃ key, board.keys[place]? = some key) (hplace : board.keys[place']? = some key) :
    board.keys.getD place "" = key ↔ place = place' := by
  obtain ⟨key', hkey'⟩ := hkey
  have hget : board.keys.getD place "" = key' := by
    rw [List.getD_eq_getElem?_getD, hkey']
    rfl
  rw [hget, h.indexes.place_eq_iff hkey' hplace]

theorem Sound.source_eq_iff {link : Link Body} (hlink : link ∈ board.links) {place : Nat}
    {key : String} (hplace : board.keys[place]? = some key) :
    (board.wire link).source = key ↔ link.source = place :=
  h.getD_eq_iff (h.source link hlink) hplace

theorem Sound.target_eq_iff {link : Link Body} (hlink : link ∈ board.links) {place : Nat}
    {key : String} (hplace : board.keys[place]? = some key) :
    (board.wire link).target = key ↔ link.target = place :=
  h.getD_eq_iff (h.target link hlink) hplace

/-- The edges into a place are the wires into its key. -/
theorem Sound.incoming_circuit {place : Nat} {key : String}
    (hplace : board.places.find? key = some place) :
    board.circuit.incoming key = (board.incoming place).map board.wire := by
  have hkey := (h.indexes key place).1 hplace
  rw [incoming_eq, Circuit.incoming]
  change (board.links.map board.wire).filter _ = _
  rw [List.filter_map]
  refine congrArg _ (List.filter_congr fun link hlink => ?_)
  simpa using h.target_eq_iff hlink hkey

theorem Sound.ends_of_between {source target : String} {link : Link Body}
    (hlink : board.between source target = some link) :
    (board.wire link).source = source ∧ (board.wire link).target = target ∧
      board.places.find? source = some link.source ∧
      board.places.find? target = some link.target := by
  obtain ⟨hmem, hsource, htarget⟩ := mem_and_eq_of_find? hlink
  obtain ⟨skey, hskey⟩ := h.source link hmem
  obtain ⟨tkey, htkey⟩ := h.target link hmem
  obtain rfl : skey = source := ((h.source_eq_iff hmem hskey).2 rfl).symm.trans hsource
  obtain rfl : tkey = target := ((h.target_eq_iff hmem htkey).2 rfl).symm.trans htarget
  exact ⟨hsource, htarget, (h.indexes _ _).2 hskey, (h.indexes _ _).2 htkey⟩

theorem Sound.edge?_eq (source target : String) :
    board.edge? source target = (board.between source target).map (·.content) := by
  unfold edge?
  cases hsource : board.places.find? source with
  | none =>
    cases hlink : board.between source target with
    | none => rfl
    | some link => exact nomatch hsource.symm.trans (h.ends_of_between hlink).2.2.1
  | some s =>
    cases htarget : board.places.find? target with
    | none =>
      cases hlink : board.between source target with
      | none => rfl
      | some link => exact nomatch htarget.symm.trans (h.ends_of_between hlink).2.2.2
    | some t =>
      have hs := (h.indexes _ _).1 hsource
      have ht := (h.indexes _ _).1 htarget
      have hplaces : (board.links.find? fun link => link.source = s && link.target = t) =
          board.between source target :=
        List.find?_congr fun link hlink => by
          simp [h.source_eq_iff hlink hs, h.target_eq_iff hlink ht]
      show (board.links.find? fun link => link.source = s && link.target = t).bind _ = _
      rw [hplaces]
      cases board.between source target with
      | none => rfl
      | some link => rfl

/-- The edge from one key to another is the wire between them. -/
theorem Sound.wire?_circuit (source target : String) :
    board.circuit.wire? source target = (board.edge? source target).map fun body =>
      ⟨source, target, body.mappings, body.plan⟩ := by
  have hwire : board.circuit.wire? source target =
      (board.between source target).map board.wire := List.find?_map
  rw [hwire, h.edge?_eq]
  cases hlink : board.between source target with
  | none => rfl
  | some link =>
    obtain ⟨rfl, rfl, _, _⟩ := h.ends_of_between hlink
    rfl

end

end Board

/-! ## Pairing by position -/

namespace Arena

section

variable {arena : Arena} {options : CompileOptions} {order : List String} {bodies : List Body}
  {board : Board}
  (hboard : arena.pair options order bodies (arena.assemblers options.merges) = board)
include hboard

/-- Each edge keeps its places and gets its own body. -/
theorem links_pair (hbodies : arena.links.mapM arena.body = .ok bodies) :
    List.Forall₂ (fun link paired => paired.source = link.source ∧
      paired.target = link.target ∧ arena.body link = .ok paired.content)
      arena.links board.links := by
  rw [← hboard]
  refine (forall₂_zipWith (forall₂_of_mapM_eq_ok hbodies) _).imp fun link paired hpaired => ?_
  obtain ⟨body, hbody, rfl⟩ := hpaired
  exact ⟨rfl, rfl, hbody⟩

variable (h : arena.Sound) (hwell : arena.graph.WellFormed)
include h hwell

/-- Each slot gets the assembler of its own key. -/
theorem Sound.stations_pair : board.stations = arena.keys.map (arena.graph.station options) := by
  rw [← hboard, pair, h.slots_eq hwell, h.assemblers_eq hwell, List.zipWith_map,
    List.zipWith_self]
  rfl

theorem Sound.keys_pair : board.keys = arena.keys := by
  rw [Board.keys, h.stations_pair hboard hwell, List.map_map]
  exact List.map_id _

theorem Sound.sound_pair (hbodies : arena.links.mapM arena.body = .ok bodies) :
    board.Sound := by
  have hkeys := h.keys_pair hboard hwell
  have hlinks := links_pair hboard hbodies
  refine ⟨?_, fun paired hpaired => ?_, fun paired hpaired => ?_⟩
  · rw [hkeys, ← h.keys_eq]
    exact hwell.keys
  · obtain ⟨link, hlink, hsource, _⟩ := exists_left_of_forall₂ hlinks hpaired
    exact ⟨_, by rw [hkeys, hsource, h.source link hlink]⟩
  · obtain ⟨link, hlink, _, htarget, _⟩ := exists_left_of_forall₂ hlinks hpaired
    exact ⟨_, by rw [hkeys, htarget, h.target link hlink]⟩

/-- Each edge leads from where it was declared to where it was declared. -/
theorem Sound.wires_pair :
    board.links.map board.wire =
      List.zipWith (fun link body =>
        ⟨link.content.source, link.content.target, body.mappings, body.plan⟩)
        arena.links bodies := by
  have hlinks : board.links =
      List.zipWith (fun link body => ⟨link.source, link.target, body⟩) arena.links bodies := by
    rw [← hboard]
    rfl
  have hwire : ∀ link ∈ arena.links, ∀ body, board.wire ⟨link.source, link.target, body⟩ =
      ⟨link.content.source, link.content.target, body.mappings, body.plan⟩ := by
    intro link hlink body
    simp [Board.wire, h.keys_pair hboard hwell, h.source link hlink, h.target link hlink]
  rw [hlinks, List.map_zipWith, ← List.map_uncurry_zip_eq_zipWith,
    ← List.map_uncurry_zip_eq_zipWith]
  exact List.map_congr_left fun pair hpair => hwire pair.1 (List.of_mem_zip hpair).1 pair.2

/-- The stations in execution order are those of the keys in that order. -/
theorem Sound.order_pair (horder : ∀ key ∈ order, key ∈ arena.keys) :
    board.order.filterMap (board.stations[·]?) = order.map (arena.graph.station options) := by
  have hplaces : board.order = order.filterMap arena.places.find? := by
    rw [← hboard]
    rfl
  rw [hplaces, List.filterMap_filterMap, ← List.filterMap_eq_map]
  refine List.filterMap_congr fun key hkey => ?_
  obtain ⟨place, hplace⟩ := List.mem_iff_getElem?.1 (horder key hkey)
  rw [(h.indexes _ _).2 hplace, Option.bind_some, h.stations_pair hboard hwell, List.getElem?_map,
    hplace]
  rfl

theorem Sound.circuit_pair (horder : ∀ key ∈ order, key ∈ arena.keys) :
    board.circuit = ⟨arena.input, arena.output, order.map (arena.graph.station options),
      List.zipWith (fun link body =>
        ⟨link.content.source, link.content.target, body.mappings, body.plan⟩)
        arena.links bodies, options⟩ := by
  rw [Board.circuit, h.order_pair hboard hwell horder, h.wires_pair hboard hwell, ← hboard]
  rfl

end

/-- Pairing by position makes the circuit that is made by key. -/
theorem Sound.circuit_compile {arena : Arena} (h : arena.Sound) (hwell : arena.graph.WellFormed)
    (options : CompileOptions) :
    Board.circuit <$> arena.compile options = arena.graph.compile options := by
  have hwires : arena.graph.edges.mapM arena.graph.wire =
      List.zipWith (fun link body =>
        ⟨link.content.source, link.content.target, body.mappings, body.plan⟩) arena.links <$>
        arena.links.mapM arena.body :=
    mapM_eq_zipWith fun link hlink => h.wire_eq hwell hlink
  unfold compile Graph.compile
  rw [h.keys_eq, hwires]
  cases horder : arena.graph.executionOrder options with
  | error e => rfl
  | ok order =>
    have hkeys : ∀ key ∈ order, key ∈ arena.keys := fun key hkey =>
      h.keys_eq ▸ (Graph.placed_of_executionOrder hwell horder).1.mem_iff.1 hkey
    cases arena.keys.forM (arena.graph.checkNode options) with
    | error e => rfl
    | ok _ =>
      cases arena.links.mapM arena.body with
      | error e => rfl
      | ok bodies =>
        exact congrArg Except.ok (h.circuit_pair rfl hwell hkeys)

end Arena

/-! ## Wires by their keys -/

namespace Graph

variable {graph : Graph} {options : CompileOptions} {circuit : Circuit}

/-- No other edge connects the same keys. -/
theorem WellFormed.find?_edge (hgraph : graph.WellFormed) {edge : Edge}
    (hedge : edge ∈ graph.edges) :
    (graph.edges.find? fun e => e.source = edge.source && e.target = edge.target) =
      some edge := by
  cases hfind : graph.edges.find? fun e => e.source = edge.source && e.target = edge.target with
  | none => simpa using List.find?_eq_none.1 hfind edge hedge
  | some other =>
    obtain ⟨hmem, hends⟩ := mem_and_eq_of_find? hfind
    have hsymm : Std.Symm fun a b : Edge => ¬(a.source = b.source ∧ a.target = b.target) :=
      ⟨fun _ _ hapart hends => hapart ⟨hends.1.symm, hends.2.symm⟩⟩
    by_contra hne
    exact hgraph.apart.forall hmem hedge (fun heq => hne (congrArg some heq)) hends

/-- The wire between the ends of an edge is made of that edge. -/
theorem WellFormed.exists_wire? (hgraph : graph.WellFormed)
    (h : graph.compile options = .ok circuit) {edge : Edge} (hedge : edge ∈ graph.edges) :
    ∃ wire, circuit.wire? edge.source edge.target = some wire ∧ graph.wire edge = .ok wire := by
  refine exists_find?_of_forall₂ (wires_of_compile h) (fun other wire hwire => ?_)
    (hgraph.find?_edge hedge)
  have hof := wireOf_of_wire hwire
  rw [hof.source, hof.target]

end Graph

/-! ## The declared graph, compiled -/

/-- A compiled graph that is the declared one: the same edges with the same mappings and the
guards for their own types, and the same nodes, each with an assembler for its own input. -/
structure Board.Preserves (board : Board) (graph : Graph) (options : CompileOptions) : Prop where
  /-- There is an edge just where one was declared. -/
  leads : ∀ source target, (board.edge? source target).isSome = true ↔ graph.Leads source target
  /-- A plain edge passes the whole output on as the whole input. -/
  plain : ∀ edge ∈ graph.edges, edge.mappings = [] →
    ∃ guard, Mapping.checkWhole edge.source (graph.outputType edge.source)
        (graph.inputType edge.target) = .ok guard ∧
      board.edge? edge.source edge.target =
        some ⟨[{ node := edge.source }], guard.map GuardPlan.empty.insert⟩
  /-- An edge with mappings has those mappings and their guards. -/
  mapped : ∀ edge ∈ graph.edges, edge.mappings ≠ [] →
    ∃ plan, Mapping.check (graph.outputType edge.source) (graph.inputType edge.target)
        edge.mappings = .ok plan ∧
      board.edge? edge.source edge.target = some ⟨edge.mappings, plan⟩
  keys : ∀ key, (board.station? key).isSome = true ↔ key ∈ graph.keys
  /-- The start has no node and takes the graph's input. -/
  start : board.station? startKey = some ⟨startKey, .start, ⟨graph.input, options.merges⟩⟩
  /-- The end has no node and takes the graph's output. -/
  finish : board.station? endKey = some ⟨endKey, .finish, ⟨graph.output, options.merges⟩⟩
  /-- Every other key has the node that was declared under it. -/
  work : ∀ entry ∈ graph.nodes, board.station? entry.1 =
    some ⟨entry.1, .work entry.2, ⟨entry.2.input, options.merges⟩⟩
  /-- The edges into a node stand in the order in which they were declared. -/
  incoming : ∀ key place, board.places.find? key = some place →
    List.Forall₂ (fun edge link => (board.wire link).source = edge.source ∧
      board.edge? edge.source key = some link.content) (graph.incoming key) (board.incoming place)

/-- A board and a circuit that give the same answers by key. -/
structure Board.Shows (board : Board) (circuit : Circuit) : Prop where
  wire? : ∀ source target, circuit.wire? source target =
    (board.edge? source target).map fun body => ⟨source, target, body.mappings, body.plan⟩
  station? : ∀ key, circuit.stations.find? (·.key = key) = board.station? key
  incoming : ∀ key place, board.places.find? key = some place →
    circuit.incoming key = (board.incoming place).map board.wire

namespace Arena

variable {arena : Arena} {options : CompileOptions} {board : Board}
  (h : arena.Sound) (hwell : arena.graph.WellFormed) (hboard : arena.compile options = .ok board)
include h hwell hboard

theorem Sound.board_sound : board.Sound ∧
    board.stations = arena.graph.keys.map (arena.graph.station options) := by
  obtain ⟨order, _, hboard⟩ := bind_eq_ok hboard
  obtain ⟨_, _, hboard⟩ := bind_eq_ok hboard
  obtain ⟨bodies, hbodies, hboard⟩ := bind_eq_ok hboard
  have hpair := Except.ok.inj hboard
  exact ⟨h.sound_pair hpair hwell hbodies, h.keys_eq ▸ h.stations_pair hpair hwell⟩

theorem Sound.compile_graph : arena.graph.compile options = .ok board.circuit := by
  rw [← h.circuit_compile hwell options, hboard]
  rfl

/-- The station under a key is the one that is made of the key. -/
theorem Sound.station?_eq (key : String) : board.station? key =
    if key ∈ arena.graph.keys then some (arena.graph.station options key) else none := by
  obtain ⟨hsound, hstations⟩ := h.board_sound hwell hboard
  have hkeys : board.keys = arena.graph.keys := by
    rw [Board.keys, hstations, List.map_map]
    exact List.map_id _
  have hindexes := hkeys ▸ hsound.indexes
  show (board.places.find? key).bind (board.stations[·]?) = _
  cases hplace : board.places.find? key with
  | none =>
    rw [if_neg fun hkey => ?_]
    · rfl
    · have hsome := (hindexes.isSome_find? key).2 hkey
      rw [hplace] at hsome
      exact nomatch hsome
  | some place =>
    have hkey := (hindexes key place).1 hplace
    rw [if_pos (List.mem_of_getElem? hkey), Option.bind_some, hstations, List.getElem?_map, hkey]
    rfl

theorem Sound.station?_of_mem {key : String} (hkey : key ∈ arena.graph.keys) :
    board.station? key = some (arena.graph.station options key) := by
  rw [h.station?_eq hwell hboard, if_pos hkey]

theorem Sound.shows : board.Shows board.circuit := by
  have hcompiled := Graph.compiled_of_compile hwell (h.compile_graph hwell hboard)
  have hsound := (h.board_sound hwell hboard).1
  refine ⟨hsound.wire?_circuit, fun key => ?_, fun _ _ => hsound.incoming_circuit⟩
  rw [h.station?_eq hwell hboard]
  cases hfind : board.circuit.stations.find? (·.key = key) with
  | none =>
    rw [if_neg fun hkey => ?_]
    simpa [Graph.station] using List.find?_eq_none.1 hfind _ (hcompiled.station_mem hkey)
  | some station =>
    have hmem := List.mem_of_find?_eq_some hfind
    have hkey : station.key = key := by simpa using List.find?_some hfind
    rw [← hkey, if_pos (hcompiled.key_mem hmem)]
    exact congrArg some (hcompiled.station_eq hmem)

/-- The edge between the ends of a declared one has its mappings and its guards. -/
theorem Sound.exists_edge? {edge : Edge} (hedge : edge ∈ arena.graph.edges) :
    ∃ plan, arena.graph.edgePlan edge = .ok plan ∧
      board.edge? edge.source edge.target = some ⟨edge.effectiveMappings, plan⟩ := by
  obtain ⟨wire, hfind, hwire⟩ := hwell.exists_wire? (h.compile_graph hwell hboard) hedge
  obtain ⟨plan, hplan, hwire⟩ := bind_eq_ok hwire
  obtain rfl := Except.ok.inj hwire
  rw [(h.board_sound hwell hboard).1.wire?_circuit] at hfind
  obtain ⟨body, hbody, heq⟩ := Option.map_eq_some_iff.1 hfind
  obtain ⟨_, _, hmappings, hplan'⟩ := Wire.mk.inj heq
  refine ⟨plan, hplan, hbody.trans ?_⟩
  rw [← hmappings, ← hplan']

theorem Sound.isSome_edge?_iff (source target : String) :
    (board.edge? source target).isSome = true ↔ arena.graph.Leads source target := by
  have hcompiled := Graph.compiled_of_compile hwell (h.compile_graph hwell hboard)
  constructor
  · intro hsome
    have hwire : (board.circuit.wire? source target).isSome = true := by
      rwa [(h.board_sound hwell hboard).1.wire?_circuit, Option.isSome_map]
    obtain ⟨wire, hfind⟩ := Option.isSome_iff_exists.1 hwire
    obtain ⟨hmem, hsource, htarget⟩ := mem_and_eq_of_find? hfind
    obtain ⟨edge, hedge, hof⟩ := hcompiled.exists_edge hmem
    exact ⟨edge, hedge, hof.source ▸ hsource, hof.target ▸ htarget⟩
  · rintro ⟨edge, hedge, rfl, rfl⟩
    obtain ⟨plan, _, hfind⟩ := h.exists_edge? hwell hboard hedge
    rw [hfind]
    rfl

/-- The edges into a place are those into its key, in the same order. -/
theorem Sound.forall₂_incoming {key : String} {place : Nat}
    (hplace : board.places.find? key = some place) :
    List.Forall₂ (fun edge link => (board.wire link).source = edge.source ∧
      board.edge? edge.source key = some link.content)
      (arena.graph.incoming key) (board.incoming place) := by
  have hgraph := h.compile_graph hwell hboard
  have hincoming := Graph.forall₂_incoming (Graph.wires_of_compile hgraph)
    (fun _ _ hwire => (Graph.wireOf_of_wire hwire).target) key
  rw [(h.board_sound hwell hboard).1.incoming_circuit hplace,
    List.forall₂_map_right_iff] at hincoming
  have hedges : ∀ edge ∈ arena.graph.incoming key, edge ∈ arena.graph.edges ∧ edge.target = key :=
    fun edge hedge => by simpa [Graph.incoming] using hedge
  refine ((List.forall₂_and_left _ _).2 ⟨hedges, hincoming⟩).imp fun edge link hpair => ?_
  obtain ⟨⟨hedge, rfl⟩, hwire⟩ := hpair
  obtain ⟨plan, hplan, hfind⟩ := h.exists_edge? hwell hboard hedge
  obtain ⟨plan', hplan', hwire⟩ := bind_eq_ok hwire
  obtain rfl := Except.ok.inj (hplan.symm.trans hplan')
  obtain ⟨hsource, _, hmappings, hplan⟩ := Wire.mk.inj (Except.ok.inj hwire)
  refine ⟨hsource.symm, hfind.trans ?_⟩
  rw [hmappings, hplan]

theorem Sound.preserves : board.Preserves arena.graph options where
  leads := h.isSome_edge?_iff hwell hboard
  plain edge hedge hplain := by
    obtain ⟨plan, hplan, hfind⟩ := h.exists_edge? hwell hboard hedge
    have hisPlain : edge.isPlain = true := by rw [Edge.isPlain, hplain]; rfl
    rw [Graph.edgePlan, if_pos hisPlain] at hplan
    obtain ⟨guard, hguard, hplan⟩ := bind_eq_ok hplan
    obtain rfl := Except.ok.inj hplan
    rw [Edge.effectiveMappings, if_pos hisPlain] at hfind
    exact ⟨guard, hguard, hfind⟩
  mapped edge hedge hmapped := by
    obtain ⟨plan, hplan, hfind⟩ := h.exists_edge? hwell hboard hedge
    have hisPlain : ¬edge.isPlain = true := by simpa [Edge.isPlain] using hmapped
    rw [Graph.edgePlan, if_neg hisPlain] at hplan
    rw [Edge.effectiveMappings, if_neg hisPlain] at hfind
    exact ⟨plan, hplan, hfind⟩
  keys key := by
    rw [h.station?_eq hwell hboard]
    by_cases hkey : key ∈ arena.graph.keys
    · simp [hkey]
    · simp [hkey]
  start := by
    rw [h.station?_of_mem hwell hboard List.mem_cons_self, Graph.station, Graph.role_startKey]
    rfl
  finish := by
    rw [h.station?_of_mem hwell hboard (List.mem_cons_of_mem _ List.mem_cons_self), Graph.station,
      hwell.role_endKey, hwell.inputType_endKey]
  work entry hentry := by
    have hkey : entry.1 ∈ arena.graph.nodes.map (·.1) := List.mem_map_of_mem hentry
    rw [h.station?_of_mem hwell hboard (List.mem_cons_of_mem _ (List.mem_cons_of_mem _ hkey)),
      Graph.station, hwell.inputType_of_mem hentry,
      Graph.role_of_node? (hwell.ne_startKey_of_mem hkey) (hwell.node?_of_mem hentry)]
  incoming _ _ := h.forall₂_incoming hwell hboard

end Arena

/-- A graph that compiles has been compiled into what was declared.  Guards and assemblers that
are found in passes of their own and paired by position are those of their own edges and
keys, and the circuit that runs has the same. -/
theorem Arena.compile_preserves {input output : Ty} {calls : List Declaration} {graph : Graph}
    {options : CompileOptions} {circuit : Circuit}
    (hgraph : Graph.declared input output calls = graph)
    (h : graph.compile options = .ok circuit) :
    ∃ board, (Arena.build input output calls).compile options = .ok board ∧
      board.Preserves graph options ∧ board.circuit = circuit ∧ board.Shows circuit := by
  have hsound := Arena.sound_build input output calls
  have hwell := Graph.wellFormed_declared input output calls
  rw [← Arena.graph_build] at hwell hgraph
  subst hgraph
  rw [← hsound.circuit_compile hwell options] at h
  obtain ⟨board, hboard, rfl⟩ := map_eq_ok h
  exact ⟨board, hboard, hsound.preserves hwell hboard, rfl, hsound.shows hwell hboard⟩

/-- A graph with plain and mapped edges, some of them guarded, is compiled into what was
declared. -/
theorem Arena.joining_preserved : ∃ (circuit : Circuit) (board : Board),
    Graph.joining.compile {} = .ok circuit ∧
    board.Preserves Graph.joining {} ∧ board.circuit = circuit ∧ board.Shows circuit := by
  obtain ⟨circuit, h⟩ := Graph.exists_compile_joining
  obtain ⟨board, _, hpreserves, hcircuit, hshows⟩ := Arena.compile_preserves rfl h
  exact ⟨circuit, board, h, hpreserves, hcircuit, hshows⟩

end Dataflow

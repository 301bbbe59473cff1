import Dataflow.Circuit.Invoke
import Dataflow.Proofs.Stations

/-!
# Runs

A run with a note of every call of a node, and what is true of all of its calls.
The note is made beside the run and does not change it (`note_snd`).

* `Circuit.keys_calls`: the nodes are called in execution order, each once at
  most, and all of them when the run succeeds.
* `Graph.Compiled.outcome_invoke`: a property of the values that stations take
  and make holds throughout a run when each single step keeps it (`Flow`), and a
  run fails only as a step can fail or as the node fails that it called last.
-/

namespace Dataflow

/-! ## Calls -/

/-- A node that is called with an input. -/
structure Call where
  key : String
  node : Node
  input : Value

namespace Circuit

/-- Runs one station and notes the call of its node. -/
def noteStation (circuit : Circuit) (outputs : Table Value) (station : Station) :
    List Call × Except Error (Table Value) :=
  match station.role with
  | .work node =>
    match circuit.stationInput outputs station with
    | .error e => ([], .error e)
    | .ok input => ([⟨station.key, node, input⟩], (node.run input).map (outputs.insert station.key))
  | _ => ([], circuit.runStation outputs station)

/-- Runs some stations one after the other and notes the calls. -/
def note (circuit : Circuit) : List Station → Table Value → List Call × Except Error (Table Value)
  | [], outputs => ([], .ok outputs)
  | station :: rest, outputs =>
    match circuit.noteStation outputs station with
    | (calls, .error e) => (calls, .error e)
    | (calls, .ok outputs') =>
      (calls ++ (note circuit rest outputs').1, (note circuit rest outputs').2)

/-- The calls of a run, in their order. -/
def calls (circuit : Circuit) (input : Value) : List Call :=
  match circuit.inputGuard.check input with
  | .error _ => []
  | .ok input => (circuit.note circuit.stations (Table.empty.insert startKey input)).1

variable {circuit : Circuit}

theorem noteStation_snd (outputs : Table Value) (station : Station) :
    (circuit.noteStation outputs station).2 = circuit.runStation outputs station := by
  unfold noteStation runStation
  cases station.role with
  | work node =>
    dsimp only
    cases circuit.stationInput outputs station with
    | error e => rfl
    | ok input =>
      show (node.run input).map _ = (node.run input >>= fun output => _)
      cases node.run input <;> rfl
  | _ => rfl

/-- Taking notes changes nothing. -/
theorem note_snd (stations : List Station) (outputs : Table Value) :
    (circuit.note stations outputs).2 = stations.foldlM circuit.runStation outputs := by
  induction stations generalizing outputs with
  | nil => rfl
  | cons station rest ih =>
    rw [List.foldlM_cons, note, ← noteStation_snd]
    obtain ⟨calls, result⟩ := circuit.noteStation outputs station
    cases result with
    | error e => rfl
    | ok outputs' => exact ih outputs'

/-- All that can come of one station. -/
inductive Step (circuit : Circuit) (outputs : Table Value) (station : Station) :
    List Call → Except Error (Table Value) → Prop
  /-- There is no input. -/
  | refused (e : Error) : Step circuit outputs station [] (.error e)
  /-- There is no node to call. -/
  | idle (hrole : ∀ node, station.role ≠ .work node) (outputs' : Table Value) :
      Step circuit outputs station [] (.ok outputs')
  /-- The node fails. -/
  | failed {node : Node} {input : Value} {e : Error} (hrole : station.role = .work node)
      (hrun : node.run input = .error e) :
      Step circuit outputs station [⟨station.key, node, input⟩] (.error e)
  /-- The node makes something. -/
  | made {node : Node} {input output : Value} (hrole : station.role = .work node)
      (hrun : node.run input = .ok output) :
      Step circuit outputs station [⟨station.key, node, input⟩]
        (.ok (outputs.insert station.key output))

theorem step_noteStation (circuit : Circuit) (outputs : Table Value) (station : Station) :
    Step circuit outputs station (circuit.noteStation outputs station).1
      (circuit.noteStation outputs station).2 := by
  unfold noteStation
  cases hrole : station.role with
  | work node =>
    dsimp only
    cases circuit.stationInput outputs station with
    | error e => exact .refused e
    | ok input =>
      cases hrun : node.run input with
      | error e =>
        dsimp only
        rw [hrun]
        exact .failed hrole hrun
      | ok output =>
        dsimp only
        rw [hrun]
        exact .made hrole hrun
  | _ =>
    dsimp only
    cases circuit.runStation outputs station with
    | error e => exact .refused e
    | ok outputs' => exact .idle (by simp [hrole]) outputs'

/-! ## Who is called -/

/-- The keys of the stations that work, in execution order. -/
def workers (stations : List Station) : List String :=
  stations.filterMap fun station =>
    match station.role with
    | .work _ => some station.key
    | _ => none

theorem workers_cons_of_idle {station : Station} {rest : List Station}
    (h : ∀ node, station.role ≠ .work node) : workers (station :: rest) = workers rest := by
  unfold workers
  rw [List.filterMap_cons]
  cases hrole : station.role with
  | work node => exact absurd hrole (h node)
  | _ => rfl

theorem workers_cons_of_work {station : Station} {rest : List Station} {node : Node}
    (h : station.role = .work node) :
    workers (station :: rest) = station.key :: workers rest := by
  unfold workers
  rw [List.filterMap_cons, h]

theorem keys_note (circuit : Circuit) (stations : List Station) (outputs : Table Value) :
    (circuit.note stations outputs).1.map (·.key) <+: workers stations ∧
      ∀ outputs', (circuit.note stations outputs).2 = .ok outputs' →
        (circuit.note stations outputs).1.map (·.key) = workers stations := by
  induction stations generalizing outputs with
  | nil => exact ⟨List.prefix_rfl, fun _ _ => rfl⟩
  | cons station rest ih =>
    have hstep := step_noteStation circuit outputs station
    rw [note]
    revert hstep
    obtain ⟨calls, result⟩ := circuit.noteStation outputs station
    intro hstep
    cases hstep with
    | refused e => exact ⟨List.nil_prefix, nofun⟩
    | idle hrole outputs' =>
      rw [workers_cons_of_idle hrole]
      exact ih outputs'
    | failed hrole hrun =>
      rw [workers_cons_of_work hrole]
      exact ⟨(List.prefix_cons_inj _).2 List.nil_prefix, nofun⟩
    | @made node input output hrole hrun =>
      rw [workers_cons_of_work hrole]
      obtain ⟨hbegins, hall⟩ := ih (outputs.insert station.key output)
      refine ⟨(List.prefix_cons_inj _).2 hbegins, fun final hfinal => ?_⟩
      exact congrArg (station.key :: ·) (hall final hfinal)

/-- A run goes on after a call only if the node has made something. -/
theorem ok_of_mem_dropLast_note (stations : List Station) (outputs : Table Value) :
    (∀ call ∈ (circuit.note stations outputs).1.dropLast,
        ∃ output, call.node.run call.input = .ok output) ∧
      ∀ outputs', (circuit.note stations outputs).2 = .ok outputs' →
        ∀ call ∈ (circuit.note stations outputs).1,
          ∃ output, call.node.run call.input = .ok output := by
  induction stations generalizing outputs with
  | nil => exact ⟨nofun, nofun⟩
  | cons station rest ih =>
    have hstep := step_noteStation circuit outputs station
    rw [note]
    revert hstep
    obtain ⟨calls, result⟩ := circuit.noteStation outputs station
    intro hstep
    cases hstep with
    | refused e => exact ⟨nofun, nofun⟩
    | idle hrole outputs' => exact ih outputs'
    | failed hrole hrun => exact ⟨nofun, nofun⟩
    | @made node input output hrole hrun =>
      obtain ⟨hlast, hall⟩ := ih (outputs.insert station.key output)
      refine ⟨fun call hcall => ?_, fun final hfinal call hcall => ?_⟩
      · dsimp only at hcall
        rw [List.dropLast_append] at hcall
        split at hcall
        · exact nomatch hcall
        · rcases List.mem_cons.1 hcall with rfl | hmem
          · exact ⟨output, hrun⟩
          · exact hlast call hmem
      · rcases List.mem_cons.1 hcall with rfl | hmem
        · exact ⟨output, hrun⟩
        · exact hall final hfinal call hmem

/-- A call is that of a station that works. -/
theorem exists_station_of_mem_note {stations : List Station} {outputs : Table Value} {call : Call}
    (hcall : call ∈ (circuit.note stations outputs).1) :
    ∃ station ∈ stations, station.key = call.key ∧ station.role = .work call.node := by
  induction stations generalizing outputs with
  | nil => exact nomatch hcall
  | cons station rest ih =>
    have hstep := step_noteStation circuit outputs station
    have hrest : ∀ outputs', call ∈ (circuit.note rest outputs').1 →
        ∃ s ∈ station :: rest, s.key = call.key ∧ s.role = .work call.node := by
      intro outputs' hmem
      obtain ⟨s, hs, hof⟩ := ih hmem
      exact ⟨s, List.mem_cons_of_mem _ hs, hof⟩
    rw [note] at hcall
    revert hcall hstep
    obtain ⟨calls, result⟩ := circuit.noteStation outputs station
    intro hcall hstep
    cases hstep with
    | refused e => exact nomatch hcall
    | idle hrole outputs' => exact hrest outputs' hcall
    | failed hrole hrun =>
      obtain rfl := List.mem_singleton.1 hcall
      exact ⟨station, List.mem_cons_self, rfl, hrole⟩
    | made hrole hrun =>
      rcases List.mem_cons.1 hcall with rfl | hmem
      · exact ⟨station, List.mem_cons_self, rfl, hrole⟩
      · exact hrest _ hmem

/-- The nodes are called in execution order, each once at most, and all of them
when the run succeeds. -/
theorem keys_calls (circuit : Circuit) (value : Value) :
    (circuit.calls value).map (·.key) <+: workers circuit.stations ∧
      ∀ output, circuit.invoke value = .ok output →
        (circuit.calls value).map (·.key) = workers circuit.stations := by
  unfold calls invoke
  cases circuit.inputGuard.check value with
  | error e => exact ⟨List.nil_prefix, nofun⟩
  | ok input =>
    obtain ⟨hbegins, hall⟩ :=
      keys_note circuit circuit.stations (Table.empty.insert startKey input)
    refine ⟨hbegins, fun output houtput => ?_⟩
    obtain ⟨outputs, hrun, _⟩ := bind_eq_ok (x := circuit.runStations input) houtput
    exact hall outputs ((note_snd _ _).trans hrun)

theorem ok_of_mem_dropLast_calls {value : Value} :
    ∀ call ∈ (circuit.calls value).dropLast, ∃ output, call.node.run call.input = .ok output := by
  unfold calls
  split
  · exact nofun
  · exact (ok_of_mem_dropLast_note _ _).1

theorem exists_station_of_mem_calls {value : Value} {call : Call}
    (hcall : call ∈ circuit.calls value) :
    ∃ station ∈ circuit.stations, station.key = call.key ∧ station.role = .work call.node := by
  unfold calls at hcall
  split at hcall
  · exact nomatch hcall
  · exact exists_station_of_mem_note hcall

/-! ## What flows -/

/-- What a step keeps: `made` is a property of what stations make, and `taken` of
what they take.  Everything else that can go wrong is permitted. -/
structure Flow (circuit : Circuit) (permitted : Error → Prop)
    (made taken : String → Value → Prop) : Prop where
  contributed : ∀ wire ∈ circuit.wires, ∀ output, made wire.source output →
    Outcome permitted (fun _ => True) (wire.apply output)
  assembled : ∀ station ∈ circuit.stations, station.key ≠ startKey → ∀ contributions,
    (∀ fields ∈ contributions, ∃ wire ∈ circuit.incoming station.key, ∃ output,
      made wire.source output ∧ wire.apply output = .ok fields) →
    Outcome permitted (taken station.key) (station.assembler.assemble (gather contributions))
  worked : ∀ station ∈ circuit.stations, ∀ node, station.role = .work node →
    ∀ input, taken station.key input → ∀ output, node.run input = .ok output →
      made station.key output
  finished : ∀ station ∈ circuit.stations, station.role = .finish →
    ∀ input, taken station.key input → made station.key input

/-- The stations that have made something, the start included, and all that they
have made is as it should be. -/
def Made (made : String → Value → Prop) (before : List Station) (outputs : Table Value) : Prop :=
  ∀ key, key = startKey ∨ key ∈ before.map (·.key) →
    ∃ output, outputs.find? key = some output ∧ made key output

/-- A call that failed, as the error of a run. -/
def FailedLast (calls : List Call) (e : Error) : Prop :=
  ∃ call, calls.getLast? = some call ∧ call.node.run call.input = .error e

variable {permitted : Error → Prop} {made taken : String → Value → Prop}

theorem Made.insert {before : List Station} {station : Station} {outputs : Table Value}
    {output : Value} (h : Made made before outputs) (houtput : made station.key output) :
    Made made (before ++ [station]) (outputs.insert station.key output) := by
  intro key hkey
  rw [Table.find?_insert]
  by_cases heq : key = station.key
  · exact ⟨output, if_pos heq, heq ▸ houtput⟩
  · rw [if_neg heq]
    exact h key (hkey.imp_right fun hmem => (mem_keys_concat.1 hmem).resolve_right heq)

end Circuit

/-! ## The called nodes of compiled graphs -/

namespace Graph.Compiled

open Circuit

variable {graph : Graph} {options : CompileOptions} {circuit : Circuit}
  (h : graph.Compiled options circuit)
include h

/-- Among declared nodes and the end all but the end work. -/
theorem workers_map_station {declared : List String}
    (hdeclared : ∀ key ∈ declared, key ∈ graph.nodes.map (·.1)) :
    workers ((declared ++ [endKey]).map (graph.station options)) = declared := by
  induction declared with
  | nil =>
    refine workers_cons_of_idle fun node => ?_
    show graph.role endKey ≠ .work node
    rw [h.wellFormed.role_endKey]
    nofun
  | cons key rest ih =>
    obtain ⟨hkey, hrest⟩ := List.forall_mem_cons.1 hdeclared
    obtain ⟨node, hnode⟩ := exists_node?_of_mem hkey
    have hrole := role_of_node? (h.wellFormed.ne_startKey_of_mem hkey) hnode
    rw [List.cons_append, List.map_cons, workers_cons_of_work hrole, ih hrest]
    rfl

/-- The stations that work are those between the start and the end. -/
theorem order_eq_workers :
    circuit.order = startKey :: (workers circuit.stations ++ [endKey]) ∧
      (workers circuit.stations).Perm (graph.nodes.map (·.1)) := by
  obtain ⟨middle, horder, hperm⟩ := h.order_eq
  have hidle : ∀ node, (graph.station options startKey).role ≠ .work node := by
    intro node
    show graph.role startKey ≠ .work node
    rw [role_startKey]
    nofun
  have hmiddle := h.workers_map_station fun key hkey => hperm.mem_iff.1 hkey
  rw [h.stations_eq, horder, List.map_cons, workers_cons_of_idle hidle, hmiddle]
  exact ⟨rfl, hperm⟩

/-- A called node is a declared one. -/
theorem mem_nodes_of_mem_calls {value : Value} {call : Call}
    (hcall : call ∈ circuit.calls value) : (call.key, call.node) ∈ graph.nodes := by
  obtain ⟨station, hstation, hkey, hrole⟩ := exists_station_of_mem_calls hcall
  rw [h.role_eq hstation, hkey] at hrole
  exact mem_nodes_of_node? (node?_of_role hrole)

theorem calls_nodup (value : Value) : ((circuit.calls value).map (·.key)).Nodup := by
  have hnodup := h.order_nodup
  rw [h.order_eq_workers.1, List.nodup_cons] at hnodup
  exact ((List.nodup_append.1 hnodup.2).1).sublist (keys_calls circuit value).1.sublist

/-- A node is called after its predecessors. -/
theorem called_before {value : Value} {before after : List Call} {call : Call}
    (hcalls : circuit.calls value = before ++ call :: after) {source : String}
    (hleads : graph.Leads source call.key) :
    source = startKey ∨ source ∈ before.map (·.key) := by
  obtain ⟨edge, hedge, rfl, htarget⟩ := hleads
  obtain ⟨rest, hrest⟩ := (keys_calls circuit value).1
  have horder := h.order_eq_workers.1
  rw [← hrest, hcalls, List.map_append, List.map_cons] at horder
  have hmem := h.placed (startKey :: before.map (·.key)) call.key
    (after.map (·.key) ++ rest ++ [endKey]) (by simpa using horder) edge hedge htarget
  exact List.mem_cons.1 hmem

end Graph.Compiled

/-! ## Runs of compiled graphs -/

namespace Graph.Compiled

open Circuit

variable {graph : Graph} {options : CompileOptions} {circuit : Circuit}
  {permitted : Error → Prop} {made taken : String → Value → Prop}
  (h : graph.Compiled options circuit) (hflow : circuit.Flow permitted made taken)
include h hflow

/-- The input of a station, when all stations before it have made something. -/
theorem outcome_stationInput {before after : List Station} {station : Station}
    {outputs : Table Value} (hsplit : circuit.stations = before ++ station :: after)
    (hstart : station.key ≠ startKey) (hmade : Made made before outputs) :
    Outcome permitted (taken station.key) (circuit.stationInput outputs station) := by
  have hstation : station ∈ circuit.stations := by simp [hsplit]
  have hcontribution : ∀ wire ∈ circuit.feeding station.key,
      Outcome permitted (fun fields => ∃ output, made wire.source output ∧
        wire.apply output = .ok fields) (contribution outputs wire) := by
    intro wire hwire
    have hincoming := mem_incoming_of_mem_feeding hwire
    obtain ⟨output, hfind, houtput⟩ :=
      hmade wire.source (.inr (h.source_mem_before hsplit hincoming))
    have happly := hflow.contributed wire (mem_incoming.1 hincoming).1 output houtput
    rw [contribution, hfind]
    dsimp only
    cases hfields : wire.apply output with
    | ok fields => exact ⟨output, houtput, hfields⟩
    | error e => rwa [hfields] at happly
  refine (outcome_mapM hcontribution).bind fun contributions _ hcontributions => ?_
  refine hflow.assembled station hstation hstart contributions fun fields hfields => ?_
  obtain ⟨wire, hwire, hfrom⟩ := exists_left_of_forall₂ hcontributions hfields
  exact ⟨wire, mem_incoming_of_mem_feeding hwire, hfrom⟩

/-- One step of a run. -/
theorem outcome_noteStation {before after : List Station} {station : Station}
    {outputs : Table Value} (hsplit : circuit.stations = before ++ station :: after)
    (hmade : Made made before outputs) :
    (∀ call ∈ (circuit.noteStation outputs station).1, taken call.key call.input) ∧
      Outcome (fun e => permitted e ∨ FailedLast (circuit.noteStation outputs station).1 e)
        (Made made (before ++ [station])) (circuit.noteStation outputs station).2 := by
  have hstation : station ∈ circuit.stations := by simp [hsplit]
  have hrole := h.role_eq hstation
  unfold noteStation
  cases hcase : station.role with
  | start =>
    have hstart := eq_startKey_of_role (hrole.symm.trans hcase)
    rw [runStation, hcase]
    refine ⟨nofun, fun key hkey => hmade key (hkey.elim .inl fun hmem => ?_)⟩
    exact (mem_keys_concat.1 hmem).symm.imp_left fun hlast => hlast.trans hstart
  | finish =>
    have hstart := ne_startKey_of_role (hrole.symm.trans hcase) nofun
    rw [runStation, hcase]
    refine ⟨nofun, ?_⟩
    refine ((h.outcome_stationInput hflow hsplit hstart hmade).imp (fun _ => .inl) fun _ => id).bind
      fun input _ htaken => ?_
    exact hmade.insert (hflow.finished station hstation hcase input htaken)
  | work node =>
    have hstart := ne_startKey_of_role (hrole.symm.trans hcase) nofun
    have hinput := h.outcome_stationInput hflow hsplit hstart hmade
    dsimp only
    cases hvalue : circuit.stationInput outputs station with
    | error e =>
      rw [hvalue] at hinput
      exact ⟨nofun, .inl hinput⟩
    | ok input =>
      rw [hvalue] at hinput
      dsimp only
      refine ⟨fun call hcall => ?_, ?_⟩
      · obtain rfl := List.mem_singleton.1 hcall
        exact hinput
      · cases hrun : node.run input with
        | error e => exact .inr ⟨_, rfl, hrun⟩
        | ok output =>
          exact hmade.insert (hflow.worked station hstation node hcase input hinput output hrun)

/-- The run through the stations that are left. -/
theorem outcome_note {before rest : List Station} {outputs : Table Value}
    (hsplit : circuit.stations = before ++ rest) (hmade : Made made before outputs) :
    (∀ call ∈ (circuit.note rest outputs).1, taken call.key call.input) ∧
      Outcome (fun e => permitted e ∨ FailedLast (circuit.note rest outputs).1 e)
        (Made made circuit.stations) (circuit.note rest outputs).2 := by
  induction rest generalizing before outputs with
  | nil =>
    rw [List.append_nil] at hsplit
    exact ⟨nofun, hsplit ▸ hmade⟩
  | cons station rest ih =>
    have hstep := h.outcome_noteStation hflow hsplit hmade
    rw [note]
    revert hstep
    obtain ⟨calls, result⟩ := circuit.noteStation outputs station
    rintro ⟨hcalls, hresult⟩
    cases result with
    | error e => exact ⟨hcalls, hresult⟩
    | ok outputs' =>
      -- the station joins those that have made something
      have hsplit' : circuit.stations = (before ++ [station]) ++ rest := by simp [hsplit]
      obtain ⟨hrest, hfinal⟩ := ih hsplit' hresult
      refine ⟨fun call hcall => ?_, hfinal.imp (fun e he => he.imp_right ?_) fun _ => id⟩
      · exact (List.mem_append.1 hcall).elim (hcalls call) (hrest call)
      · rintro ⟨call, hlast, herror⟩
        exact ⟨call, by rw [List.getLast?_append, hlast]; rfl, herror⟩

/-- A run keeps what its steps keep, and it fails only as a step may fail or with
the error of the node that it called last. -/
theorem outcome_invoke {value : Value}
    (hguard : Outcome permitted (made startKey) (circuit.inputGuard.check value)) :
    (∀ call ∈ circuit.calls value, taken call.key call.input) ∧
      Outcome (fun e => permitted e ∨ FailedLast (circuit.calls value) e) (made endKey)
        (circuit.invoke value) := by
  unfold calls invoke
  cases hcheck : circuit.inputGuard.check value with
  | error e =>
    rw [hcheck] at hguard
    exact ⟨nofun, .inl hguard⟩
  | ok input =>
    rw [hcheck] at hguard
    have hmade : Made made [] (Table.empty.insert startKey input) := by
      rintro key (rfl | hkey)
      · exact ⟨input, Table.find?_insert_self _ _ _, hguard⟩
      · exact nomatch hkey
    have hsplit : circuit.stations = [] ++ circuit.stations := rfl
    obtain ⟨hcalls, hresult⟩ := h.outcome_note hflow hsplit hmade
    refine ⟨hcalls, ?_⟩
    rw [note_snd] at hresult
    refine Outcome.bind (x := circuit.runStations input) hresult fun outputs _ houtputs => ?_
    have hend : endKey ∈ circuit.stations.map (·.key) := h.mem_order.2 (by simp [keys])
    obtain ⟨output, hfind, houtput⟩ := houtputs endKey (.inr hend)
    rw [hfind]
    exact houtput

end Graph.Compiled

end Dataflow

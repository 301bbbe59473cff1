import Dataflow.Proofs.Passage
import Dataflow.Proofs.Schedules

/-!
# Stations that one wire feeds

When one wire feeds each station, there is one route to each, and what a chunk becomes
along it says all about the station.  A stream that comes out is made of what the chunks
become along the route to the end.  A run goes through all stations instead, so it also
fails where a station fails that is not on that route.

* `Circuit.failure?`: the station where a run fails.
* `Graph.Compiled.invoke_follows`: a run follows the route to the end unless it fails,
  and it fails as the route to the failing station does.
* `Graph.Compiled.exists_stream_along`: a stream follows the route to the end.
-/

namespace Dataflow

/-! ## Where runs fail -/

namespace Circuit

/-- The first of some stations that fails, with its error. -/
def firstFailure? (circuit : Circuit) : List Station → Table Value → Option (String × Error)
  | [], _ => none
  | station :: rest, outputs =>
    match circuit.runStation outputs station with
    | .error e => some (station.key, e)
    | .ok outputs' => firstFailure? circuit rest outputs'

/-- The station where a run fails, with the error; a refused input fails at the start. -/
def failure? (circuit : Circuit) (value : Value) : Option (String × Error) :=
  match circuit.inputGuard.check value with
  | .error e => some (startKey, e)
  | .ok input => circuit.firstFailure? circuit.stations (Table.empty.insert startKey input)

/-- A run on the value fails at a station of the path, if at all. -/
def FailsOnlyOn (circuit : Circuit) (path : List Wire) (value : Value) : Prop :=
  ∀ key e, circuit.failure? value = some (key, e) → key ∈ startKey :: path.map (·.target)

variable {circuit : Circuit}

theorem run_of_firstFailure? {stations : List Station} {outputs : Table Value} {key : String}
    {e : Error} (h : circuit.firstFailure? stations outputs = some (key, e)) :
    stations.foldlM circuit.runStation outputs = .error e := by
  induction stations generalizing outputs with
  | nil => exact nomatch h
  | cons station rest ih =>
    rw [List.foldlM_cons]
    rw [firstFailure?] at h
    cases hstep : circuit.runStation outputs station with
    | error e' =>
      rw [hstep] at h
      rw [(Prod.mk.inj (Option.some.inj h)).2]
      rfl
    | ok outputs' =>
      rw [hstep] at h
      exact ih h

/-- A run ends with the error of the station where it fails. -/
theorem invoke_of_failure? {value : Value} {key : String} {e : Error}
    (h : circuit.failure? value = some (key, e)) : circuit.invoke value = .error e := by
  unfold failure? at h
  rw [invoke]
  cases hguard : circuit.inputGuard.check value with
  | error e' =>
    rw [hguard] at h
    rw [(Prod.mk.inj (Option.some.inj h)).2]
    rfl
  | ok input =>
    rw [hguard] at h
    show (circuit.runStations input >>= _) = _
    rw [runStations, run_of_firstFailure? h]
    rfl

/-- A run that fails beside the path ends with the error of the station where it does. -/
theorem exists_failure_of_not_failsOnlyOn {path : List Wire} {value : Value}
    (h : ¬circuit.FailsOnlyOn path value) :
    ∃ key e, key ∉ startKey :: path.map (·.target) ∧ circuit.failure? value = some (key, e) ∧
      circuit.invoke value = .error e := by
  unfold FailsOnlyOn at h
  push Not at h
  obtain ⟨key, e, hfailure, hbeside⟩ := h
  exact ⟨key, e, hbeside, hfailure, invoke_of_failure? hfailure⟩

end Circuit

namespace Graph

variable {graph : Graph} {options : CompileOptions} {circuit : Circuit}

/-- One wire feeds each station but the start. -/
def SingleFed (graph : Graph) (circuit : Circuit) : Prop :=
  ∀ key ∈ graph.keys, key ≠ startKey → ∃ wire, circuit.feeding key = [wire]

/-- A value that fails along the beginning of a path fails along the path. -/
theorem follow_append_of_error {value : Value} {path : List Wire} {e : Error}
    (h : graph.follow options circuit path value = .error e) (rest : List Wire) :
    graph.follow options circuit (path ++ rest) value = .error e := by
  induction rest using List.reverseRecOn with
  | nil => rwa [List.append_nil]
  | append_singleton rest wire ih =>
    rw [← List.append_assoc, follow_concat, ih]
    rfl

/-- A route begins with a route to each of its stations. -/
theorem exists_route_of_mem {path : List Wire} {last : String} (hroute : circuit.Route path last)
    {key : String} (hkey : key ∈ startKey :: path.map (·.target)) :
    ∃ before rest, circuit.Route before key ∧ path = before ++ rest := by
  induction hroute with
  | start =>
    obtain rfl := List.mem_singleton.1 hkey
    exact ⟨[], [], .start, rfl⟩
  | @step path wire hpath hfeeds ih =>
    rw [List.map_append, ← List.cons_append, List.mem_append] at hkey
    rcases hkey with hkey | hkey
    · obtain ⟨before, rest, hbefore, rfl⟩ := ih hkey
      exact ⟨before, rest ++ [wire], hbefore, List.append_assoc _ _ _⟩
    · rw [List.map_singleton, List.mem_singleton] at hkey
      exact ⟨path ++ [wire], [], hkey ▸ .step hpath hfeeds, (List.append_nil _).symm⟩

namespace Compiled

variable (h : graph.Compiled options circuit)
include h

/-- What a station that one wire feeds makes of the output at the other end. -/
theorem makes_eq_pass {station : Station} (hstation : station ∈ circuit.stations) {wire : Wire}
    (hfeeding : circuit.feeding station.key = [wire]) {outputs : Table Value} {output : Value}
    (houtput : outputs.find? wire.source = some output) :
    circuit.makes outputs station = graph.pass options output wire := by
  have htarget : wire.target = station.key :=
    Circuit.target_of_feeding (by rw [hfeeding]; exact List.mem_singleton.2 rfl)
  have hinput : circuit.stationInput outputs station = graph.arrive options output wire := by
    rw [Circuit.stationInput, hfeeding, arrive, htarget, ← h.station_eq hstation,
      List.mapM_cons, List.mapM_nil, Circuit.contribution, houtput]
    dsimp only
    cases wire.apply output <;> rfl
  rw [Circuit.makes, hinput, pass, htarget, h.role_eq hstation]

/-- The outputs of some stations are what the value becomes along the routes to
them. -/
def Followed (graph : Graph) (options : CompileOptions) (circuit : Circuit) (value : Value)
    (before : List Station) (outputs : Table Value) : Prop :=
  ∀ key, key = startKey ∨ key ∈ before.map (·.key) → ∀ path, circuit.Route path key →
    ∃ output, graph.follow options circuit path value = .ok output ∧
      outputs.find? key = some output

theorem followed_nil {value input : Value} (hguard : circuit.inputGuard.check value = .ok input) :
    Followed graph options circuit value [] (Table.empty.insert startKey input) := by
  intro key hkey path hroute
  obtain rfl : key = startKey := hkey.resolve_right nofun
  obtain rfl := h.route_startKey.1 hroute
  exact ⟨input, by rw [follow_nil, hguard], Table.find?_insert_self _ _ _⟩

variable (hfed : graph.SingleFed circuit)
include hfed

/-! ## Routes -/

/-- A route leads to every station. -/
theorem exists_route {key : String} (hkey : key ∈ graph.keys) : ∃ path, circuit.Route path key := by
  have hroutes : ∀ {before after : List String}, circuit.order = before ++ after →
      ∀ key ∈ before, ∃ path, circuit.Route path key := by
    intro before
    induction before using List.reverseRecOn with
    | nil => exact fun _ => nofun
    | append_singleton before last ih =>
      intro after hsplit key hkey
      rw [List.append_assoc, List.singleton_append] at hsplit
      rcases List.mem_append.1 hkey with hkey | hkey
      · exact ih hsplit key hkey
      obtain rfl := List.mem_singleton.1 hkey
      by_cases hstart : key = startKey
      · exact ⟨[], hstart ▸ .start⟩
      have hmem : key ∈ graph.keys := h.mem_order.1 (by simp [hsplit])
      obtain ⟨wire, hwire⟩ := hfed key hmem hstart
      have hfeeds : wire ∈ circuit.feeding key := by simp [hwire]
      have htarget := Circuit.target_of_feeding hfeeds
      obtain ⟨edge, hedge, hof⟩ := h.exists_edge (Circuit.mem_wires_of_mem_feeding hfeeds)
      have hsource := h.placed before key after hsplit edge hedge (hof.target.symm.trans htarget)
      obtain ⟨path, hpath⟩ := ih hsplit wire.source (hof.source ▸ hsource)
      have hstep := Circuit.Route.step hpath (htarget.symm ▸ hfeeds)
      exact ⟨path ++ [wire], htarget ▸ hstep⟩
  exact hroutes (List.append_nil _).symm key (h.mem_order.2 hkey)

/-- There is one route to each station. -/
theorem route_unique {first second : List Wire} {key : String}
    (hfirst : circuit.Route first key) (hsecond : circuit.Route second key) : first = second := by
  induction hfirst generalizing second with
  | start => exact (h.route_startKey.1 hsecond).symm
  | @step path wire _ hfeeds ih =>
    have hwire := Circuit.mem_wires_of_mem_feeding hfeeds
    obtain ⟨hkey, hstart⟩ := h.target_mem hwire
    obtain ⟨other, hother, before, hbefore, rfl⟩ := (Circuit.route_iff hstart).1 hsecond
    obtain ⟨only, honly⟩ := hfed _ hkey hstart
    rw [honly, List.mem_singleton] at hfeeds hother
    subst hother
    subst hfeeds
    rw [ih hbefore]

/-! ## Runs along the routes -/

/-- One more station has made what the value becomes along the route to it. -/
theorem followed_insert {value output : Value} {before : List Station} {station : Station}
    {outputs : Table Value} (hbefore : Followed graph options circuit value before outputs)
    {path : List Wire} (hroute : circuit.Route path station.key)
    (hfollow : graph.follow options circuit path value = .ok output) :
    Followed graph options circuit value (before ++ [station])
      (outputs.insert station.key output) := by
  intro key hkey other hother
  by_cases heq : key = station.key
  · subst heq
    rw [h.route_unique hfed hother hroute]
    exact ⟨output, hfollow, Table.find?_insert_self _ _ _⟩
  · have hkey' : key = startKey ∨ key ∈ before.map (·.key) :=
      hkey.imp_right fun hmem => (mem_keys_concat.1 hmem).resolve_right heq
    obtain ⟨made, hmade, hfind⟩ := hbefore key hkey' other hother
    exact ⟨made, hmade, by rwa [Table.find?_insert_of_ne _ heq]⟩

/-- A run makes what the value becomes along the routes, or it fails at a station as the
route to that station fails. -/
theorem run_follows {value : Value} {before rest : List Station}
    (hsplit : circuit.stations = before ++ rest) {outputs : Table Value}
    (hbefore : Followed graph options circuit value before outputs) :
    (∃ final, rest.foldlM circuit.runStation outputs = .ok final ∧
        circuit.firstFailure? rest outputs = none ∧
        Followed graph options circuit value circuit.stations final) ∨
      ∃ key path e, circuit.firstFailure? rest outputs = some (key, e) ∧ key ∈ graph.keys ∧
        circuit.Route path key ∧ graph.follow options circuit path value = .error e := by
  induction rest generalizing before outputs with
  | nil =>
    rw [List.append_nil] at hsplit
    exact .inl ⟨outputs, rfl, rfl, hsplit ▸ hbefore⟩
  | cons station rest ih =>
    have hsplit' : circuit.stations = before ++ [station] ++ rest := by simpa using hsplit
    have hmem : station ∈ circuit.stations := by simp [hsplit]
    have hrole := (h.sequential h.schedule).start station hmem
    rw [List.foldlM_cons, Circuit.firstFailure?]
    by_cases hstart : station.key = startKey
    · rw [Circuit.runStation, hrole.2 hstart]
      refine ih hsplit' fun key hkey => hbefore key (hkey.elim .inl fun hmem => ?_)
      exact (mem_keys_concat.1 hmem).symm.imp_left fun hlast => hlast.trans hstart
    · rw [Circuit.runStation_of_ne_start (mt hrole.1 hstart)]
      obtain ⟨wire, hfeeding⟩ := hfed station.key (h.key_mem hmem) hstart
      have hfeeds : wire ∈ circuit.feeding station.key := by simp [hfeeding]
      have htarget : wire.target = station.key := Circuit.target_of_feeding hfeeds
      have hsource := h.source_mem_before hsplit (Circuit.mem_incoming_of_mem_feeding hfeeds)
      obtain ⟨path, hpath⟩ :=
        h.exists_route hfed (h.source_mem (Circuit.mem_wires_of_mem_feeding hfeeds))
      obtain ⟨output, hfollow, hfind⟩ := hbefore wire.source (.inr hsource) path hpath
      have hroute : circuit.Route (path ++ [wire]) station.key := by
        rw [← htarget]
        exact .step hpath (htarget.symm ▸ hfeeds)
      have hnext : graph.follow options circuit (path ++ [wire]) value =
          graph.pass options output wire := by
        rw [follow_concat, hfollow]
        rfl
      rw [h.makes_eq_pass hmem hfeeding hfind]
      cases hpass : graph.pass options output wire with
      | error e =>
        rw [hpass] at hnext
        exact .inr ⟨station.key, path ++ [wire], e, rfl, h.key_mem hmem, hroute, hnext⟩
      | ok made =>
        rw [hpass] at hnext
        exact ih hsplit' (h.followed_insert hfed hbefore hroute hnext)

/-- A run makes what the value becomes along the route to the end, or it fails at a
station as the route to that station fails. -/
theorem invoke_follows {last : List Wire} (hlast : circuit.Route last endKey) (value : Value) :
    (circuit.failure? value = none ∧
        circuit.invoke value = graph.follow options circuit last value) ∨
      ∃ key path e, circuit.failure? value = some (key, e) ∧ key ∈ graph.keys ∧
        circuit.Route path key ∧ graph.follow options circuit path value = .error e := by
  cases hguard : circuit.inputGuard.check value with
  | error e =>
    refine .inr ⟨startKey, [], e, by rw [Circuit.failure?, hguard], List.mem_cons_self, .start, ?_⟩
    rw [follow_nil, hguard]
  | ok input =>
    have hsplit : circuit.stations = [] ++ circuit.stations := rfl
    rw [Circuit.failure?, hguard]
    refine (h.run_follows hfed hsplit (h.followed_nil hguard)).imp_left ?_
    rintro ⟨final, hrun, hnone, hfinal⟩
    have hend : endKey ∈ circuit.stations.map (·.key) := h.mem_order.2 (by simp [keys])
    obtain ⟨output, hfollow, hfind⟩ := hfinal endKey (.inr hend) last hlast
    rw [hfollow]
    exact ⟨hnone, Circuit.invoke_of_run hguard hrun hfind⟩

/-- A run that fails on the route to the end, if at all, follows that route. -/
theorem invoke_eq_follow_of_failsOnlyOn {last : List Wire} (hlast : circuit.Route last endKey)
    {value : Value} (hfails : circuit.FailsOnlyOn last value) :
    circuit.invoke value = graph.follow options circuit last value := by
  rcases h.invoke_follows hfed hlast value with
    ⟨_, hinvoke⟩ | ⟨key, path, e, hfailed, _, hroute, hfollow⟩
  · exact hinvoke
  · obtain ⟨before, rest, hbefore, rfl⟩ := exists_route_of_mem hlast (hfails key e hfailed)
    obtain rfl := h.route_unique hfed hroute hbefore
    rw [Circuit.invoke_of_failure? hfailed, follow_append_of_error hfollow]

/-! ## Streams along the routes -/

/-- A stream is what the chunks become along the routes to a station. -/
def Along (graph : Graph) (options : CompileOptions) (circuit : Circuit)
    (chunks : List (Chunk Value)) (key : String) (made : List (Chunk Value)) : Prop :=
  cut made = made ∧
    ∀ path, circuit.Route path key → made = upTo (graph.follow options circuit path) chunks

omit hfed in
theorem along_start (chunks : List (Chunk Value)) :
    Along graph options circuit chunks startKey (upTo circuit.inputGuard.check chunks) := by
  refine ⟨cut_upTo _ _, fun path hroute => ?_⟩
  have hfollow : graph.follow options circuit path = circuit.inputGuard.check := by
    rw [h.route_startKey.1 hroute]
    exact funext (graph.follow_nil options circuit)
  rw [hfollow]

omit h in
/-- There is nothing to merge with where one wire feeds a station, so what the station
makes of such a stream is such a stream. -/
theorem passes_along (chunks : List (Chunk Value)) :
    graph.Passes options circuit (Along graph options circuit chunks) where
  cut_eq _ _ hfull := hfull.1
  step := by
    rintro key hkey hstart _ ⟨_, ⟨merged, ⟨streams, hstreams, hmerged⟩, rfl⟩, rfl⟩
    refine ⟨cut_upTo _ _, fun path hroute => ?_⟩
    obtain ⟨wire, hwire, before, hbefore, rfl⟩ := (Circuit.route_iff hstart).1 hroute
    obtain ⟨only, honly⟩ := hfed key hkey hstart
    have htarget := Circuit.target_of_feeding hwire
    have hstream := (hstreams wire hwire).2 before hbefore
    rw [honly, List.mem_singleton] at hwire
    subst hwire
    rw [honly, List.map_singleton] at hmerged
    have hfollow : graph.follow options circuit (before ++ [wire]) = fun value =>
        (graph.follow options circuit before value).bind fun output =>
          graph.pass options output wire :=
      funext fun value => follow_concat graph options circuit before wire value
    have hpass : ∀ output, graph.pass options output wire = (wire.apply output).bind fun fields =>
        ((graph.station options key).assembler.assembleOne fields).bind (graph.role key).act := by
      intro output
      rw [pass, arrive, htarget]
      cases wire.apply output <;> rfl
    rw [hmerged.eq_of_singleton, hstream, upTo_upTo, upTo_upTo, upTo_upTo, hfollow]
    simp only [hpass]

/-- A stream that comes out is made of what the chunks become along the route to the
end, whatever the moments are like in which it is polled. -/
theorem exists_stream_along {last : List Wire} (hlast : circuit.Route last endKey)
    (hdefault : ∀ entry ∈ graph.nodes, entry.2.transducer = .perChunk entry.2.run)
    (chunks : List (Chunk Value)) :
    ∃ stream, circuit.transform chunks = .ok stream ∧
      stream.Gives (· = upTo (graph.follow options circuit last) chunks) := by
  obtain ⟨stream, hstream, hgives, _⟩ :=
    h.exists_stream_of_carried (passes_along hfed chunks) hdefault (h.along_start chunks)
  exact ⟨stream, hstream, hgives.imp fun full hfull => hfull.2 last hlast⟩

end Compiled

end Graph

end Dataflow

import Dataflow.Graph.Order

/-!
# Sorted keys

The search for an execution order does what is asked of a topological sort.  What it
gives has every key once, each after its predecessors: that they do come before it is
what the check of the finished order says.  And it gives up for a reason: the key it
reports is on a cycle.

A key is open from the time the search visits it until it is finished, and while it is
open everything above it on the stack can be reached from it.  So a successor of a
finished key was finished before it, or was open at that time, and then it leads back
to the key.

* `search_eq_ok`: the search finishes what is on its stack, each key once.
* `not_mem_successors_of_search`: no key that was searched succeeds itself.
* `Searching`: what every step of the search keeps.
* `successor_of_search`: the finished keys and their successors.
* `sort_eq_ok`: an order has every key once and each after its predecessors.
* `cycle_of_sort_eq_error`: a reported key is on a cycle.
-/

namespace Dataflow.Order

variable {successors predecessors : String → List String}

/-! ## What the search finishes -/

/-- A key that was visited can go from the stack. -/
theorem mem_rest_of_mem_stack {unvisited rest : List String} {key : String}
    (hkey : key ∉ unvisited) (hstack : ∀ k ∈ unvisited, k ∈ key :: rest) :
    ∀ k ∈ unvisited, k ∈ rest := by
  intro k hk
  rcases List.mem_cons.1 (hstack k hk) with rfl | hrest
  · exact absurd hk hkey
  · exact hrest

/-- The search adds what is on its stack to the finished keys, each key once. -/
theorem search_eq_ok {unvisited stack finished order : List String}
    (h : search successors unvisited stack finished = .ok order)
    (hunvisited : unvisited.Nodup) (hfinished : finished.Nodup)
    (hapart : ∀ k ∈ finished, k ∉ unvisited) (hstack : ∀ k ∈ unvisited, k ∈ stack) :
    order.Nodup ∧ ∀ k, k ∈ order ↔ k ∈ stack ∨ k ∈ finished := by
  fun_induction search successors unvisited stack finished with
  | case1 unvisited finished =>
    obtain rfl := Except.ok.inj h
    exact ⟨hfinished, fun k => by simp⟩
  | case2 => exact nomatch h
  | case3 unvisited finished key rest hkey hself unvisited' ih =>
    have hmem : ∀ k, k ∈ unvisited' → k ∈ unvisited := fun k => List.mem_of_mem_erase
    obtain ⟨hnodup, hiff⟩ := ih h (hunvisited.erase key) hfinished
      (fun k hk hk' => hapart k hk (hmem k hk'))
      fun k hk => List.mem_append_right _ (hstack k (hmem k hk))
    refine ⟨hnodup, fun k => (hiff k).trans ?_⟩
    constructor
    · rintro (hk | hk)
      · rcases List.mem_append.1 hk with hk | hk
        · have hk' := (List.mem_filter.1 hk).2
          exact .inl (hstack k (hmem k (of_decide_eq_true hk')))
        · exact .inl hk
      · exact .inr hk
    · rintro (hk | hk)
      · exact .inl (List.mem_append_right _ hk)
      · exact .inr hk
  | case4 unvisited finished key rest hkey hdone ih =>
    obtain ⟨hnodup, hiff⟩ :=
      ih h hunvisited hfinished hapart (mem_rest_of_mem_stack hkey hstack)
    refine ⟨hnodup, fun k => (hiff k).trans ?_⟩
    constructor
    · exact Or.imp_left (List.mem_cons_of_mem _)
    · rintro (hk | hk)
      · rcases List.mem_cons.1 hk with rfl | hk
        · exact .inr hdone
        · exact .inl hk
      · exact .inr hk
  | case5 unvisited finished key rest hkey hnew ih =>
    obtain ⟨hnodup, hiff⟩ := ih h hunvisited (List.nodup_cons.2 ⟨hnew, hfinished⟩)
      (fun k hk => by
        rcases List.mem_cons.1 hk with rfl | hk
        · exact hkey
        · exact hapart k hk)
      (mem_rest_of_mem_stack hkey hstack)
    refine ⟨hnodup, fun k => (hiff k).trans ?_⟩
    rw [List.mem_cons, List.mem_cons, or_left_comm, ← or_assoc]

/-- The search refuses a key that succeeds itself. -/
theorem not_mem_successors_of_search {unvisited stack finished order : List String}
    (h : search successors unvisited stack finished = .ok order)
    (hstack : ∀ k ∈ unvisited, k ∈ stack) : ∀ k ∈ unvisited, k ∉ successors k := by
  fun_induction search successors unvisited stack finished with
  | case1 => exact fun k hk => nomatch hstack k hk
  | case2 => exact nomatch h
  | case3 unvisited finished key rest hkey hself unvisited' ih =>
    intro k hk
    by_cases heq : k = key
    · rwa [heq]
    · exact ih h (fun k hk => List.mem_append_right _ (hstack k (List.mem_of_mem_erase hk))) k
        ((List.mem_erase_of_ne heq).2 hk)
  | case4 unvisited finished key rest hkey hdone ih =>
    exact ih h (mem_rest_of_mem_stack hkey hstack)
  | case5 unvisited finished key rest hkey hnew ih =>
    exact ih h (mem_rest_of_mem_stack hkey hstack)

/-! ## The keys that are open -/

/-- A key leads to its successors. -/
def Steps (successors : String → List String) (key next : String) : Prop :=
  next ∈ successors key

/-- What lies above a key on a stack. -/
def above (key : String) (stack : List String) : List String :=
  stack.takeWhile (· ≠ key)

theorem above_cons_of_ne {key top : String} (h : top ≠ key) (rest : List String) :
    above key (top :: rest) = top :: above key rest :=
  List.takeWhile_cons_of_pos (decide_eq_true h)

theorem above_cons_self (key : String) (rest : List String) : above key (key :: rest) = [] :=
  List.takeWhile_cons_of_neg (by simp)

/-- A key lies below everything that is put on top of it. -/
theorem above_append {key : String} {front : List String} (h : key ∉ front) (rest : List String) :
    above key (front ++ rest) = front ++ above key rest :=
  List.takeWhile_append_of_pos fun _ hk => decide_eq_true fun heq => h (heq ▸ hk)

/-- A search on its way: every key that is not finished is on the stack, what lies above
an open key can be reached from it, an open key has its unvisited successors above it,
and a finished key comes before its successors, except those that lead back to it. -/
structure Searching (successors : String → List String)
    (keys unvisited stack finished : List String) : Prop where
  nodup : unvisited.Nodup
  apart : ∀ k ∈ finished, k ∉ unvisited
  covered : ∀ k ∈ keys, k ∈ stack ∨ k ∈ finished
  reaches : ∀ k ∈ stack, k ∉ unvisited → k ∉ finished →
    ∀ next ∈ above k stack, Relation.TransGen (Steps successors) k next
  waiting : ∀ k ∈ stack, k ∉ unvisited → k ∉ finished →
    ∀ next ∈ successors k, next ≠ k → next ∈ unvisited → next ∈ above k stack
  settled : ∀ before k after, finished = before ++ k :: after →
    ∀ next ∈ successors k, next ≠ k → next ∈ after ∨ Relation.TransGen (Steps successors) next k

namespace Searching

variable {keys unvisited rest finished : List String} {key : String}

theorem start (hkeys : keys.Nodup) : Searching successors keys keys keys [] where
  nodup := hkeys
  apart := nofun
  covered _ hk := .inl hk
  reaches _ hk hvisited _ := absurd hk hvisited
  waiting _ hk hvisited _ := absurd hk hvisited
  settled before k after heq := by simp at heq

/-- Visiting a key opens it and puts its unvisited successors on top. -/
theorem visit (h : Searching successors keys unvisited (key :: rest) finished)
    (hkey : key ∈ unvisited) :
    Searching successors keys (unvisited.erase key)
      ((successors key).filter (· ∈ unvisited.erase key) ++ key :: rest) finished := by
  -- of the keys on the new stack, only those below the successors can be open
  have hbelow : ∀ {k : String},
      k ∈ (successors key).filter (· ∈ unvisited.erase key) ++ key :: rest →
        k ∉ unvisited.erase key → k ∈ key :: rest ∧
          k ∉ (successors key).filter (· ∈ unvisited.erase key) := by
    intro k hk hvisited
    have hfront : k ∉ (successors key).filter (· ∈ unvisited.erase key) :=
      fun hmem => hvisited (of_decide_eq_true (List.mem_filter.1 hmem).2)
    exact ⟨(List.mem_append.1 hk).resolve_left hfront, hfront⟩
  have hvisited' : ∀ {k : String}, k ≠ key → k ∉ unvisited.erase key → k ∉ unvisited :=
    fun hne hk hmem => hk ((List.mem_erase_of_ne hne).2 hmem)
  refine ⟨h.nodup.erase key, fun k hk hmem => h.apart k hk (List.mem_of_mem_erase hmem),
    fun k hk => (h.covered k hk).imp_left (List.mem_append_right _), ?_, ?_, h.settled⟩
  · intro k hk hvisited hopen next hnext
    obtain ⟨hstack, hfront⟩ := hbelow hk hvisited
    rw [above_append hfront] at hnext
    have hfirst : ∀ {next : String}, next ∈ (successors key).filter (· ∈ unvisited.erase key) →
        Steps successors key next := fun hmem => (List.mem_filter.1 hmem).1
    by_cases heq : k = key
    · subst heq
      rw [above_cons_self, List.append_nil] at hnext
      exact .single (hfirst hnext)
    · have hreaches := h.reaches k hstack (hvisited' heq hvisited) hopen
      rcases List.mem_append.1 hnext with hnext | hnext
      · refine (hreaches key ?_).tail (hfirst hnext)
        rw [above_cons_of_ne (Ne.symm heq)]
        exact List.mem_cons_self
      · exact hreaches next hnext
  · intro k hk hvisited hopen next hnext hne hnew
    obtain ⟨hstack, hfront⟩ := hbelow hk hvisited
    rw [above_append hfront]
    by_cases heq : k = key
    · subst heq
      exact List.mem_append_left _ (List.mem_filter.2 ⟨hnext, decide_eq_true hnew⟩)
    · exact List.mem_append_right _ (h.waiting k hstack (hvisited' heq hvisited) hopen next hnext
        hne (List.mem_of_mem_erase hnew))

/-- A visited key can go from the stack when it is finished by then. -/
theorem pop (h : Searching successors keys unvisited (key :: rest) finished)
    (hkey : key ∉ unvisited) {finished' : List String} (hdone : key ∈ finished')
    (hgrown : ∀ k ∈ finished, k ∈ finished') (hapart : ∀ k ∈ finished', k ∉ unvisited)
    (hsettled : ∀ before k after, finished' = before ++ k :: after →
      ∀ next ∈ successors k, next ≠ k →
        next ∈ after ∨ Relation.TransGen (Steps successors) next k) :
    Searching successors keys unvisited rest finished' := by
  have habove : ∀ {k : String}, k ∉ finished' → above k (key :: rest) = key :: above k rest :=
    fun hopen => above_cons_of_ne (ne_of_mem_of_not_mem hdone hopen) rest
  refine ⟨h.nodup, hapart, fun k hk => ?_, fun k hk hvisited hopen next hnext => ?_,
    fun k hk hvisited hopen next hnext hne hnew => ?_, hsettled⟩
  · rcases h.covered k hk with hk | hk
    · rcases List.mem_cons.1 hk with rfl | hk
      · exact .inr hdone
      · exact .inl hk
    · exact .inr (hgrown k hk)
  · refine h.reaches k (List.mem_cons_of_mem _ hk) hvisited (fun hk => hopen (hgrown k hk)) next ?_
    rw [habove hopen]
    exact List.mem_cons_of_mem _ hnext
  · have hmem := h.waiting k (List.mem_cons_of_mem _ hk) hvisited (fun hk => hopen (hgrown k hk))
      next hnext hne hnew
    rw [habove hopen] at hmem
    rcases List.mem_cons.1 hmem with rfl | hmem
    · exact absurd hnew hkey
    · exact hmem

/-- The successors of an open key on top of the stack are finished, or they are open
themselves and lead to it. -/
theorem finish (h : Searching successors keys unvisited (key :: rest) finished)
    (hsuccessors : ∀ next ∈ successors key, next ∈ keys) (hkey : key ∉ unvisited)
    (hopen : key ∉ finished) : Searching successors keys unvisited rest (key :: finished) := by
  refine h.pop hkey List.mem_cons_self (fun k hk => List.mem_cons_of_mem _ hk) ?_ ?_
  · exact fun k hk => (List.mem_cons.1 hk).elim (fun heq => heq ▸ hkey) (h.apart k)
  intro before k after heq next hnext hne
  cases before with
  | cons first before =>
    obtain ⟨_, heq⟩ := List.cons.inj heq
    exact h.settled before k after heq next hnext hne
  | nil =>
    obtain ⟨rfl, rfl⟩ := List.cons.inj heq
    by_cases hdone : next ∈ finished
    · exact .inl hdone
    have hstack := (h.covered next (hsuccessors next hnext)).resolve_right hdone
    have hvisited : next ∉ unvisited := fun hnew => by
      have hmem := h.waiting key List.mem_cons_self hkey hopen next hnext hne hnew
      rw [above_cons_self] at hmem
      exact nomatch hmem
    refine .inr (h.reaches next hstack hvisited hdone key ?_)
    rw [above_cons_of_ne (Ne.symm hne)]
    exact List.mem_cons_self

end Searching

/-- A search that gives up has found a key that succeeds itself. -/
theorem mem_successors_of_search {unvisited stack finished : List String} {key : String}
    (h : search successors unvisited stack finished = .error key) : key ∈ successors key := by
  fun_induction search successors unvisited stack finished with
  | case1 => cases h
  | case2 unvisited finished key' rest hkey hself =>
    obtain rfl := Except.error.inj h
    exact hself
  | case3 unvisited finished key rest hkey hself unvisited' ih => exact ih h
  | case4 unvisited finished key rest hkey hdone ih => exact ih h
  | case5 unvisited finished key rest hkey hnew ih => exact ih h

/-- In the order that a search gives, a key comes before its successors, except those
that lead back to it. -/
theorem successor_of_search {keys unvisited stack finished order : List String}
    (h : search successors unvisited stack finished = .ok order)
    (hsuccessors : ∀ k, ∀ next ∈ successors k, next ∈ keys)
    (hstate : Searching successors keys unvisited stack finished)
    {before after : List String} {key : String} (horder : order = before ++ key :: after)
    {next : String} (hnext : next ∈ successors key) (hne : next ≠ key) :
    next ∈ after ∨ Relation.TransGen (Steps successors) next key := by
  fun_induction search successors unvisited stack finished with
  | case1 unvisited finished =>
    obtain rfl := Except.ok.inj h
    exact hstate.settled before key after horder next hnext hne
  | case2 => cases h
  | case3 unvisited finished top rest htop hself unvisited' ih => exact ih h (hstate.visit htop)
  | case4 unvisited finished top rest htop hdone ih =>
    exact ih h (hstate.pop htop hdone (fun _ => id) hstate.apart hstate.settled)
  | case5 unvisited finished top rest htop hnew ih =>
    exact ih h (hstate.finish (hsuccessors top) htop hnew)

/-! ## The order -/

/-- When nothing is misplaced, a node comes after its predecessors. -/
theorem mem_of_misplaced?_eq_none {placed keys before after : List String} {key p : String}
    (h : misplaced? predecessors placed keys = none) (hkeys : keys = before ++ key :: after)
    (hp : p ∈ predecessors key) (hne : p ≠ key) : p ∈ placed ∨ p ∈ before := by
  induction before generalizing placed keys with
  | nil =>
    subst hkeys
    rw [List.nil_append, misplaced?, Option.or_eq_none_iff, List.find?_eq_none] at h
    have := h.1 p hp
    simpa [hne] using this
  | cons first before ih =>
    subst hkeys
    rw [List.cons_append, misplaced?, Option.or_eq_none_iff] at h
    rcases ih h.2 rfl with hmem | hmem
    · rcases List.mem_cons.1 hmem with rfl | hmem
      · exact .inr List.mem_cons_self
      · exact .inl hmem
    · exact .inr (List.mem_cons_of_mem _ hmem)

/-- The search decides what the sorted keys are; it is only looked over once more. -/
theorem sort_cases (successors predecessors : String → List String) (keys : List String) :
    (∃ key, search successors keys keys [] = .error key ∧
      sort successors predecessors keys = .error key) ∨
    ∃ order, search successors keys keys [] = .ok order ∧
      ((∃ key, misplaced? predecessors [] order = some key ∧
          sort successors predecessors keys = .error key) ∨
        misplaced? predecessors [] order = none ∧
          sort successors predecessors keys = .ok order) := by
  unfold sort
  cases search successors keys keys [] with
  | error key => exact .inl ⟨key, rfl, rfl⟩
  | ok order =>
    refine .inr ⟨order, rfl, ?_⟩
    dsimp only [bind, Except.bind]
    cases misplaced? predecessors [] order with
    | some key => exact .inl ⟨key, rfl, rfl⟩
    | none => exact .inr ⟨rfl, rfl⟩

/-- Sorted keys: every key once, and each after its predecessors. -/
theorem sort_eq_ok {keys order : List String} (hkeys : keys.Nodup)
    (h : sort successors predecessors keys = .ok order) :
    order.Perm keys ∧ (∀ k ∈ keys, k ∉ successors k) ∧
      ∀ before key after, order = before ++ key :: after →
        ∀ p ∈ predecessors key, p ≠ key → p ∈ before := by
  obtain ⟨_, _, hsort⟩ | ⟨_, hsearch, ⟨_, _, hsort⟩ | ⟨hnone, hsort⟩⟩ :=
    sort_cases successors predecessors keys
  · exact nomatch hsort.symm.trans h
  · exact nomatch hsort.symm.trans h
  obtain rfl := Except.ok.inj (hsort.symm.trans h)
  obtain ⟨hnodup, hiff⟩ := search_eq_ok hsearch hkeys List.nodup_nil nofun fun _ hk => hk
  refine ⟨(List.perm_ext_iff_of_nodup hnodup hkeys).2 fun k => by simp [hiff k],
    not_mem_successors_of_search hsearch fun _ hk => hk, ?_⟩
  intro before key after horder p hp hne
  exact (mem_of_misplaced?_eq_none hnone horder hp hne).resolve_left nofun

/-- A misplaced predecessor comes neither before nor at the key it leads to. -/
theorem misplaced?_eq_some {placed keys : List String} {p : String}
    (h : misplaced? predecessors placed keys = some p) :
    ∃ before key after, keys = before ++ key :: after ∧ p ∈ predecessors key ∧ p ≠ key ∧
      p ∉ placed ∧ p ∉ before := by
  induction keys generalizing placed with
  | nil => exact nomatch h
  | cons first rest ih =>
    rw [misplaced?, Option.or_eq_some_iff] at h
    rcases h with hfound | ⟨_, hlater⟩
    · have hcond := List.find?_some hfound
      have hmem := List.mem_of_find?_eq_some hfound
      have hcond : p ≠ first ∧ p ∉ placed := by simpa using hcond
      exact ⟨[], first, rest, rfl, hmem, hcond.1, hcond.2, List.not_mem_nil⟩
    · obtain ⟨before, key, after, rfl, hp, hne, hplaced, hbefore⟩ := ih hlater
      rw [List.mem_cons, not_or] at hplaced
      refine ⟨first :: before, key, after, rfl, hp, hne, hplaced.2, ?_⟩
      rw [List.mem_cons, not_or]
      exact ⟨hplaced.1, hbefore⟩

/-- A key that is reported by the sort is on a cycle. -/
theorem cycle_of_sort_eq_error {keys : List String} {key : String} (hkeys : keys.Nodup)
    (hsuccessors : ∀ k, ∀ next ∈ successors k, k ∈ keys ∧ next ∈ keys)
    (hpredecessors : ∀ k, ∀ p ∈ predecessors k, k ∈ successors p)
    (h : sort successors predecessors keys = .error key) :
    Relation.TransGen (Steps successors) key key := by
  obtain ⟨_, hsearch, hsort⟩ | ⟨order, hsearch, ⟨p, hp, hsort⟩ | ⟨_, hsort⟩⟩ :=
    sort_cases successors predecessors keys
  · obtain rfl := Except.error.inj (hsort.symm.trans h)
    exact .single (mem_successors_of_search hsearch)
  · obtain rfl := Except.error.inj (hsort.symm.trans h)
    obtain ⟨before, next, after, horder, hmem, hne, _, hbefore⟩ := misplaced?_eq_some hp
    have hnext := hpredecessors next p hmem
    obtain ⟨hnodup, hiff⟩ := search_eq_ok hsearch hkeys List.nodup_nil nofun fun _ hk => hk
    -- what is not placed before its successor was finished before it
    have hlater : p ∈ after := by
      have hp := (hiff p).2 (.inl (hsuccessors p next hnext).1)
      rw [horder] at hp
      exact (List.mem_cons.1 ((List.mem_append.1 hp).resolve_left hbefore)).resolve_left hne
    obtain ⟨between, rest, rfl⟩ := List.append_of_mem hlater
    have hsplit : order = (before ++ next :: between) ++ p :: rest := by simpa using horder
    rcases successor_of_search hsearch (fun k next hnext => (hsuccessors k next hnext).2)
      (.start hkeys) hsplit hnext (Ne.symm hne) with hrest | hback
    · rw [hsplit] at hnodup
      exact absurd rfl ((List.nodup_append.1 hnodup).2.2 next (by simp) next
        (List.mem_cons_of_mem _ hrest))
    · exact .trans (.single hnext) hback
  · exact nomatch hsort.symm.trans h

end Dataflow.Order

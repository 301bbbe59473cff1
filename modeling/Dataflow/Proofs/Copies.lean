import Dataflow.Proofs.Deliveries
import Dataflow.Stream.FanOut
import Mathlib.Logic.Function.Basic

/-!
# Copies

Every copy of a source delivers all that the source delivers, however the copies take
turns.  What a copy has delivered and what waits for it is all that the source has
delivered so far, until the copy is through, and then it has delivered everything.  A
poll of one copy that reaches the source lets the chunk wait for the other copies, so
nothing of that changes for them.

* `FanOut.Follows`: how the copies stand to their source.
* `goes_copy`, `paced_copy`: what a poll of a copy does to that, and when it takes
  something off the input.
-/

namespace Dataflow

variable {W α : Type} {whole : List (Chunk α) → Prop} {given got : List (Chunk α)}

/-- What ends with an error does not go on. -/
theorem whole_of_failed (hbegins : ∃ full, whole full ∧ got <+: full)
    (hcut : ∀ full, whole full → cut full = full) (hfailed : Failed got) : whole got := by
  obtain ⟨full, hfull, hbegin⟩ := hbegins
  rwa [eq_of_prefix_of_failed hbegin (hcut full hfull) hfailed]

/-! ## Copies and their source -/

/-- What a copy has delivered, of the chunks that the source has. -/
structure Copy.Follows (whole : List (Chunk α) → Prop) (given got : List (Chunk α))
    (copy : Copy α) : Prop where
  unfinished : copy.finished = false → ∃ queue, copy.queue = some queue ∧ got ++ queue = given
  finished : copy.finished = true → whole got

namespace Copy.Follows

variable {copy : Copy α}

theorem append_pending (h : copy.Follows whole given got) (hfinished : copy.finished = false) :
    got ++ copy.pending = given := by
  obtain ⟨queue, hqueue, heq⟩ := h.unfinished hfinished
  rwa [Copy.pending, hqueue]

theorem begun (h : copy.Follows whole given got) : copy.begun.Follows whole given got :=
  ⟨h.unfinished, h.finished⟩

theorem ended (h : whole got) : (Copy.ended : Copy α).Follows whole given got :=
  ⟨nofun, fun _ => h⟩

theorem delivered {c : Chunk α} {rest : List (Chunk α)} (hgiven : got ++ c :: rest = given)
    (hbegins : ∃ full, whole full ∧ given <+: full) (hcut : ∀ full, whole full → cut full = full) :
    (Copy.delivered c rest).Follows whole given (got ++ [c]) := by
  unfold Copy.delivered
  split
  next herror =>
    have hmore : got ++ [c] <+: given := ⟨rest, by simpa using hgiven⟩
    refine .ended (whole_of_failed ?_ hcut (failed_concat.2 (.inr herror)))
    exact hbegins.imp fun full hfull => ⟨hfull.1, hmore.trans hfull.2⟩
  · exact ⟨fun _ => ⟨rest, rfl, by simpa using hgiven⟩, nofun⟩

/-- The next chunk of the source waits for the copy. -/
theorem offer (h : copy.Follows whole given got) (c : Chunk α) :
    (copy.offer c).Follows whole (given ++ [c]) got where
  unfinished hfinished := by
    obtain ⟨queue, hqueue, heq⟩ := h.unfinished hfinished
    exact ⟨queue ++ [c], by simp [Copy.offer, hqueue], by simp [← heq]⟩
  finished := h.finished

end Copy.Follows

namespace FanOut

/-- What each copy has delivered, of the chunks that the source has. -/
structure Follows (whole : List (Chunk α) → Prop) (count : Nat) (given : List (Chunk α))
    (received : Nat → List (Chunk α)) (fan : FanOut α) : Prop where
  length_eq : fan.copies.length = count
  flowing : fan.flowing = false → whole given
  copies : ∀ index (copy : Copy α), fan.copies[index]? = some copy →
    copy.Follows whole given (received index)

variable {count index : Nat} {received : Nat → List (Chunk α)} {fan : FanOut α} {copy : Copy α}

theorem follows_fresh (count : Nat) :
    (fresh count : FanOut α).Follows whole count [] fun _ => [] where
  length_eq := List.length_replicate
  flowing := nofun
  copies index copy hcopy := by
    rw [List.eq_of_mem_replicate (List.mem_of_getElem? hcopy)]
    exact ⟨fun _ => ⟨[], rfl, rfl⟩, nofun⟩

/-- One of the copies is replaced. -/
theorem Follows.set {copies : List (Copy α)} {flowing flowing' : Bool} {new : Copy α}
    (h : (⟨flowing, copies⟩ : FanOut α).Follows whole count given received)
    (hflowing : flowing' = false → whole given) (hnew : new.Follows whole given got) :
    (⟨flowing', copies.set index new⟩ : FanOut α).Follows whole count given
      (Function.update received index got) where
  length_eq := by simpa using h.length_eq
  flowing := hflowing
  copies other copy hcopy := by
    by_cases hother : other = index
    · subst hother
      obtain ⟨hlt, hcopy⟩ := List.getElem?_eq_some_iff.1 hcopy
      obtain rfl : new = copy := by simpa using hcopy
      rwa [Function.update_self]
    · rw [List.getElem?_set_ne (Ne.symm hother)] at hcopy
      rw [Function.update_of_ne hother]
      exact h.copies other copy hcopy

theorem Follows.offer {copies : List (Copy α)} {flowing flowing' : Bool}
    (h : (⟨flowing, copies⟩ : FanOut α).Follows whole count given received) (c : Chunk α)
    (hflowing : flowing' = false → whole (given ++ [c])) :
    (⟨flowing', copies.map (Copy.offer c)⟩ : FanOut α).Follows whole count (given ++ [c])
      received where
  length_eq := by simpa using h.length_eq
  flowing := hflowing
  copies index copy hcopy := by
    rw [List.getElem?_map, Option.map_eq_some_iff] at hcopy
    obtain ⟨old, hold, rfl⟩ := hcopy
    exact (h.copies index old hold).offer c

end FanOut

/-! ## A source and its copies -/

section Shares

variable {soFar : List (Chunk α) → W → Prop}

/-- What each copy of a source has delivered.  A single copy is the source itself. -/
def Shares (soFar : List (Chunk α) → W → Prop) (whole : List (Chunk α) → Prop) (count : Nat)
    (received : Nat → List (Chunk α)) (p : FanOut α × W) : Prop :=
  ∃ given, soFar given p.2 ∧
    if count = 1 then received 0 = given else p.1.Follows whole count given received

theorem shares_fresh {w : W} (h : soFar [] w) (count : Nat) :
    Shares soFar whole count (fun _ => []) (.fresh count, w) := by
  refine ⟨[], h, ?_⟩
  split
  · rfl
  · exact FanOut.follows_fresh count

variable [Ranked W] {feed : Feed W α} {taken : W → Nat} {total : Nat}
  (h : Delivers feed taken total soFar whole)
  (hcut : ∀ full, whole full → cut full = full) {count index : Nat} (hindex : index < count)
  {received : Nat → List (Chunk α)} {p : FanOut α × W} (hp : Shares soFar whole count received p)

include h hindex hp in
/-- What a copy has delivered is the beginning of something whole. -/
theorem Shares.begins : ∃ full, whole full ∧ received index <+: full := by
  obtain ⟨given, hgiven, hp⟩ := hp
  obtain ⟨full, hfull, hbegin⟩ := h.begins hgiven
  split at hp
  next hcount =>
    obtain rfl : index = 0 := by omega
    exact ⟨full, hfull, hp ▸ hbegin⟩
  next hcount =>
    have hlt : index < p.1.copies.length := hp.length_eq ▸ hindex
    have hcopy := hp.copies index _ (List.getElem?_eq_getElem hlt)
    cases hfinished : (p.1.copies[index]).finished with
    | true => exact ⟨_, hcopy.finished hfinished, List.prefix_rfl⟩
    | false =>
      have heq := hcopy.append_pending hfinished
      exact ⟨full, hfull, (heq ▸ List.prefix_append _ _).trans hbegin⟩

include h hcut hindex hp in
/-- A poll of a copy adds to what that copy has delivered, and nothing to what the others
have. -/
theorem goes_copy (key : String) (m : Moment) :
    Goes (fun got p => Shares soFar whole count (Function.update received index got) p) whole m
      (received index) ((feed.copy key count index).poll m p) := by
  obtain ⟨fan, w⟩ := p
  obtain ⟨given, hgiven, hp⟩ := hp
  by_cases hcount : count = 1
  · obtain rfl : index = 0 := by omega
    rw [if_pos hcount] at hp
    rw [Feed.copy, if_pos hcount, hp]
    refine (h.poll hgiven).imp (fun got hgot => ⟨got, hgot, ?_⟩) id
    rw [if_pos hcount, Function.update_self]
  rw [if_neg hcount] at hp
  rw [Feed.copy, if_neg hcount]
  have hshares : ∀ {fan w got given}, soFar given w →
      fan.Follows whole count given (Function.update received index got) →
        Shares soFar whole count (Function.update received index got) (fan, w) :=
    fun hgiven hfan => ⟨_, hgiven, by rwa [if_neg hcount]⟩
  have hpoll := h.poll (m := m) hgiven
  have hpolled := FanOut.polled_poll (feed.poll m) (m.served key index) index fan w
  show Goes _ _ m _ (FanOut.poll (feed.poll m) (m.served key index) index fan w)
  generalize FanOut.poll (feed.poll m) (m.served key index) index fan w = r at hpolled ⊢
  cases hpolled with
  | quiet hquiet =>
    have hlt : index < fan.copies.length := hp.length_eq ▸ hindex
    have hcopy := List.getElem?_eq_getElem hlt
    refine ⟨(hp.copies index _ hcopy).finished (hquiet _ hcopy), hshares hgiven ?_⟩
    rwa [Function.update_eq_self]
  | unserved hcopy hfinished hserved =>
    refine ⟨fun hprompt => ?_, hshares hgiven (hp.set hp.flowing (hp.copies index _ hcopy).begun)⟩
    simp [hprompt.served] at hserved
  | waiting hcopy hfinished _ hpending =>
    have heq := (hp.copies index _ hcopy).append_pending hfinished
    rw [hpending] at heq
    exact hshares hgiven (hp.set hp.flowing (.delivered heq (h.begins hgiven) hcut))
  | @shared copy c w' hcopy hfinished _ hpending hflowing hsource =>
    have heq := (hp.copies index _ hcopy).append_pending hfinished
    rw [hpending, List.append_nil] at heq
    rw [hsource] at hpoll
    have hnew : (Copy.delivered c []).Follows whole (given ++ [c]) (given ++ [c]) :=
      .delivered rfl (h.begins hpoll) hcut
    have hover : (!c.isError) = false → whole (given ++ [c]) := fun herror =>
      whole_of_failed (h.begins hpoll) hcut (failed_concat.2 (.inr (by simpa using herror)))
    exact hshares hpoll ((hp.offer c hover).set hover (heq ▸ hnew))
  | delayed hcopy hfinished _ _ _ hsource =>
    rw [hsource] at hpoll
    exact ⟨hpoll.1, hshares hpoll.2 (hp.set hp.flowing (hp.copies index _ hcopy).begun)⟩
  | ended hcopy hfinished _ hpending _ hsource =>
    have heq := (hp.copies index _ hcopy).append_pending hfinished
    rw [hpending, List.append_nil] at heq
    rw [hsource] at hpoll
    refine ⟨heq ▸ hpoll.1, hshares hpoll.2 ?_⟩
    exact hp.set (fun _ => hpoll.1) (.ended (heq ▸ hpoll.1))
  | exhausted hcopy hfinished _ hpending hflowing =>
    have heq := (hp.copies index _ hcopy).append_pending hfinished
    rw [hpending, List.append_nil] at heq
    have hwhole := hp.flowing hflowing
    exact ⟨heq ▸ hwhole, hshares hgiven (hp.set (fun _ => hwhole) (.ended (heq ▸ hwhole)))⟩

include h hindex hp in
/-- A poll of a copy reaches the source only when everything that the source has delivered
so far was delivered to that copy. -/
theorem paced_copy (key : String) (m : Moment) :
    Paced (fun p : FanOut α × W => taken p.2) total m (received index).length p
      ((feed.copy key count index).poll m p) := by
  obtain ⟨fan, w⟩ := p
  obtain ⟨given, hgiven, hp⟩ := hp
  have hpaced := h.paced (m := m) hgiven
  by_cases hcount : count = 1
  · obtain rfl : index = 0 := by omega
    rw [if_pos hcount] at hp
    rw [Feed.copy, if_pos hcount, hp]
    exact hpaced.map (Nat.le_refl _) rfl rfl id
  rw [if_neg hcount] at hp
  rw [Feed.copy, if_neg hcount]
  -- a copy that has nothing waiting has delivered what the source has
  have hlength : ∀ {copy : Copy α}, fan.copies[index]? = some copy → copy.finished = false →
      copy.pending = [] → given.length ≤ (received index).length := by
    intro copy hcopy hfinished hpending
    have heq := (hp.copies index _ hcopy).append_pending hfinished
    rw [hpending, List.append_nil] at heq
    exact Nat.le_of_eq (congrArg List.length heq.symm)
  have hpolled := FanOut.polled_poll (feed.poll m) (m.served key index) index fan w
  show Paced _ _ m _ _ (FanOut.poll (feed.poll m) (m.served key index) index fan w)
  generalize FanOut.poll (feed.poll m) (m.served key index) index fan w = r at hpolled ⊢
  cases hpolled with
  | quiet _ => exact .of_eq rfl
  | unserved _ _ _ => exact .of_eq rfl
  | waiting _ _ _ _ => exact .of_eq rfl
  | shared hcopy hfinished _ hpending _ hsource =>
    rw [hsource] at hpaced
    exact hpaced.map (hlength hcopy hfinished hpending) rfl rfl id
  | delayed hcopy hfinished _ hpending _ hsource =>
    rw [hsource] at hpaced
    exact hpaced.map (hlength hcopy hfinished hpending) rfl rfl id
  | ended hcopy hfinished _ hpending _ hsource =>
    rw [hsource] at hpaced
    exact hpaced.map (hlength hcopy hfinished hpending) rfl rfl id
  | exhausted _ _ _ _ _ => exact .of_eq rfl

end Shares

end Dataflow

import Dataflow.Stream.Lock

/-!
# The lock

Nothing is waiting for a copy that asks the source, whatever the other copies did since it
went for the lock: it has looked again under the lock, and nobody else can ask.  So each
step of a copy changes what the copies share as one poll in `FanOut.poll` does, and the
steps that only bring a copy closer to the lock are polls that are not served.

* `Readers.Advanced`: all that a step can do.
* `Readers.Locked`: who may wait for the lock and who may have it.
* `Readers.advance_eq_poll`, `Readers.poll_eq`: what single steps and whole polls amount to.
-/

namespace Dataflow

variable {W α : Type}

namespace FanOut

variable {index other : Nat} {fan : FanOut α} {copy : Copy α}

/-- A copy that was polled and is not through. -/
def Reading (index : Nat) (fan : FanOut α) : Prop :=
  ∃ copy, fan.copies[index]? = some copy ∧ copy.started = true ∧ copy.finished = false

theorem reading_congr {fan' : FanOut α} (h : fan'.copies[other]? = fan.copies[other]?)
    (hreading : fan.Reading other) : fan'.Reading other := by
  rwa [Reading, h]

@[simp] theorem getElem?_setCopy_ne (h : other ≠ index) :
    (fan.setCopy index copy).copies[other]? = fan.copies[other]? :=
  List.getElem?_set_ne (Ne.symm h)

@[simp] theorem getElem?_close_ne (h : other ≠ index) :
    (fan.close index).copies[other]? = fan.copies[other]? :=
  List.getElem?_set_ne (Ne.symm h)

@[simp] theorem getElem?_drop_ne (h : other ≠ index) :
    (fan.drop index).copies[other]? = fan.copies[other]? := by
  unfold drop
  split
  · rfl
  · exact getElem?_setCopy_ne h

theorem reading_share_ne (h : other ≠ index) (c : Chunk α) (hreading : fan.Reading other) :
    (fan.share index c).Reading other := by
  obtain ⟨copy, hcopy, hstarted, hfinished⟩ := hreading
  refine ⟨copy.offer c, ?_, hstarted, hfinished⟩
  rw [share, List.getElem?_set_ne (Ne.symm h), List.getElem?_map, hcopy]
  rfl

/-- A copy that was polled before is as it was when it has to wait once more. -/
theorem setCopy_begun (hcopy : fan.copies[index]? = some copy) (hstarted : copy.started = true) :
    fan.setCopy index copy.begun = fan := by
  have hbegun : copy.begun = copy := by rw [Copy.begun, ← hstarted]
  obtain ⟨hlt, hcopy⟩ := List.getElem?_eq_some_iff.1 hcopy
  rw [hbegun, setCopy, ← hcopy, List.set_getElem_self]

/-- A copy that is served gets the same whether it was polled before or not. -/
theorem poll_begun {source : W → Answer α × W} {w : W} (hcopy : fan.copies[index]? = some copy)
    (hfinished : copy.finished = false) (hpending : copy.pending = []) :
    poll source true index (fan.setCopy index copy.begun) w = poll source true index fan w := by
  have hbegun : (fan.setCopy index copy.begun).copies[index]? = some copy.begun := by
    simp [setCopy, (List.getElem?_eq_some_iff.1 hcopy).1]
  have hfinished' : copy.begun.finished = false := hfinished
  have hpending' : copy.begun.pending = [] := hpending
  simp only [poll, hcopy, hbegun, hfinished, hfinished', hpending, hpending']
  simp [setCopy, share, close, List.map_set, Copy.begun]

end FanOut

namespace Readers

variable {source : W → Answer α × W} {granted : Bool} {index other : Nat} {r : Readers W α}

/-- The chunks that wait for a copy. -/
def queued (index : Nat) (r : Readers W α) : List (Chunk α) :=
  (r.fan.copies[index]?.map Copy.pending).getD []

theorem queued_eq {copy : Copy α} (h : r.fan.copies[index]? = some copy) :
    r.queued index = copy.pending := by
  rw [queued, h]
  rfl

/-! ## What a step can do -/

/-- What a step of a copy can lead to. -/
inductive Advanced (source : W → Answer α × W) (granted : Bool) (index : Nat) (r : Readers W α) :
    Option (Answer α) × Readers W α → Prop
  /-- There is no such copy, or it is through. -/
  | quiet (h : ∀ copy, r.fan.copies[index]? = some copy → copy.finished = true) :
      Advanced source granted index r (some .ended, r)
  /-- The copy has the lock and has looked again. -/
  | asked {copy : Copy α} (hcopy : r.fan.copies[index]? = some copy)
      (hfinished : copy.finished = false) (hholder : r.holder = some ⟨index, true⟩) :
      Advanced source granted index r (some (r.ask source index).1, (r.ask source index).2)
  /-- The copy has the lock, and a chunk has come in since it went for it. -/
  | found {copy : Copy α} {c : Chunk α} {rest : List (Chunk α)}
      (hcopy : r.fan.copies[index]? = some copy) (hfinished : copy.finished = false)
      (hholder : r.holder = some ⟨index, false⟩) (hpending : copy.pending = c :: rest) :
      Advanced source granted index r (some (.chunk c),
        { r with fan := r.fan.setCopy index (Copy.delivered c rest), holder := none })
  /-- The copy has the lock, and there is still nothing for it. -/
  | looked {copy : Copy α} (hcopy : r.fan.copies[index]? = some copy)
      (hfinished : copy.finished = false) (hholder : r.holder = some ⟨index, false⟩)
      (hpending : copy.pending = []) :
      Advanced source granted index r (none, { r with holder := some ⟨index, true⟩ })
  /-- The copy gets the lock. -/
  | got {copy : Copy α} (hcopy : r.fan.copies[index]? = some copy)
      (hfinished : copy.finished = false) (hwaiting : index ∈ r.waiting)
      (hholder : r.holder = none) :
      Advanced source granted index r (none,
        { r with waiting := r.waiting.filter (· ≠ index), holder := some ⟨index, false⟩ })
  /-- The copy waits for the lock. -/
  | waits {copy : Copy α} (hcopy : r.fan.copies[index]? = some copy)
      (hfinished : copy.finished = false) (hwaiting : index ∈ r.waiting)
      (hholder : ∀ looked, r.holder ≠ some ⟨index, looked⟩)
      (hrefused : ¬(r.holder = none ∧ granted = true)) :
      Advanced source granted index r (some .pending, r)
  /-- A chunk waits for the copy. -/
  | taken {copy : Copy α} {c : Chunk α} {rest : List (Chunk α)}
      (hcopy : r.fan.copies[index]? = some copy) (hfinished : copy.finished = false)
      (hholder : ∀ looked, r.holder ≠ some ⟨index, looked⟩) (hwaiting : index ∉ r.waiting)
      (hpending : copy.pending = c :: rest) :
      Advanced source granted index r (some (.chunk c),
        { r with fan := r.fan.setCopy index (Copy.delivered c rest) })
  /-- The copy goes for the lock. -/
  | went {copy : Copy α} (hcopy : r.fan.copies[index]? = some copy)
      (hfinished : copy.finished = false) (hholder : ∀ looked, r.holder ≠ some ⟨index, looked⟩)
      (hwaiting : index ∉ r.waiting) (hpending : copy.pending = []) :
      Advanced source granted index r (none,
        { r with fan := r.fan.setCopy index copy.begun, waiting := index :: r.waiting })

theorem advanced_advance (source : W → Answer α × W) (granted : Bool) (index : Nat)
    (r : Readers W α) : Advanced source granted index r (r.advance source granted index) := by
  unfold advance
  split
  next hcopy => exact .quiet fun copy h => nomatch hcopy.symm.trans h
  next copy hcopy =>
    cases hfinished : copy.finished with
    | true =>
      refine .quiet fun other h => ?_
      obtain rfl : copy = other := Option.some.inj (hcopy.symm.trans h)
      exact hfinished
    | false =>
      rw [if_neg (by decide)]
      by_cases hasking : r.holder = some ⟨index, true⟩
      · rw [if_pos hasking]
        exact .asked hcopy hfinished hasking
      rw [if_neg hasking]
      by_cases hlooking : r.holder = some ⟨index, false⟩
      · rw [if_pos hlooking]
        split
        next c rest hpending => exact .found hcopy hfinished hlooking hpending
        next hpending => exact .looked hcopy hfinished hlooking hpending
      rw [if_neg hlooking]
      have hholder : ∀ looked, r.holder ≠ some ⟨index, looked⟩ := by
        intro looked
        cases looked with
        | true => exact hasking
        | false => exact hlooking
      by_cases hwaiting : index ∈ r.waiting
      · rw [if_pos hwaiting]
        split
        next hfree => exact .got hcopy hfinished hwaiting hfree.1
        next hrefused => exact .waits hcopy hfinished hwaiting hholder hrefused
      · rw [if_neg hwaiting]
        split
        next c rest hpending => exact .taken hcopy hfinished hholder hwaiting hpending
        next hpending => exact .went hcopy hfinished hholder hwaiting hpending

/-! ## Who has the lock -/

/-- Those that wait for the lock, and the one that has it, are read and are not through.
A copy that is about to ask the source has nothing waiting. -/
structure Locked (r : Readers W α) : Prop where
  waiting : ∀ index ∈ r.waiting, r.fan.Reading index
  holder : ∀ holder, r.holder = some holder →
    r.fan.Reading holder.index ∧ holder.index ∉ r.waiting
  looked : ∀ index, r.holder = some ⟨index, true⟩ → r.queued index = []

theorem locked_fresh (count : Nat) (w : W) : (fresh count w : Readers W α).Locked :=
  ⟨nofun, nofun, nofun⟩

namespace Locked

theorem ne_holder (h : r.Locked) {looked : Bool} (hother : other ∈ r.waiting)
    (hholder : r.holder = some ⟨index, looked⟩) : other ≠ index := by
  rintro rfl
  exact (h.holder _ hholder).2 hother

/-- The copy that has the lock gives it back, and nothing changes for those that wait. -/
theorem release (h : r.Locked) {looked : Bool} (hholder : r.holder = some ⟨index, looked⟩)
    {fan : FanOut α} {w : W}
    (hfan : ∀ other, other ≠ index → r.fan.Reading other → fan.Reading other) :
    ({ r with fan := fan, world := w, holder := none } : Readers W α).Locked :=
  ⟨fun other hother => hfan other (h.ne_holder hother hholder) (h.waiting other hother), nofun,
    nofun⟩

theorem ask (h : r.Locked) (hholder : r.holder = some ⟨index, true⟩) :
    (r.ask source index).2.Locked := by
  have hclose : ∀ other, other ≠ index → r.fan.Reading other → (r.fan.close index).Reading other :=
    fun other hother => FanOut.reading_congr (FanOut.getElem?_close_ne hother)
  unfold Readers.ask
  split
  · split
    next c w' _ => exact h.release hholder fun other hother => FanOut.reading_share_ne hother c
    next => exact h.release hholder hclose
    next => exact ⟨h.waiting, h.holder, h.looked⟩
  · exact h.release hholder hclose

/-- A copy that has nothing to do with the lock is replaced. -/
theorem setCopy (h : r.Locked) (hwaiting : index ∉ r.waiting)
    (hholder : ∀ looked, r.holder ≠ some ⟨index, looked⟩) (copy : Copy α) :
    ({ r with fan := r.fan.setCopy index copy } : Readers W α).Locked where
  waiting other hother := by
    have hne : other ≠ index := fun heq => hwaiting (heq ▸ hother)
    exact FanOut.reading_congr (FanOut.getElem?_setCopy_ne hne) (h.waiting other hother)
  holder holder heq := by
    have hne : holder.index ≠ index := fun hindex => hholder holder.looked (hindex ▸ heq)
    have := h.holder holder heq
    exact ⟨FanOut.reading_congr (FanOut.getElem?_setCopy_ne hne) this.1, this.2⟩
  looked other heq := by
    have hne : other ≠ index := fun hindex => hholder true (hindex ▸ heq)
    rw [queued, FanOut.getElem?_setCopy_ne hne]
    exact h.looked other heq

theorem advance (h : r.Locked) (source : W → Answer α × W) (granted : Bool) (index : Nat) :
    (r.advance source granted index).2.Locked := by
  have hadvanced := advanced_advance source granted index r
  generalize r.advance source granted index = result at hadvanced ⊢
  cases hadvanced with
  | quiet _ => exact h
  | asked _ _ hholder => exact h.ask hholder
  | found _ _ hholder _ =>
    exact h.release hholder fun other hother =>
      FanOut.reading_congr (FanOut.getElem?_setCopy_ne hother)
  | looked hcopy _ hholder hpending =>
    refine ⟨h.waiting, fun holder heq => ?_, fun other heq => ?_⟩
    · cases heq
      exact h.holder ⟨index, false⟩ hholder
    · cases heq
      exact (queued_eq hcopy).trans hpending
  | got _ _ hwaiting _ =>
    refine ⟨fun other hother => h.waiting other (List.mem_filter.1 hother).1, ?_, nofun⟩
    intro holder heq
    cases heq
    exact ⟨h.waiting index hwaiting, by simp⟩
  | waits _ _ _ _ _ => exact h
  | taken _ _ hholder hwaiting _ => exact h.setCopy hwaiting hholder _
  | @went copy hcopy hfinished hholder hwaiting _ =>
    have hset := h.setCopy hwaiting hholder copy.begun
    refine ⟨fun other hother => ?_, fun holder heq => ?_, hset.looked⟩
    · rcases List.mem_cons.1 hother with rfl | hother
      · have hlt := (List.getElem?_eq_some_iff.1 hcopy).1
        exact ⟨copy.begun, by simp [FanOut.setCopy, hlt], rfl, hfinished⟩
      · exact hset.waiting other hother
    · have hne : holder.index ≠ index := fun hindex => hholder holder.looked (hindex ▸ heq)
      have := hset.holder holder heq
      exact ⟨this.1, by simpa [hne] using this.2⟩

/-- A copy that is dropped has no part in the lock any more. -/
theorem drop (h : r.Locked) (index : Nat) : (r.drop index).Locked where
  waiting other hother := by
    simp only [Readers.drop, List.mem_filter, decide_eq_true_eq] at hother
    exact FanOut.reading_congr (FanOut.getElem?_drop_ne hother.2) (h.waiting other hother.1)
  holder holder heq := by
    obtain ⟨heq, hne⟩ := Option.filter_eq_some_iff.1 heq
    have hne : holder.index ≠ index := by simpa using hne
    have hholder := h.holder holder heq
    refine ⟨FanOut.reading_congr (FanOut.getElem?_drop_ne hne) hholder.1, fun hmem => ?_⟩
    exact hholder.2 (List.mem_filter.1 hmem).1
  looked other heq := by
    obtain ⟨heq, hne⟩ := Option.filter_eq_some_iff.1 heq
    have hne : other ≠ index := by simpa using hne
    show ((r.fan.drop index).copies[other]?.map Copy.pending).getD [] = []
    rw [FanOut.getElem?_drop_ne hne]
    exact h.looked other heq

end Locked

/-! ## What steps and polls amount to -/

/-- Whether the next step of a copy is served: it delivers what waits, or it asks. -/
def serves (index : Nat) (r : Readers W α) : Bool :=
  r.holder = some ⟨index, true⟩ ∨ index ∉ r.waiting ∧ r.queued index ≠ []

/-- A step of a copy is a poll of that copy. -/
theorem advance_eq_poll (h : r.Locked) (source : W → Answer α × W) (granted : Bool)
    (index : Nat) :
    FanOut.poll source (r.serves index) index r.fan r.world =
      ((r.advance source granted index).1.getD .pending,
        (r.advance source granted index).2.fan, (r.advance source granted index).2.world) := by
  have hadvanced := advanced_advance source granted index r
  generalize r.advance source granted index = result at hadvanced ⊢
  -- a copy that is not served and was polled before leaves everything as it is
  have hstays : ∀ {copy : Copy α}, r.fan.copies[index]? = some copy → copy.finished = false →
      r.fan.Reading index → r.serves index = false →
        FanOut.poll source (r.serves index) index r.fan r.world = (.pending, r.fan, r.world) := by
    intro copy hcopy hfinished hreading hserves
    obtain ⟨other, hother, hstarted, _⟩ := hreading
    obtain rfl : copy = other := Option.some.inj (hcopy.symm.trans hother)
    simp [FanOut.poll, hcopy, hfinished, hserves, FanOut.setCopy_begun hcopy hstarted]
  cases hadvanced with
  | quiet hquiet =>
    unfold FanOut.poll
    split
    · rfl
    next copy hcopy => rw [if_pos (hquiet copy hcopy)]; rfl
  | @asked copy hcopy hfinished hholder =>
    have hserves : r.serves index = true := by simp [serves, hholder]
    have hpending : copy.pending = [] := (queued_eq hcopy).symm.trans (h.looked index hholder)
    obtain ⟨other, hother, hstarted, _⟩ := (h.holder _ hholder).1
    obtain rfl : copy = other := Option.some.inj (hcopy.symm.trans hother)
    unfold FanOut.poll ask
    simp only [hcopy, hfinished, hserves, hpending]
    cases r.fan.flowing with
    | false => rfl
    | true =>
      obtain ⟨answer, w'⟩ := source r.world
      cases answer with
      | chunk c => rfl
      | ended => rfl
      | pending => simp [FanOut.setCopy_begun hcopy hstarted]
  | found hcopy hfinished hholder hpending =>
    have hwaiting := (h.holder _ hholder).2
    have hserves : r.serves index = true := by
      simp [serves, hwaiting, queued_eq hcopy, hpending]
    simp [FanOut.poll, hcopy, hfinished, hserves, hpending]
  | looked hcopy hfinished hholder hpending =>
    refine hstays hcopy hfinished (h.holder _ hholder).1 ?_
    simp [serves, hholder, queued_eq hcopy, hpending]
  | got hcopy hfinished hwaiting hholder =>
    exact hstays hcopy hfinished (h.waiting index hwaiting) (by simp [serves, hholder, hwaiting])
  | waits hcopy hfinished hwaiting hholder _ =>
    exact hstays hcopy hfinished (h.waiting index hwaiting) (by simp [serves, hholder, hwaiting])
  | taken hcopy hfinished hholder hwaiting hpending =>
    have hserves : r.serves index = true := by
      simp [serves, hwaiting, queued_eq hcopy, hpending]
    simp [FanOut.poll, hcopy, hfinished, hserves, hpending]
  | went hcopy hfinished hholder hwaiting hpending =>
    have hserves : r.serves index = false := by
      simp [serves, hholder, queued_eq hcopy, hpending]
    simp [FanOut.poll, hcopy, hfinished, hserves]

/-- How many steps it takes a copy to have an answer if it gets the lock at once. -/
def stepsLeft (index : Nat) (r : Readers W α) : Nat :=
  if r.holder = some ⟨index, true⟩ then 1
  else if r.holder = some ⟨index, false⟩ then 2
  else if index ∈ r.waiting then 3
  else 4

theorem stepsLeft_le (index : Nat) (r : Readers W α) : r.stepsLeft index ≤ 4 := by
  grind [stepsLeft]

theorem pollWithin_eq (source : W → Answer α × W) {steps : Nat} (h : r.Locked)
    (hfree : ∀ holder, r.holder = some holder → holder.index = index)
    (hsteps : r.stepsLeft index ≤ steps) :
    FanOut.poll source true index r.fan r.world =
      ((r.pollWithin source index steps).1, (r.pollWithin source index steps).2.fan,
        (r.pollWithin source index steps).2.world) := by
  induction steps generalizing r with
  | zero => grind [stepsLeft]
  | succ steps ih =>
    have hadvanced := advanced_advance source true index r
    have hpoll := advance_eq_poll h source true index
    have hlocked := h.advance source true index
    unfold pollWithin
    generalize r.advance source true index = result at hadvanced hpoll hlocked ⊢
    cases hadvanced with
    | quiet hquiet =>
      unfold FanOut.poll
      split
      · rfl
      next copy hcopy => rw [if_pos (hquiet copy hcopy)]
    | asked _ _ hholder =>
      rwa [show r.serves index = true by simp [serves, hholder]] at hpoll
    | found hcopy _ hholder hpending =>
      have hwaiting := (h.holder _ hholder).2
      rwa [show r.serves index = true by simp [serves, hwaiting, queued_eq hcopy, hpending]]
        at hpoll
    | taken hcopy _ _ hwaiting hpending =>
      rwa [show r.serves index = true by simp [serves, hwaiting, queued_eq hcopy, hpending]]
        at hpoll
    | waits _ _ hwaiting hholder hrefused =>
      cases hholder : r.holder with
      | none => exact absurd ⟨hholder, rfl⟩ hrefused
      | some holder => exact absurd (hfree holder hholder ▸ hwaiting) (h.holder _ hholder).2
    | looked _ _ hholder _ =>
      refine ih hlocked (fun _ heq => by cases heq; rfl) ?_
      simp [stepsLeft, hholder] at hsteps ⊢
      omega
    | got _ _ hwaiting hholder =>
      refine ih hlocked (fun _ heq => by cases heq; rfl) ?_
      simp [stepsLeft, hholder, hwaiting] at hsteps ⊢
      omega
    | went hcopy hfinished hholder hwaiting hpending =>
      refine (FanOut.poll_begun hcopy hfinished hpending).symm.trans (ih hlocked hfree ?_)
      simp [stepsLeft, hholder, hwaiting] at hsteps ⊢
      omega

/-- A poll that no other copy comes between is a poll of a copy that is served, unless
another copy has the lock. -/
theorem poll_eq (h : r.Locked) (source : W → Answer α × W)
    (hfree : ∀ holder, r.holder = some holder → holder.index = index) :
    FanOut.poll source true index r.fan r.world =
      ((r.poll source index).1, (r.poll source index).2.fan, (r.poll source index).2.world) :=
  pollWithin_eq source h hfree (r.stepsLeft_le index)

end Readers

end Dataflow

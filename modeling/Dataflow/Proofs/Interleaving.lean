import Dataflow.Proofs.Lists
import Dataflow.Stream.Feed
import Mathlib.Data.List.Perm.Basic

/-!
# Interleavings

The lists that merging can make of several lists: all of their entries, those of
each list in order.

A stream ends at its first error, so what comes out of a network is an
interleaving only up to there.  `Weaves` says this of a list of chunks, and it is
kept by all that a network does to streams: a function is applied to every chunk
(`Weaves.upTo`), and streams are merged (`weaves_of_interleaves`).

* `Interleaves.concat`, `Interleaves.exists_extension`: interleavings that go on.
* `Interleaves.flatten`: an interleaving of interleavings is an interleaving.
* `exists_interleaves_of_cut`: what was cut off can be filled in.
* `Weaves.interleaves`, `Weaves.broken`: a weave without and with errors.
-/

namespace Dataflow

variable {α β : Type}

/-! ## Interleavings -/

/-- All entries of some lists, those of each list in order. -/
inductive Interleaves : List (List α) → List α → Prop
  /-- Nothing is left of any list. -/
  | nil {lists : List (List α)} (h : ∀ list ∈ lists, list = []) : Interleaves lists []
  /-- The next entry is the first of some list. -/
  | cons (before : List (List α)) {after : List (List α)} {a : α} {list merged : List α}
      (h : Interleaves (before ++ list :: after) merged) :
      Interleaves (before ++ (a :: list) :: after) (a :: merged)

namespace Interleaves

theorem singleton (list : List α) : Interleaves [list] list := by
  induction list with
  | nil => exact .nil fun list h => List.mem_singleton.1 h
  | cons a list ih => exact cons [] ih

/-- The order of the lists does not matter. -/
theorem perm {lists lists' : List (List α)} {merged : List α} (h : Interleaves lists merged)
    (hperm : lists.Perm lists') : Interleaves lists' merged := by
  induction h generalizing lists' with
  | nil hnil => exact .nil fun list hlist => hnil list (hperm.mem_iff.2 hlist)
  | @cons before after a list merged _ ih =>
    obtain ⟨before', after', rfl⟩ := List.append_of_mem (hperm.mem_iff.1
      (List.mem_append_right before List.mem_cons_self))
    have hrest : (before ++ after).Perm (before' ++ after') :=
      (List.perm_middle.symm.trans (hperm.trans List.perm_middle)).cons_inv
    exact cons _ (ih (List.perm_middle.trans ((hrest.cons list).trans List.perm_middle.symm)))

/-- Lists without entries add nothing. -/
theorem nil_cons {lists : List (List α)} {merged : List α} (h : Interleaves lists merged) :
    Interleaves ([] :: lists) merged := by
  induction h with
  | nil hnil => exact .nil fun list hlist => (List.mem_cons.1 hlist).elim id (hnil list)
  | @cons before after a list merged _ ih => exact cons ([] :: before) ih

theorem map (f : α → β) {lists : List (List α)} {merged : List α}
    (h : Interleaves lists merged) : Interleaves (lists.map (List.map f)) (merged.map f) := by
  induction h with
  | nil hnil =>
    refine .nil fun mapped hmapped => ?_
    obtain ⟨list, hlist, rfl⟩ := List.mem_map.1 hmapped
    rw [hnil list hlist]
    rfl
  | @cons before after a list merged _ ih =>
    rw [List.map_append, List.map_cons] at ih ⊢
    exact cons _ ih

/-- Nothing is lost and nothing is duplicated. -/
theorem perm_flatten {lists : List (List α)} {merged : List α} (h : Interleaves lists merged) :
    merged.Perm lists.flatten := by
  induction h with
  | nil hnil => rw [List.flatten_eq_nil_iff.2 hnil]
  | @cons before after a list merged _ ih =>
    rw [List.flatten_append, List.flatten_cons] at ih ⊢
    exact (ih.cons a).trans List.perm_middle.symm

/-- One of the interleavings of some lists. -/
theorem of_flatten (lists : List (List α)) : Interleaves lists lists.flatten := by
  induction lists with
  | nil => exact .nil nofun
  | cons list lists ih =>
    rw [List.flatten_cons]
    induction list with
    | nil => exact ih.nil_cons
    | cons a list ih' => exact cons [] ih'

/-- An interleaving of interleavings is an interleaving. -/
theorem flatten {groups : List (List (List α))} {lists : List (List α)} {merged : List α}
    (hgroups : List.Forall₂ Interleaves groups lists) (h : Interleaves lists merged) :
    Interleaves groups.flatten merged := by
  induction h generalizing groups with
  | nil hnil =>
    refine .nil fun list hlist => ?_
    obtain ⟨group, hgroup, hlist⟩ := List.mem_flatten.1 hlist
    obtain ⟨merged, hmerged, hgroup⟩ := exists_right_of_forall₂ hgroups hgroup
    have hperm := hgroup.perm_flatten
    rw [hnil merged hmerged] at hperm
    exact List.flatten_eq_nil_iff.1 hperm.nil_eq.symm list hlist
  | @cons before after a list merged _ ih =>
    obtain ⟨gbefore, group, gafter, rfl, hbefore, hgroup, hafter⟩ := forall₂_append_cons hgroups
    generalize heq : a :: list = first at hgroup
    cases hgroup with
    | nil hnil => exact nomatch heq
    | @cons before' after' b list' rest hrest =>
      obtain ⟨rfl, rfl⟩ := List.cons.inj heq
      have := ih (List.rel_append hbefore (.cons hrest hafter))
      simp only [List.flatten_append, List.flatten_cons, List.append_assoc,
        List.cons_append] at this ⊢
      rw [← List.append_assoc] at this ⊢
      exact cons _ this

/-- The beginning of an interleaving interleaves beginnings of the lists. -/
theorem exists_prefixes {lists : List (List α)} {merged : List α} (h : Interleaves lists merged)
    {items rest : List α} (hsplit : merged = items ++ rest) :
    ∃ prefixes, List.Forall₂ (· <+: ·) prefixes lists ∧ Interleaves prefixes items := by
  induction items generalizing lists merged with
  | nil =>
    refine ⟨lists.map fun _ => [], ?_, .nil fun list hlist => ?_⟩
    · rw [List.forall₂_map_left_iff]
      exact List.forall₂_same.2 fun list _ => List.nil_prefix
    · obtain ⟨_, _, rfl⟩ := List.mem_map.1 hlist
      rfl
  | cons a items ih =>
    subst hsplit
    cases h with
    | @cons before after _ list merged h =>
      obtain ⟨prefixes, hprefixes, hitems⟩ := ih h rfl
      obtain ⟨before', list', after', rfl, hbefore, hlist, hafter⟩ := forall₂_append_cons hprefixes
      refine ⟨before' ++ (a :: list') :: after', ?_, cons _ hitems⟩
      exact List.rel_append hbefore (.cons ((List.prefix_cons_inj a).2 hlist) hafter)

/-- The first list goes on, and so does what was merged. -/
theorem cons_concat {list merged : List α} {others : List (List α)}
    (h : Interleaves (list :: others) merged) (a : α) :
    Interleaves ((list ++ [a]) :: others) (merged ++ [a]) := by
  generalize hlists : list :: others = lists at h
  induction h generalizing list others with
  | nil hnil =>
    subst hlists
    obtain ⟨rfl, hothers⟩ := List.forall_mem_cons.1 hnil
    exact cons [] (.nil (List.forall_mem_cons.2 ⟨rfl, hothers⟩))
  | @cons before after b first merged _ ih =>
    cases before with
    | nil =>
      obtain ⟨rfl, rfl⟩ := List.cons.inj hlists
      exact cons [] (ih rfl)
    | cons other before =>
      obtain ⟨rfl, rfl⟩ := List.cons.inj hlists
      exact cons ((list ++ [a]) :: before) (ih rfl)

/-- Lists that go on can be merged by going on. -/
theorem exists_extension {lists lists' : List (List α)} {merged : List α}
    (h : Interleaves lists merged) (hext : List.Forall₂ (· <+: ·) lists lists') :
    ∃ merged', merged <+: merged' ∧ Interleaves lists' merged' := by
  induction h generalizing lists' with
  | nil _ => exact ⟨lists'.flatten, List.nil_prefix, of_flatten lists'⟩
  | @cons before after a list merged _ ih =>
    obtain ⟨before', list', after', rfl, hbefore, hlist, hafter⟩ := forall₂_append_cons hext.flip
    obtain ⟨rest, rfl⟩ := hlist
    have hnext : List.Forall₂ (· <+: ·) (before ++ list :: after)
        (before' ++ (list ++ rest) :: after') :=
      List.rel_append hbefore.flip (.cons (List.prefix_append list rest) hafter.flip)
    obtain ⟨merged', hmerged, hinterleaves⟩ := ih hnext
    exact ⟨a :: merged', (List.prefix_cons_inj a).2 hmerged, cons before' hinterleaves⟩

/-- There is nothing to merge a single list with. -/
theorem eq_of_singleton {list merged : List α} (h : Interleaves [list] merged) :
    merged = list := by
  generalize hlists : [list] = lists at h
  induction h generalizing list with
  | nil hnil =>
    subst hlists
    exact (hnil list List.mem_cons_self).symm
  | @cons before after a first merged _ ih =>
    cases before with
    | nil =>
      obtain ⟨rfl, rfl⟩ := List.cons.inj hlists
      rw [ih rfl]
    | cons other before => simp at hlists

end Interleaves

/-! ## Up to the first error -/

/-- There is an error among some chunks. -/
def Failed (chunks : List (Chunk α)) : Prop := ∃ chunk ∈ chunks, chunk.isError = true

theorem failed_iff {chunks : List (Chunk α)} : Failed chunks ↔ ∃ e, .error e ∈ chunks := by
  refine ⟨fun ⟨chunk, hchunk, herror⟩ => ?_, fun ⟨e, he⟩ => ⟨_, he, rfl⟩⟩
  cases chunk with
  | ok a => cases herror
  | error e => exact ⟨e, hchunk⟩

theorem not_failed_iff {chunks : List (Chunk α)} :
    ¬Failed chunks ↔ ∀ chunk ∈ chunks, chunk.isError = false := by
  simp [Failed]

theorem not_failed_nil : ¬Failed ([] : List (Chunk α)) := by simp [Failed]

theorem failed_concat {chunks : List (Chunk α)} {chunk : Chunk α} :
    Failed (chunks ++ [chunk]) ↔ Failed chunks ∨ chunk.isError = true := by
  simp [Failed, or_and_right, exists_or]

theorem Failed.mono {chunks chunks' : List (Chunk α)} (h : Failed chunks)
    (hsub : chunks ⊆ chunks') : Failed chunks' :=
  h.imp fun _ => And.imp_left (hsub ·)

/-- A list of chunks up to its first error. -/
def cut : List (Chunk α) → List (Chunk α)
  | [] => []
  | .ok a :: rest => .ok a :: cut rest
  | .error e :: _ => [.error e]

/-- What a function makes of some chunks, up to the first error. -/
def upTo (f : α → Except Error β) (chunks : List (Chunk α)) : List (Chunk β) :=
  cut (chunks.map fun chunk => chunk.bind f)

theorem upTo_cut (f : α → Except Error β) (chunks : List (Chunk α)) :
    upTo f (cut chunks) = upTo f chunks := by
  unfold upTo
  induction chunks with
  | nil => rfl
  | cons chunk rest ih =>
    cases chunk with
    | error e => rfl
    | ok a =>
      rw [cut, List.map_cons, List.map_cons]
      cases hf : (Except.ok a : Chunk α).bind f with
      | ok b => exact congrArg (.ok b :: ·) ih
      | error e => rfl

theorem cut_cut (chunks : List (Chunk α)) : cut (cut chunks) = cut chunks := by
  induction chunks with
  | nil => rfl
  | cons chunk rest ih =>
    cases chunk with
    | ok a => exact congrArg (.ok a :: ·) ih
    | error e => rfl

theorem prefix_cut (chunks : List (Chunk α)) : cut chunks <+: chunks := by
  induction chunks with
  | nil => exact List.prefix_rfl
  | cons chunk rest ih =>
    cases chunk with
    | ok a => exact (List.prefix_cons_inj _).2 ih
    | error e => exact ⟨rest, rfl⟩

theorem cut_upTo (f : α → Except Error β) (chunks : List (Chunk α)) :
    cut (upTo f chunks) = upTo f chunks := cut_cut _

theorem upTo_ok (chunks : List (Chunk α)) : upTo .ok chunks = cut chunks := by
  have hbind : ∀ chunk ∈ chunks, chunk.bind .ok = chunk := by
    intro chunk _
    cases chunk <;> rfl
  rw [upTo, List.map_congr_left hbind, List.map_id']

/-- One function after another is one function. -/
theorem upTo_upTo {γ : Type} (f : α → Except Error β) (g : β → Except Error γ)
    (chunks : List (Chunk α)) : upTo g (upTo f chunks) = upTo (fun a => (f a).bind g) chunks := by
  show upTo g (cut _) = _
  rw [upTo_cut]
  unfold upTo
  rw [List.map_map]
  congr 1
  refine List.map_congr_left fun chunk _ => ?_
  cases chunk <;> rfl

/-- Behind an error nothing is seen. -/
theorem cut_append_of_failed {chunks : List (Chunk α)} (h : Failed chunks)
    (rest : List (Chunk α)) : cut (chunks ++ rest) = cut chunks := by
  induction chunks with
  | nil =>
    obtain ⟨_, hmem, _⟩ := h
    exact nomatch hmem
  | cons chunk chunks ih =>
    cases chunk with
    | error e => rfl
    | ok a =>
      obtain ⟨chunk, hmem, herror⟩ := h
      rcases List.mem_cons.1 hmem with rfl | hmem
      · exact nomatch herror
      · exact congrArg (.ok a :: ·) (ih ⟨chunk, hmem, herror⟩)

theorem cut_append_of_not_failed {chunks : List (Chunk α)} (h : ¬Failed chunks)
    (rest : List (Chunk α)) : cut (chunks ++ rest) = chunks ++ cut rest := by
  rw [not_failed_iff] at h
  induction chunks with
  | nil => rfl
  | cons chunk chunks ih =>
    obtain ⟨hchunk, hchunks⟩ := List.forall_mem_cons.1 h
    cases chunk with
    | ok a => exact congrArg (.ok a :: ·) (ih hchunks)
    | error e => exact nomatch hchunk

theorem cut_eq_self {chunks : List (Chunk α)} (h : ¬Failed chunks) : cut chunks = chunks := by
  simpa [cut] using cut_append_of_not_failed h []

theorem failed_cut {chunks : List (Chunk α)} : Failed (cut chunks) ↔ Failed chunks := by
  refine ⟨fun h => h.mono (prefix_cut chunks).subset, fun h => ?_⟩
  by_contra hcut
  -- without an error in it the cut is no shorter than the chunks
  have hself : cut chunks = chunks := by
    obtain ⟨rest, hrest⟩ := prefix_cut chunks
    have := cut_append_of_not_failed hcut rest
    rw [hrest] at this
    cases rest with
    | nil => rwa [List.append_nil] at hrest
    | cons chunk rest => cases chunk <;> simp [cut] at this
  exact hcut (hself.symm ▸ h)

/-- Chunks that go on, as far as they are seen. -/
theorem prefix_cut_of_prefix {chunks chunks' : List (Chunk α)} (h : chunks <+: chunks') :
    cut chunks <+: cut chunks' := by
  obtain ⟨rest, rfl⟩ := h
  by_cases hfailed : Failed chunks
  · exact ⟨[], by rw [List.append_nil, cut_append_of_failed hfailed]⟩
  · rw [cut_append_of_not_failed hfailed, cut_eq_self hfailed]
    exact List.prefix_append _ _

/-- Chunks that end with an error do not go on. -/
theorem eq_of_prefix_of_failed {chunks full : List (Chunk α)} (h : chunks <+: full)
    (hcut : cut full = full) (hfailed : Failed chunks) : chunks = full := by
  obtain ⟨rest, rfl⟩ := h
  rw [cut_append_of_failed hfailed] at hcut
  refine (List.prefix_append chunks rest).eq_of_length_le ?_
  rw [← hcut]
  exact (prefix_cut chunks).length_le

theorem failed_upTo {chunks : List (Chunk α)} (h : Failed chunks) (f : α → Except Error β) :
    Failed (upTo f chunks) := by
  obtain ⟨chunk, hmem, herror⟩ := h
  refine failed_cut.2 ⟨chunk.bind f, List.mem_map_of_mem hmem, ?_⟩
  cases chunk with
  | ok a => exact nomatch herror
  | error e => rfl

theorem prefix_upTo {chunks chunks' : List (Chunk α)} (h : chunks <+: chunks')
    (f : α → Except Error β) : upTo f chunks <+: upTo f chunks' :=
  prefix_cut_of_prefix (h.map _)

/-- What a function makes of one chunk more. -/
theorem upTo_concat {f : α → Except Error β} {chunks : List (Chunk α)}
    (h : ¬Failed (upTo f chunks)) (chunk : Chunk α) :
    upTo f (chunks ++ [chunk]) = upTo f chunks ++ [chunk.bind f] := by
  have hmade : ¬Failed (chunks.map fun chunk => chunk.bind f) := mt failed_cut.2 h
  have hlast : cut [chunk.bind f] = [chunk.bind f] := by
    cases chunk.bind f <;> rfl
  rw [upTo, upTo, List.map_append, List.map_singleton, cut_append_of_not_failed hmade,
    cut_eq_self hmade, hlast]

/-- Without an error there is something for every chunk. -/
theorem length_upTo {f : α → Except Error β} {chunks : List (Chunk α)}
    (h : ¬Failed (upTo f chunks)) : (upTo f chunks).length = chunks.length := by
  rw [upTo, cut_eq_self (mt failed_cut.2 h), List.length_map]

/-- The first error with all that stands in front of it. -/
theorem exists_of_cut {chunks : List (Chunk α)} (h : Failed chunks) :
    ∃ (items : List α) (e : Error) (rest : List (Chunk α)),
      chunks = items.map .ok ++ .error e :: rest ∧ cut chunks = items.map .ok ++ [.error e] := by
  induction chunks with
  | nil =>
    obtain ⟨_, hmem, _⟩ := h
    exact nomatch hmem
  | cons chunk rest ih =>
    cases chunk with
    | error e => exact ⟨[], e, rest, rfl, rfl⟩
    | ok a =>
      obtain ⟨chunk, hmem, herror⟩ := h
      rcases List.mem_cons.1 hmem with rfl | hmem
      · exact nomatch herror
      · obtain ⟨items, e, rest', hrest, hcut⟩ := ih ⟨chunk, hmem, herror⟩
        exact ⟨a :: items, e, rest', by rw [hrest]; rfl, by rw [cut, hcut]; rfl⟩

/-- What was cut off can be filled in behind the first error. -/
theorem exists_interleaves_of_cut {lists : List (List (Chunk α))} {merged : List (Chunk α)}
    (h : Interleaves (lists.map cut) merged) :
    ∃ full, Interleaves lists full ∧ cut full = cut merged := by
  generalize hlists : lists.map cut = cuts at h
  induction h generalizing lists with
  | nil hnil =>
    subst hlists
    refine ⟨[], .nil fun list hlist => ?_, rfl⟩
    have := hnil (cut list) (List.mem_map_of_mem hlist)
    cases list with
    | nil => rfl
    | cons chunk rest => cases chunk <;> exact nomatch this
  | @cons before after chunk list merged _ ih =>
    obtain ⟨before', rest, rfl, rfl, hrest⟩ := List.map_eq_append_iff.1 hlists
    obtain ⟨first, after', rfl, hfirst, rfl⟩ := List.map_eq_cons_iff.1 hrest
    cases first with
    | nil => exact nomatch hfirst
    | cons chunk' first =>
      cases chunk' with
      | error e =>
        -- nothing behind the error is seen, so the rest may come in any order
        obtain ⟨rfl, rfl⟩ := List.cons.inj hfirst
        exact ⟨_, .cons _ (Interleaves.of_flatten _), rfl⟩
      | ok a =>
        obtain ⟨rfl, rfl⟩ := List.cons.inj hfirst
        have hrest : (before' ++ first :: after').map cut =
            before'.map cut ++ cut first :: after'.map cut := by simp
        obtain ⟨full, hfull, hcut⟩ := ih hrest
        exact ⟨_, .cons _ hfull, by rw [cut, cut, hcut]⟩

/-! ## Weaves -/

/-- An interleaving of some lists up to its first error. -/
def Weaves (lists : List (List (Chunk α))) (chunks : List (Chunk α)) : Prop :=
  ∃ merged, Interleaves lists merged ∧ chunks = cut merged

theorem weaves_singleton (list : List (Chunk α)) : Weaves [list] (cut list) :=
  ⟨list, .singleton list, rfl⟩

/-- A function is applied to all chunks alike. -/
theorem Weaves.upTo {lists : List (List (Chunk α))} {chunks : List (Chunk α)}
    (h : Weaves lists chunks) (f : α → Except Error β) :
    Weaves (lists.map (List.map fun chunk => chunk.bind f)) (Dataflow.upTo f chunks) := by
  obtain ⟨merged, hmerged, rfl⟩ := h
  exact ⟨_, hmerged.map _, upTo_cut f merged⟩

/-- Merging weaves makes a weave of all their lists. -/
theorem weaves_of_interleaves {groups : List (List (List (Chunk α)))}
    {lists : List (List (Chunk α))} {merged : List (Chunk α)}
    (h : List.Forall₂ Weaves groups lists) (hmerged : Interleaves lists merged) :
    Weaves groups.flatten (cut merged) := by
  have hcut : ∃ fulls, List.Forall₂ Interleaves groups fulls ∧ lists = fulls.map cut := by
    clear hmerged
    induction h with
    | nil => exact ⟨[], .nil, rfl⟩
    | cons hhead _ ih =>
      obtain ⟨full, hfull, rfl⟩ := hhead
      obtain ⟨fulls, hfulls, rfl⟩ := ih
      exact ⟨full :: fulls, .cons hfull hfulls, rfl⟩
  obtain ⟨fulls, hfulls, rfl⟩ := hcut
  obtain ⟨full, hfull, hcut⟩ := exists_interleaves_of_cut hmerged
  exact ⟨full, .flatten hfulls hfull, hcut.symm⟩

theorem Weaves.cut_eq {lists : List (List (Chunk α))} {chunks : List (Chunk α)}
    (h : Weaves lists chunks) : cut chunks = chunks := by
  obtain ⟨merged, _, rfl⟩ := h
  exact cut_cut merged

/-- What is woven comes from one of the lists. -/
theorem Weaves.mem {lists : List (List (Chunk α))} {chunks : List (Chunk α)}
    (h : Weaves lists chunks) {chunk : Chunk α} (hchunk : chunk ∈ chunks) :
    ∃ list ∈ lists, chunk ∈ list := by
  obtain ⟨merged, hmerged, rfl⟩ := h
  have hmem : chunk ∈ merged := (prefix_cut merged).mem hchunk
  exact List.mem_flatten.1 (hmerged.perm_flatten.mem_iff.1 hmem)

/-- A weave of lists without errors is an interleaving of them. -/
theorem Weaves.interleaves {lists : List (List (Chunk α))} {chunks : List (Chunk α)}
    (h : Weaves lists chunks) (hok : ∀ list ∈ lists, ¬Failed list) :
    Interleaves lists chunks := by
  obtain ⟨merged, hmerged, rfl⟩ := h
  rwa [cut_eq_self]
  rintro ⟨chunk, hchunk, herror⟩
  obtain ⟨list, hlist, hmem⟩ := List.mem_flatten.1 (hmerged.perm_flatten.mem_iff.1 hchunk)
  exact hok list hlist ⟨chunk, hmem, herror⟩

/-- A weave of lists with errors ends with one of them, and what comes before
interleaves beginnings of the lists. -/
theorem Weaves.broken {lists : List (List (Chunk α))} {chunks : List (Chunk α)}
    (h : Weaves lists chunks) (herror : ∃ list ∈ lists, Failed list) :
    ∃ (items : List α) (e : Error), chunks = items.map .ok ++ [.error e] ∧
      (∃ list ∈ lists, .error e ∈ list) ∧
      ∃ prefixes, List.Forall₂ (· <+: ·) prefixes lists ∧ Interleaves prefixes (items.map .ok) := by
  obtain ⟨merged, hmerged, rfl⟩ := h
  have hmem : ∀ chunk, chunk ∈ merged ↔ ∃ list ∈ lists, chunk ∈ list := fun chunk =>
    hmerged.perm_flatten.mem_iff.trans List.mem_flatten
  obtain ⟨list, hlist, chunk, hchunk, herror⟩ := herror
  obtain ⟨items, e, rest, hsplit, hcut⟩ :=
    exists_of_cut ⟨chunk, (hmem chunk).2 ⟨list, hlist, hchunk⟩, herror⟩
  refine ⟨items, e, hcut, (hmem _).1 (by simp [hsplit]), ?_⟩
  exact hmerged.exists_prefixes hsplit

end Dataflow

import LiveDocs.Proofs.Engine.Runs

/-!
# The life of documents in an engine

In every run of an engine, whatever its jobs do and in whatever order, every document goes through
its states in the ways that `DocumentState.leadsTo` allows, its subscribers hear of each stage of
its life at most once and of nothing after its end, and once it is closed both its tables are.

## Main definitions

* `Engine.stateOf`: the state of a document, also of one that is not made yet.
* `Engine.seenIn`: the events of a document that a subscription has got in a run.
* `Engine.Chronicle`: what a run tells of a document.

## Main results

* `Engine.passes_act`, `Engine.heard_act`, `Engine.shut_act`: what an act does to a document.
* `Engine.chronicle_run`: the life of every document in every run.
-/

namespace LiveDocs

namespace Engine

variable {σ : Scope} {e e' e'' : Engine}

/-! ## Tables of closed documents -/

/-- The tables of closed documents are closed. -/
def Shut (e : Engine) : Prop :=
  ∀ id d, e.docs.get? id = some d → d.state = .closed →
    ∀ table, table = d.strings ∨ table = d.patches →
    ∃ t, e.tables.get? table = some t ∧ t.state = .closed

theorem Shut.stirs (h : Shut e) (hn : e.tables.Numbered) (hstirs : Stirs σ e e') : Shut e' := by
  intro id d hd hclosed table htable
  rw [hstirs.docs] at hd
  obtain ⟨t, ht, htclosed⟩ := h id d hd hclosed table htable
  exact hstirs.closed hn ht htclosed

/-- The step lemma: a document is closed together with its tables, and neither is opened again. -/
theorem Shut.deed (h : Shut e) (hs : Sound e) (hdeed : Deed σ e e') : Shut e' := by
  cases hdeed with
  | stir hstir => exact h.stirs hs.tables (.single hstir)
  | @turn id d d' hd hturns =>
    intro i d₁ hd₁ hclosed
    rw [SortedMap.get?_insert] at hd₁
    split at hd₁
    · cases hd₁
      obtain ⟨-, hstrings, hpatches⟩ := hturns.trail.place
      rw [hstrings, hpatches]
      exact h id d hd (hturns.closed_iff.mp hclosed)
    · exact h i d₁ hd₁ hclosed
  | @close _ id d hd hopen hcommits hstirs hclosed =>
    intro i d₁ hd₁ hstate table htable
    rw [hstirs.docs, SortedMap.get?_insert] at hd₁
    split at hd₁
    · cases hd₁
      rw [Document.close_eq hopen] at htable
      exact hclosed hs.tables table htable (hs.sited id d hd table htable)
    · obtain ⟨t, ht, htclosed⟩ := h i d₁ hd₁ hstate table htable
      exact hstirs.closed hs.tables ht htclosed
  | make _ hnew =>
    intro i d₁ hd₁ hclosed
    rw [SortedMap.get?_insert] at hd₁
    split at hd₁
    · cases hd₁
      rw [hnew.1] at hclosed
      cases hclosed
    · exact h i d₁ hd₁ hclosed
  | register => exact h

theorem Shut.deeds (h : Shut e) (hs : Sound e) (hdeeds : Deeds σ e e') : Shut e' := by
  induction hdeeds with
  | refl => exact h
  | tail hdeeds hdeed ih => exact ih.deed (hs.deeds hdeeds) hdeed

/-! ## States and events -/

/-- The state of a document. One that is not made yet is in its first state. -/
def stateOf (e : Engine) (id : DocId) : DocumentState :=
  ((e.docs.get? id).map Document.state).getD .init

/-- The events of a document that a subscription has yet to read. -/
def unreadOf (e : Engine) (id : DocId) (sub : Nat) : List DocumentEvent :=
  ((e.docs.get? id).map fun d => d.events.unread sub).getD []

/-- A document that is not there yet counts as initializing, as it does when it is made. -/
theorem Origin.stateOf {id : DocId} {d : Document} (h : e.Origin id d) :
    e.stateOf id = d.state := by
  rcases h with hd | ⟨hnone, hstate, -⟩
  · simp [Engine.stateOf, hd]
  · simp [Engine.stateOf, hnone, hstate]

theorem Origin.unreadOf {id : DocId} {d : Document} (h : e.Origin id d) (sub : Nat) :
    e.unreadOf id sub = d.events.unread sub := by
  rcases h with hd | ⟨hnone, -, hevents⟩
  · simp [Engine.unreadOf, hd]
  · simp [Engine.unreadOf, hnone, hevents, EventBus.unread, EventBus.empty]

theorem Origin.tuned {id : DocId} {d : Document} (h : e.Origin id d) (hs : Sound e) :
    Document.Tuned d.state d.events := by
  rcases h with hd | ⟨-, hstate, hevents⟩
  · exact hs.tuned id d hd
  · rw [hstate, hevents]
    exact Document.tuned_new

/-- A number without a document has stayed so, or its document has come some way. -/
theorem Deeds.trail_or_none (h : Deeds σ e e') (hs : Sound e) (id : DocId) :
    e.docs.get? id = none ∧ e'.docs.get? id = none ∨
      ∃ d d', e.Origin id d ∧ e'.Origin id d' ∧ Document.Trail σ.commits d d' := by
  cases hd' : e'.docs.get? id with
  | some d' =>
    obtain ⟨d, horigin, htrail⟩ := h.trail hs hd'
    exact .inr ⟨d, d', horigin, .inl hd', htrail⟩
  | none =>
    cases hd : e.docs.get? id with
    | none => exact .inl ⟨rfl, rfl⟩
    | some d =>
      have hin := h.grows.docs id (SortedMap.contains_of_get? hd)
      simp [SortedMap.contains, hd'] at hin

/-- The state of a document after some deeds, by the trail that has led there. -/
theorem Deeds.passes (h : Deeds σ e e') (hs : Sound e) (id : DocId) :
    (e.stateOf id).passes σ.commits (e'.stateOf id) = true := by
  rcases h.trail_or_none hs id with ⟨hd, hd'⟩ | ⟨d, d', horigin, horigin', htrail⟩
  · simp only [stateOf, hd, hd']
    exact DocumentState.passes_refl _ _
  · rw [horigin.stateOf, horigin'.stateOf]
    exact htrail.passes

/-- Deeds take nothing away that a subscriber has not read. -/
theorem Deeds.unreadOf (h : Deeds σ e e') (hs : Sound e) (id : DocId) (sub : Nat) :
    ∃ new, e'.unreadOf id sub = e.unreadOf id sub ++ new := by
  rcases h.trail_or_none hs id with ⟨hd, hd'⟩ | ⟨d, d', horigin, horigin', htrail⟩
  · exact ⟨[], by simp [Engine.unreadOf, hd, hd']⟩
  · rw [horigin.unreadOf, horigin'.unreadOf]
    exact htrail.unread (horigin.tuned hs) sub

/-- What a subscriber can have heard, by the trail of the document. -/
theorem Deeds.heard (h : Deeds σ e e') (hs : Sound e) (id : DocId) (sub : Nat)
    {read : List DocumentEvent} (hheard : (e.stateOf id).Heard (read ++ e.unreadOf id sub)) :
    (e'.stateOf id).Heard (read ++ e'.unreadOf id sub) := by
  rcases h.trail_or_none hs id with ⟨hd, hd'⟩ | ⟨d, d', horigin, horigin', htrail⟩
  · simpa only [stateOf, Engine.unreadOf, hd, hd'] using hheard
  · rw [horigin'.stateOf, horigin'.unreadOf]
    rw [horigin.stateOf, horigin.unreadOf] at hheard
    exact htrail.heard (horigin.tuned hs) hheard

section Reading

variable {read : DocId → Nat → List DocumentEvent} (h : Reading e read e')
include h

theorem Reading.stateOf (id : DocId) : e'.stateOf id = e.stateOf id := by
  cases h with
  | none => rfl
  | @some doc d _ _ _ hd =>
    by_cases hid : id = doc
    · simp [Engine.stateOf, hid, hd]
    · simp [Engine.stateOf, hid]

/-- What was read and what is left are what there was. -/
theorem Reading.unreadOf (id : DocId) (sub : Nat) :
    e.unreadOf id sub = read id sub ++ e'.unreadOf id sub := by
  cases h with
  | none h => simp [h]
  | @some doc d reader seen events hd hreads h =>
    by_cases hid : id = doc
    · have hunread := hreads.unread sub
      simp [Engine.unreadOf, h, hid, hd, hunread]
    · simp [Engine.unreadOf, h, hid]

theorem Reading.contains (id : DocId) (hid : e.docs.contains id = true) :
    e'.docs.contains id = true := by
  cases h with
  | none => exact hid
  | some => simp [hid]

theorem Reading.shut (hshut : Shut e) : Shut e' := by
  cases h with
  | none => exact hshut
  | @some doc d _ _ _ hd =>
    intro id d' hd'
    rw [SortedMap.get?_insert] at hd'
    split at hd'
    · cases hd'
      exact hshut doc d hd
    · exact hshut id d' hd'

end Reading

/-! ## Runs -/

/-- The events of a document that a subscription has got in a run: those that were read, and those
that are still unread. -/
def seenIn (e : Engine) (acts : List Act) (doc : DocId) (sub : Nat) : List DocumentEvent :=
  gather (fun e a => e.reads a doc sub) e acts ++ (e.run acts).unreadOf doc sub

/-- What a run tells of a document. -/
structure Chronicle (start : Engine) (acts : List Act) (id : DocId) : Prop where
  /-- Whatever comes next, the document stays in its state or passes to one that this leads to. -/
  passes : ∀ a, (start.run (acts ++ [a])).stateOf id = (start.run acts).stateOf id ∨
    ((start.run acts).stateOf id).leadsTo ((start.run (acts ++ [a])).stateOf id) = true
  persists : ∀ a, (start.run acts).docs.contains id = true →
    (start.run (acts ++ [a])).docs.contains id = true
  /-- What leaves the queue of a subscription is read. -/
  kept : ∀ a sub, ∃ new, (start.run acts).unreadOf id sub ++ new =
    (start.run acts).reads a id sub ++ (start.run (acts ++ [a])).unreadOf id sub
  ready : ∀ sub, (start.seenIn acts id sub).count .ready ≤ 1
  error : ∀ sub, (start.seenIn acts id sub).countP DocumentEvent.isError ≤ 1
  closed : ∀ sub, (start.seenIn acts id sub).count .closed ≤ 1
  /-- Nothing comes after the end. -/
  last : ∀ sub earlier later, start.seenIn acts id sub = earlier ++ .closed :: later → later = []
  /-- A closed document has closed tables. -/
  tables : ∀ d, (start.run acts).docs.get? id = some d → d.state = .closed →
    (start.run acts).tableIs d.strings .closed = true ∧
      (start.run acts).tableIs d.patches .closed = true

section Acts

variable (hs : Sound e) (a : Act) (id : DocId)
include hs

/-- **One act takes a document one step along its states, or none.** Reading does not touch the
state, and all deeds of an act are of one kind of work. -/
theorem passes_act : (e.act a).stateOf id = e.stateOf id ∨
    (e.stateOf id).leadsTo ((e.act a).stateOf id) = true := by
  obtain ⟨σ, e₁, hdeeds, hdocs, -⟩ := (e.worked_act a).exists_deeds hs
  have hreading := e.reading_listen a
  have hpasses := hdeeds.passes (hs.reading hreading) id
  rw [hreading.stateOf] at hpasses
  have hstate : (e.act a).stateOf id = e₁.stateOf id := by simp only [stateOf, hdocs]
  rw [hstate]
  exact DocumentState.eq_or_leadsTo_of_passes hpasses

theorem contains_act (hid : e.docs.contains id = true) : (e.act a).docs.contains id = true := by
  obtain ⟨σ, e₁, hdeeds, hdocs, -⟩ := (e.worked_act a).exists_deeds hs
  rw [hdocs]
  exact hdeeds.grows.docs id ((e.reading_listen a).contains id hid)

/-- An act reads from the front of what is there and adds behind it. -/
theorem unreadOf_act (sub : Nat) :
    ∃ new, e.unreadOf id sub ++ new = e.reads a id sub ++ (e.act a).unreadOf id sub := by
  obtain ⟨σ, e₁, hdeeds, hdocs, -⟩ := (e.worked_act a).exists_deeds hs
  have hreading := e.reading_listen a
  obtain ⟨new, hnew⟩ := hdeeds.unreadOf (hs.reading hreading) id sub
  have hunread : (e.act a).unreadOf id sub = e₁.unreadOf id sub := by simp only [unreadOf, hdocs]
  exact ⟨new, by rw [hunread, hnew, hreading.unreadOf, List.append_assoc]⟩

/-- The step lemma for what a subscriber hears. What is read in the act moves over to what was read
before. -/
theorem heard_act (sub : Nat) {read : List DocumentEvent}
    (hheard : (e.stateOf id).Heard (read ++ e.unreadOf id sub)) :
    ((e.act a).stateOf id).Heard (read ++ e.reads a id sub ++ (e.act a).unreadOf id sub) := by
  obtain ⟨σ, e₁, hdeeds, hdocs, -⟩ := (e.worked_act a).exists_deeds hs
  have hreading := e.reading_listen a
  rw [hreading.unreadOf, ← hreading.stateOf, ← List.append_assoc] at hheard
  have hheard₁ := hdeeds.heard (hs.reading hreading) id sub hheard
  simpa only [stateOf, unreadOf, hdocs] using hheard₁

theorem shut_act (hshut : Shut e) : Shut (e.act a) := by
  obtain ⟨σ, e₁, hdeeds, hdocs, htables⟩ := (e.worked_act a).exists_deeds hs
  have hreading := e.reading_listen a
  have hshut₁ := (hreading.shut hshut).deeds (hs.reading hreading) hdeeds
  simpa only [Shut, hdocs, htables] using hshut₁

end Acts

/-- By induction on the acts, with what was read so far in front. -/
theorem heard_run (backend : Backend) (acts : List Act) (id : DocId) (sub : Nat) :
    (((new backend).run acts).stateOf id).Heard ((new backend).seenIn acts id sub) := by
  induction acts using List.reverseRecOn with
  | nil => exact DocumentState.heard_nil _
  | append_singleton acts a ih =>
    rw [seenIn, gather_concat, run_concat]
    exact heard_act (sound_run backend acts) a id sub ih

theorem shut_run (backend : Backend) (acts : List Act) : Shut ((new backend).run acts) := by
  induction acts using List.reverseRecOn with
  | nil =>
    intro id d hd
    simp [new] at hd
  | append_singleton acts a ih =>
    rw [run_concat]
    exact shut_act (sound_run backend acts) a ih

/-- **The life of a document.** In every run of an engine, its jobs making their steps in any order,
a document passes through its states as it may, its subscribers hear of each stage at most once and
of nothing after the end, and once it is closed both its tables are. -/
theorem chronicle_run (backend : Backend) (acts : List Act) (id : DocId) :
    Chronicle (new backend) acts id := by
  have hs := sound_run backend acts
  have hheard := heard_run backend acts id
  refine
    { passes := fun a => ?_
      persists := fun a => ?_
      kept := fun a => ?_
      ready := fun sub => Nat.le_trans (hheard sub).ready (by split <;> simp)
      error := fun sub => Nat.le_trans (hheard sub).error (by split <;> simp)
      closed := fun sub => (hheard sub).count_closed_le
      last := fun sub earlier later => (hheard sub).eq_nil_of_closed
      tables := fun d hd hclosed => ?_ }
  · rw [run_concat]
    exact passes_act hs a id
  · rw [run_concat]
    exact contains_act hs a id
  · rw [run_concat]
    exact unreadOf_act hs a id
  · have hshut (table : TableId) (htable : table = d.strings ∨ table = d.patches) :
        ((new backend).run acts).tableIs table .closed = true := by
      obtain ⟨t, ht, hstate⟩ := shut_run backend acts id d hd hclosed table htable
      simp [tableIs, ht, hstate]
    exact ⟨hshut _ (.inl rfl), hshut _ (.inr rfl)⟩

end Engine

end LiveDocs

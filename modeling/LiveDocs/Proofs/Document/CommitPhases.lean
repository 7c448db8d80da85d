import LiveDocs.Proofs.Document.Snapshots
import Mathlib.Logic.Function.Basic

/-!
# Commits that take turns

Commits of one document take tickets and have their turns in the order of the tickets. A commit that
has its turn adds a patch and writes it. When the patch was accepted and enough patches have
followed the last snapshot, it writes a snapshot as well. Then it returns its ticket.

So at most one commit is past waiting at any time, and while no patch or snapshot is being written,
fewer patches than the interval have followed the last snapshot (`Document.TakesTurns`). A commit
may reach the interval, and then it does not end before it has taken the snapshot.

## Main definitions

* `CommitPhase`: how far a commit is.
* `Document.Passes`: what a document and a commit may become in one step.
* `Document.TakesTurns`: a document and the commits that are under way.

## Main results

* `Document.TakesTurns.passes`: a step of one commit keeps this.
* `Document.TakesTurns.eq_of_head`: nobody but the commit whose turn it is is past waiting.
* `Document.TakesTurns.since_lt`, `Document.TakesTurns.since_lt_of_ends`: few patches follow the
  last snapshot between commits, and whenever one has ended.
-/

namespace LiveDocs

/-- How far a commit is. -/
inductive CommitPhase where
  /-- It waits for its turn. -/
  | waiting (ticket : Nat)
  /-- Its patch is being written. -/
  | patch (ticket : Nat)
  /-- A snapshot is being written. -/
  | snapshot (ticket : Nat) (id : PatchId) (text : String)
  /-- The snapshot is being noted. -/
  | note (ticket : Nat)

namespace CommitPhase

def ticket : CommitPhase → Nat
  | waiting t | patch t | snapshot t _ _ | note t => t

/-- Whether a commit has had its turn. -/
def isPast : CommitPhase → Bool
  | waiting _ => false
  | _ => true

/-- Whether a patch or a snapshot is being written. -/
def isLogging : CommitPhase → Bool
  | patch _ | snapshot _ _ _ => true
  | _ => false

theorem isPast_of_isLogging {p : CommitPhase} (h : p.isLogging = true) : p.isPast = true := by
  cases p with
  | waiting => cases h
  | _ => rfl

end CommitPhase

namespace Document

/-- What becomes of a document and of one of its commits, or of something that is no commit. -/
inductive Passes (d : Document) : Option CommitPhase → Document → Option CommitPhase → Prop
  | stay {d' : Document} (p : Option CommitPhase) (h : d.Continues d') : Passes d p d' p
  /-- A commit takes a ticket. -/
  | take {d₁ : Document} (h : d.Continues d₁) :
      Passes d none d₁.takeTicket.2 (some (.waiting d₁.nextTicket))
  /-- A commit that has its turn adds a patch. -/
  | write {d₁ d' : Document} {ticket : Nat} (h : d.Continues d₁) (hturn : d₁.hasTurn ticket = true)
      (hadvances : d₁.Advances d') (hturns : d'.turns = d₁.turns)
      (hticket : d'.nextTicket = d₁.nextTicket)
      (hsince : d'.replica.history.sinceSnapshot = d₁.replica.history.sinceSnapshot + 1) :
      Passes d (some (.waiting ticket)) d' (some (.patch ticket))
  /-- A commit that changes nothing ends. -/
  | dismiss {d₁ : Document} {ticket : Nat} (h : d.Continues d₁) (hturn : d₁.hasTurn ticket = true) :
      Passes d (some (.waiting ticket)) (d₁.returnTicket ticket).1 none
  /-- A commit after which no snapshot is due ends. -/
  | accept {d₁ : Document} {ticket : Nat} (h : d.Continues d₁)
      (hfew : d₁.replica.history.sinceSnapshot < d₁.interval) :
      Passes d (some (.patch ticket)) (d₁.returnTicket ticket).1 none
  /-- A snapshot is due. -/
  | due {d₁ : Document} {ticket : Nat} {id : PatchId} {text : String} (h : d.Continues d₁)
      (hlatest : d₁.replica.history.latest? = some id) (htext : text = d₁.textAt id) :
      Passes d (some (.patch ticket)) d₁ (some (.snapshot ticket id text))
  /-- The snapshot was accepted. -/
  | record {d₁ : Document} {ticket : Nat} {id : PatchId} {text : String} (h : d.Continues d₁) :
      Passes d (some (.snapshot ticket id text)) (d₁.recordSnapshot id text) (some (.note ticket))
  /-- The snapshot was noted, and the commit ends. -/
  | finish {d₁ : Document} {ticket : Nat} (h : d.Continues d₁) :
      Passes d (some (.note ticket)) (d₁.returnTicket ticket).1 none

/-- A document and its commits that are under way, each with its number. -/
structure TakesTurns (d : Document) (phases : Nat → Option CommitPhase) : Prop where
  honest : d.Honest
  fresh : ∀ ticket ∈ d.turns, ticket < d.nextTicket
  held : ∀ {j p}, phases j = some p → p.ticket ∈ d.turns
  apart : ∀ {j j' p p'}, phases j = some p → phases j' = some p' → p.ticket = p'.ticket → j = j'
  first : ∀ {j p}, phases j = some p → p.isPast = true → d.turns.head? = some p.ticket
  few : d.replica.history.sinceSnapshot ≤ d.interval
  full : d.replica.history.sinceSnapshot = d.interval →
    ∃ j p, phases j = some p ∧ p.isLogging = true
  due : ∀ {j ticket id text}, phases j = some (.snapshot ticket id text) →
    d.replica.history.latest? = some id ∧ text = d.textAt id

variable {d d₁ d' : Document} {phases : Nat → Option CommitPhase}

/-- A document that was just made has no commits under way. -/
theorem takesTurns_new (h : ∀ j, phases j = none) (kind : Kind) (o : DocumentOptions)
    (stringId : String) (client : ClientId) (strings patches : TableId) :
    (new kind o stringId client strings patches).TakesTurns phases where
  honest := honest_new kind o stringId client strings patches
  fresh := fun ticket hmem => by cases hmem
  held := fun {j p} hj => by simp [h j] at hj
  apart := fun {j j' p p'} hj => by simp [h j] at hj
  first := fun {j p} hj => by simp [h j] at hj
  few := Nat.zero_le _
  full := by
    intro heq
    have hpos : 0 < (new kind o stringId client strings patches).interval :=
      Nat.lt_of_lt_of_le Nat.zero_lt_one (Nat.le_max_right _ _)
    exact absurd heq (Nat.ne_of_lt hpos)
  due := fun {j ticket id text} hj => by simp [h j] at hj

theorem latest?_eq (h : d'.versions = d.versions) :
    d'.replica.history.latest? = d.replica.history.latest? := by
  have hlast (d : Document) : d.replica.history.latest? = d.versions.getLast? := by
    simp [versions, History.latest?, History.ids, SortedMap.last?, SortedMap.keys]
  rw [hlast, hlast, h]

/-- Nothing but the tickets of a document changes. -/
theorem Honest.advances_turns (h : d.Honest) (turns : List Nat) (nextTicket : Nat) :
    d.Advances { d with turns, nextTicket } :=
  ⟨rfl, rfl, rfl, fun _ hid => ⟨hid, rfl⟩, h⟩

theorem Honest.advances_returnTicket (h : d.Honest) (ticket : Nat) :
    d.Advances (d.returnTicket ticket).1 :=
  h.advances_turns _ _

namespace TakesTurns

/-- While nothing is written to the log, few patches have followed the last snapshot. -/
theorem since_lt (h : d.TakesTurns phases)
    (hidle : ∀ j p, phases j = some p → p.isLogging = false) :
    d.replica.history.sinceSnapshot < d.interval := by
  refine Nat.lt_of_le_of_ne h.few fun heq => ?_
  obtain ⟨j, p, hj, hlogging⟩ := h.full heq
  simp [hidle j p hj] at hlogging

theorem continues (h : d.TakesTurns phases) (hd : d.Continues d') : d'.TakesTurns phases where
  honest := hd.honest
  fresh := by rw [hd.turns, hd.nextTicket]; exact h.fresh
  held := fun hj => by rw [hd.turns]; exact h.held hj
  apart := h.apart
  first := fun hj hp => by rw [hd.turns]; exact h.first hj hp
  few := by rw [hd.toAdvances.interval]; exact Nat.le_trans hd.since h.few
  full := by
    intro heq
    rw [hd.toAdvances.interval] at heq
    exact h.full (Nat.le_antisymm h.few (heq ▸ hd.since))
  due := by
    intro j ticket id text hj
    obtain ⟨hlatest, htext⟩ := h.due hj
    have hid : id ∈ d.versions := History.mem_ids_of_latest? hlatest
    exact ⟨(latest?_eq hd.versions).trans hlatest, htext.trans (hd.known id hid).2.symm⟩

section Turn

variable {j : Nat} {p : CommitPhase} (h : d.TakesTurns phases) (hj : phases j = some p)
include h hj

/-- Nobody but the commit whose turn it is is past waiting. -/
theorem eq_of_head (hhead : d.turns.head? = some p.ticket) {j' : Nat} {p' : CommitPhase}
    (hj' : phases j' = some p') (hp' : p'.isPast = true) : j' = j :=
  h.apart hj' hj (Option.some.inj ((h.first hj' hp').symm.trans hhead))

/-- While it is the turn of a commit that writes nothing to the log, nobody does. -/
theorem since_lt_of_head (hhead : d.turns.head? = some p.ticket) (hp : p.isLogging = false) :
    d.replica.history.sinceSnapshot < d.interval := by
  refine h.since_lt fun j' p' hj' => Bool.eq_false_iff.mpr fun hlogging => ?_
  have hsame := h.eq_of_head hj hhead hj' (CommitPhase.isPast_of_isLogging hlogging)
  rw [hsame, hj] at hj'
  cases hj'
  simp [hp] at hlogging

/-- A commit that has its turn goes on. -/
theorem goOn (hhead : d.turns.head? = some p.ticket) {p' : CommitPhase}
    (hticket : p'.ticket = p.ticket)
    (hd : d.Advances d') (hturns : d'.turns = d.turns) (hnext : d'.nextTicket = d.nextTicket)
    (hfew : d'.replica.history.sinceSnapshot ≤ d.interval)
    (hfull : d'.replica.history.sinceSnapshot = d.interval → p'.isLogging = true)
    (hdue : ∀ ticket id text, p' = .snapshot ticket id text →
      d'.replica.history.latest? = some id ∧ text = d'.textAt id) :
    d'.TakesTurns (Function.update phases j (some p')) := by
  have hold {i : Nat} {q : CommitPhase} (hi : Function.update phases j (some p') i = some q) :
      ∃ q₀, phases i = some q₀ ∧ q₀.ticket = q.ticket := by
    by_cases hij : i = j
    · subst hij
      rw [Function.update_self] at hi
      cases hi
      exact ⟨p, hj, hticket.symm⟩
    · rw [Function.update_of_ne hij] at hi
      exact ⟨q, hi, rfl⟩
  exact
    { honest := hd.honest
      fresh := by rw [hturns, hnext]; exact h.fresh
      held := by
        intro i q hi
        obtain ⟨q₀, hi₀, hq₀⟩ := hold hi
        rw [hturns, ← hq₀]
        exact h.held hi₀
      apart := by
        intro i i' q q' hi hi' hqq
        obtain ⟨q₀, hi₀, hq₀⟩ := hold hi
        obtain ⟨q₀', hi₀', hq₀'⟩ := hold hi'
        exact h.apart hi₀ hi₀' (by rw [hq₀, hq₀', hqq])
      first := by
        intro i q hi hq
        rw [hturns]
        by_cases hij : i = j
        · subst hij
          rw [Function.update_self] at hi
          cases hi
          rw [hhead, hticket]
        · rw [Function.update_of_ne hij] at hi
          exact h.first hi hq
      few := by rw [hd.interval]; exact hfew
      full := by
        rw [hd.interval]
        exact fun heq => ⟨j, p', Function.update_self .., hfull heq⟩
      due := by
        intro i ticket id text hi
        by_cases hij : i = j
        · subst hij
          rw [Function.update_self] at hi
          cases hi
          exact hdue ticket id text rfl
        · rw [Function.update_of_ne hij] at hi
          exact absurd (h.eq_of_head hj hhead hi rfl) hij }

/-- A commit ends and returns its ticket. -/
theorem returns (hfew : d.replica.history.sinceSnapshot < d.interval) :
    (d.returnTicket p.ticket).1.TakesTurns (Function.update phases j none) := by
  have hold {i : Nat} {q : CommitPhase} (hi : Function.update phases j none i = some q) :
      phases i = some q ∧ q.ticket ≠ p.ticket := by
    by_cases hij : i = j
    · subst hij
      rw [Function.update_self] at hi
      cases hi
    · rw [Function.update_of_ne hij] at hi
      exact ⟨hi, fun hsame => hij (h.apart hi hj hsame)⟩
  have hd := h.honest.advances_returnTicket p.ticket
  exact
    { honest := hd.honest
      fresh := fun ticket hmem => h.fresh ticket (List.mem_of_mem_filter hmem)
      held := by
        intro i q hi
        obtain ⟨hi, hne⟩ := hold hi
        exact List.mem_filter.mpr ⟨h.held hi, by simpa using hne⟩
      apart := fun hi hi' => h.apart (hold hi).1 (hold hi').1
      first := by
        intro i q hi hq
        obtain ⟨hi, hne⟩ := hold hi
        obtain ⟨rest, hrest⟩ := List.head?_eq_some_iff.mp (h.first hi hq)
        simp [returnTicket, hrest, hne]
      few := by rw [hd.interval]; exact Nat.le_of_lt hfew
      full := by
        rw [hd.interval]
        exact fun heq => absurd heq (Nat.ne_of_lt hfew)
      due := fun hi => h.due (hold hi).1 }

end Turn

/-- A commit takes a ticket. -/
theorem take (h : d.TakesTurns phases) {j : Nat} (hj : phases j = none) :
    d.takeTicket.2.TakesTurns (Function.update phases j (some (.waiting d.nextTicket))) := by
  have hold {i : Nat} {q : CommitPhase}
      (hi : Function.update phases j (some (.waiting d.nextTicket)) i = some q) :
      i = j ∧ q = .waiting d.nextTicket ∨ i ≠ j ∧ phases i = some q := by
    by_cases hij : i = j
    · subst hij
      rw [Function.update_self] at hi
      exact .inl ⟨rfl, (Option.some.inj hi).symm⟩
    · rw [Function.update_of_ne hij] at hi
      exact .inr ⟨hij, hi⟩
  -- The new ticket is nobody's yet.
  have hnew {i : Nat} {q : CommitPhase} (hi : phases i = some q) : q.ticket ≠ d.nextTicket :=
    Nat.ne_of_lt (h.fresh _ (h.held hi))
  exact
    { honest := (h.honest.advances_turns _ _).honest
      fresh := by
        intro ticket hmem
        rcases List.mem_append.mp hmem with hmem | hmem
        · exact Nat.lt_succ_of_lt (h.fresh ticket hmem)
        · rw [List.mem_singleton.mp hmem]
          exact Nat.lt_succ_self _
      held := by
        intro i q hi
        rcases hold hi with ⟨-, rfl⟩ | ⟨-, hi⟩
        · exact List.mem_append_right _ List.mem_cons_self
        · exact List.mem_append_left _ (h.held hi)
      apart := by
        intro i i' q q' hi hi' hqq
        rcases hold hi with ⟨hij, rfl⟩ | ⟨-, hi₀⟩ <;> rcases hold hi' with ⟨hij', rfl⟩ | ⟨-, hi₀'⟩
        · exact hij.trans hij'.symm
        · exact absurd hqq.symm (hnew hi₀')
        · exact absurd hqq (hnew hi₀)
        · exact h.apart hi₀ hi₀' hqq
      first := by
        intro i q hi hq
        rcases hold hi with ⟨-, rfl⟩ | ⟨-, hi⟩
        · cases hq
        · obtain ⟨rest, hrest⟩ := List.head?_eq_some_iff.mp (h.first hi hq)
          simp [takeTicket, hrest]
      few := h.few
      full := by
        intro heq
        obtain ⟨i, q, hi, hq⟩ := h.full heq
        have hij : i ≠ j := fun hsame => by simp [hsame, hj] at hi
        exact ⟨i, q, by rw [Function.update_of_ne hij, hi], hq⟩
      due := by
        intro i ticket id text hi
        rcases hold hi with ⟨-, hq⟩ | ⟨-, hi⟩
        · cases hq
        · exact h.due hi }

/-- A true snapshot of the newest patch leaves none behind it. -/
theorem since_recordSnapshot {id : PatchId} (hlatest : d.replica.history.latest? = some id)
    (h : d.Honest) : (d.recordSnapshot id (d.textAt id)).replica.history.sinceSnapshot = 0 := by
  have hcontinues : d.Continues (d.recordSnapshot id (d.textAt id)) :=
    continues_recordSnapshot h rfl
  obtain ⟨text, htext⟩ := History.exists_snapshot?_setSnapshot (History.mem_ids_of_latest? hlatest)
    (d.textAt id)
  exact History.sinceSnapshot_eq_zero ((latest?_eq hcontinues.versions).trans hlatest) htext

theorem head?_of_hasTurn {ticket : Nat} (h : d.hasTurn ticket = true) :
    d.turns.head? = some ticket := by
  simpa [hasTurn] using h

/-- When a commit ends, few patches have followed the last snapshot, whoever else waits. -/
theorem since_lt_of_ends (h : d.TakesTurns phases) {j : Nat} {p : CommitPhase}
    (hj : phases j = some p)
    (hpass : d.Passes (some p) d' none) : d'.replica.history.sinceSnapshot < d'.interval := by
  cases hpass with
  | dismiss hd hturn => exact (h.continues hd).since_lt_of_head hj (head?_of_hasTurn hturn) rfl
  | accept hd hfew => exact hfew
  | finish hd =>
    have h₁ := h.continues hd
    exact h₁.since_lt_of_head hj (h₁.first hj rfl) rfl

/-- **A step of one commit leaves the commits taking turns**, and the document goes on. -/
theorem passes (h : d.TakesTurns phases) {j : Nat} {p p' : Option CommitPhase} (hj : phases j = p)
    (hpass : d.Passes p d' p') :
    d'.TakesTurns (Function.update phases j p') ∧ d.Advances d' := by
  cases hpass with
  | stay p hd =>
    rw [← hj, Function.update_eq_self]
    exact ⟨h.continues hd, hd.toAdvances⟩
  | take hd =>
    exact ⟨(h.continues hd).take hj, hd.toAdvances.trans (hd.honest.advances_turns _ _)⟩
  | write hd hturn hadvances hturns hticket hsince =>
    have h₁ := h.continues hd
    have hlt := h₁.since_lt_of_head hj (head?_of_hasTurn hturn) rfl
    refine ⟨h₁.goOn hj (head?_of_hasTurn hturn) rfl hadvances hturns hticket ?_
      (fun _ => rfl) (by simp), hd.toAdvances.trans hadvances⟩
    rw [hsince]
    exact hlt
  | dismiss hd hturn =>
    have h₁ := h.continues hd
    exact ⟨h₁.returns hj (h₁.since_lt_of_head hj (head?_of_hasTurn hturn) rfl),
      hd.toAdvances.trans (hd.honest.advances_returnTicket _)⟩
  | accept hd hfew =>
    exact ⟨(h.continues hd).returns hj hfew,
      hd.toAdvances.trans (hd.honest.advances_returnTicket _)⟩
  | due hd hlatest htext =>
    have h₁ := h.continues hd
    refine ⟨h₁.goOn hj (h₁.first hj rfl) rfl (continues_refl hd.honest).toAdvances rfl rfl h₁.few
      (fun _ => rfl) fun ticket' id' text' heq => ?_, hd.toAdvances⟩
    cases heq
    exact ⟨hlatest, htext⟩
  | @record d₁ ticket id text hd =>
    have h₁ := h.continues hd
    obtain ⟨hlatest, rfl⟩ := h₁.due hj
    have hcontinues : d₁.Continues (d₁.recordSnapshot id (d₁.textAt id)) :=
      continues_recordSnapshot hd.honest rfl
    have hzero := since_recordSnapshot hlatest hd.honest
    have hpos : 0 < d₁.interval := Nat.lt_of_lt_of_le Nat.zero_lt_one (Nat.le_max_right _ _)
    refine ⟨h₁.goOn hj (h₁.first hj rfl) rfl hcontinues.toAdvances rfl rfl ?_ (fun heq => ?_)
      (by simp), (hd.trans hcontinues).toAdvances⟩
    · rw [hzero]
      exact Nat.zero_le _
    · rw [hzero] at heq
      exact absurd heq (Nat.ne_of_lt hpos)
  | finish hd =>
    have h₁ := h.continues hd
    exact ⟨h₁.returns hj (h₁.since_lt_of_head hj (h₁.first hj rfl) rfl),
      hd.toAdvances.trans (hd.honest.advances_returnTicket _)⟩

end TakesTurns

end Document

end LiveDocs

import LiveDocs.Proofs.Events.Queues
import Mathlib.Data.List.Induction
import Mathlib.Data.List.TakeWhile

/-!
# What subscriptions hear

A bus is used in any order: subscriptions are made and dropped, events are emitted and read, the
subscriptions are counted, and the bus is closed. What a subscription is to hear can be told from
this history alone, without a look at the bus: the events emitted after it was made and before it
was dropped or the bus was closed (`EventBus.heard`). A bus does what its history says
(`EventBus.Life.fansOut_run`).

## Main definitions

* `EventBus.Move`, `EventBus.Life`, `EventBus.Life.step`: what may be done with a bus, and a bus
  with what was read and returned so far.
* `EventBus.heard`, `EventBus.aliveCount`: what a history says of a subscription, and how many are
  alive.
* `EventBus.FansOut`: a bus does what its history says.

## Main results

* `EventBus.heard_concat`, `EventBus.isAlive_concat`: how a history grows.
* `EventBus.Life.Traced.step`, `EventBus.Life.Traced.run`: a bus keeps in step with its history.
* `EventBus.Life.fansOut_run`: after any history, all subscriptions and all counters are right.
-/

namespace LiveDocs

namespace EventBus

variable {ε : Type}

/-! ## Histories -/

/-- What may be done with a bus. -/
inductive Move (ε : Type) where
  | subscribe
  | unsubscribe (sub : Nat)
  | emit (event : ε)
  | receive (sub : Nat)
  /-- The subscriptions are counted, and those that were dropped are forgotten. -/
  | count
  | close

namespace Move

def event? : Move ε → Option ε
  | emit event => some event
  | _ => none

def subscribes : Move ε → Bool
  | subscribe => true
  | _ => false

def drops (sub : Nat) : Move ε → Bool
  | unsubscribe dropped => dropped == sub
  | _ => false

def closes : Move ε → Bool
  | close => true
  | _ => false

end Move

/-- The events that are emitted, in order. -/
def events (moves : List (Move ε)) : List ε := moves.filterMap Move.event?

/-- The number of subscriptions that are made. -/
def made (moves : List (Move ε)) : Nat := moves.countP Move.subscribes

/-- Whether the bus is closed in the end. -/
def isShut (moves : List (Move ε)) : Bool := moves.any Move.closes

/-- What happens before the bus is closed. -/
def whileOpen (moves : List (Move ε)) : List (Move ε) := moves.takeWhile fun m => !m.closes

/-- What happens after a subscription is made, if it is. -/
def since? : List (Move ε) → Nat → Option (List (Move ε))
  | [], _ => none
  | m :: rest, sub =>
    if m.subscribes then (if sub = 0 then some rest else since? rest (sub - 1))
    else since? rest sub

/-- Whether a subscription was made and not dropped. -/
def isAlive (moves : List (Move ε)) (sub : Nat) : Bool :=
  (since? moves sub).any fun later => later.all fun m => !m.drops sub

/-- The number of subscriptions that were made and not dropped. -/
def aliveCount (moves : List (Move ε)) : Nat :=
  ((List.range (made moves)).filter (isAlive moves)).length

/-- The events emitted after a subscription was made and before it was dropped or the bus was
closed. -/
def heard (moves : List (Move ε)) (sub : Nat) : List ε :=
  events (((since? (whileOpen moves) sub).getD []).takeWhile fun m => !m.drops sub)

theorem takeWhile_concat {α : Type} (p : α → Bool) (xs : List α) (x : α) :
    (xs ++ [x]).takeWhile p = xs.takeWhile p ++ if xs.all p && p x then [x] else [] := by
  induction xs with
  | nil => cases h : p x <;> simp [h]
  | cons y xs ih => cases h : p y <;> simp [h, ih]

section Concat

variable {moves : List (Move ε)} {sub : Nat} (m : Move ε)

@[simp] theorem events_concat : events (moves ++ [m]) = events moves ++ m.event?.toList := by
  cases h : m.event? <;> simp [events, h]

theorem made_cons (rest : List (Move ε)) :
    made (m :: rest) = made rest + if m.subscribes then 1 else 0 :=
  List.countP_cons

@[simp] theorem made_concat : made (moves ++ [m]) = made moves + if m.subscribes then 1 else 0 := by
  simp [made, List.countP_append, List.countP_singleton]

@[simp] theorem isShut_concat : isShut (moves ++ [m]) = (isShut moves || m.closes) := by
  simp [isShut]

theorem all_not_closes : (moves.all fun m => !m.closes) = !isShut moves := by
  simp [isShut, List.not_any_eq_all_not]

theorem whileOpen_of_open (h : isShut moves = false) : whileOpen moves = moves := by
  refine List.takeWhile_eq_self_iff.mpr ?_
  rw [← List.all_eq_true, all_not_closes, h]
  rfl

/-- A move counts as made while the bus was open only if it neither closes the bus nor comes after
that. -/
theorem whileOpen_concat :
    whileOpen (moves ++ [m]) =
      if isShut moves || m.closes then whileOpen moves else moves ++ [m] := by
  rw [whileOpen, takeWhile_concat, all_not_closes]
  cases hshut : isShut moves with
  | true => simp [whileOpen]
  | false =>
    have hopen := whileOpen_of_open hshut
    rw [whileOpen] at hopen
    cases hm : m.closes <;> simp [whileOpen, hopen]

/-- What is emitted after the bus was closed reaches nobody. -/
theorem events_whileOpen_concat :
    events (whileOpen (moves ++ [m])) =
      events (whileOpen moves) ++ if isShut moves then [] else m.event?.toList := by
  rw [whileOpen_concat]
  cases hshut : isShut moves with
  | true => simp
  | false =>
    rw [whileOpen_of_open hshut]
    cases hm : m.closes with
    | false => simp
    | true =>
      have hevent : m.event? = none := by cases m <;> simp_all [Move.closes, Move.event?]
      simp [hevent]

theorem since?_concat_of_some {later : List (Move ε)} (h : since? moves sub = some later) :
    since? (moves ++ [m]) sub = some (later ++ [m]) := by
  induction moves generalizing sub with
  | nil => simp [since?] at h
  | cons first rest ih =>
    simp only [List.cons_append, since?] at h ⊢
    split
    · next hfirst =>
      rw [if_pos hfirst] at h
      split
      · next hsub =>
        rw [if_pos hsub] at h
        cases h
        rfl
      · next hsub =>
        rw [if_neg hsub] at h
        exact ih h
    · next hfirst =>
      rw [if_neg hfirst] at h
      exact ih h

/-- Subscriptions are numbered as they are made. -/
theorem since?_eq_none_iff : since? moves sub = none ↔ made moves ≤ sub := by
  induction moves generalizing sub with
  | nil => simp [since?, made]
  | cons first rest ih =>
    simp only [since?, made_cons]
    split
    · split
      · next hsub => simp [hsub]
      · rw [ih]
        omega
    · exact ih

/-- The move that makes a subscription is not among those that follow it. -/
theorem since?_concat_of_none (h : since? moves sub = none) :
    since? (moves ++ [m]) sub =
      if m.subscribes = true ∧ sub = made moves then some [] else none := by
  induction moves generalizing sub with
  | nil => cases hm : m.subscribes <;> simp [since?, made, hm]
  | cons first rest ih =>
    simp only [List.cons_append, since?] at h ⊢
    split
    · next hfirst =>
      rw [if_pos hfirst] at h
      split
      · next hsub => simp [hsub] at h
      · next hsub =>
        rw [if_neg hsub] at h
        have hmade : sub - 1 = made rest ↔ sub = made (first :: rest) := by
          rw [made_cons, if_pos hfirst]
          omega
        rw [ih h]
        simp only [hmade]
    · next hfirst =>
      rw [if_neg hfirst] at h
      rw [ih h, made_cons, if_neg hfirst, Nat.add_zero]

/-- A subscription stays alive until it is dropped. -/
theorem isAlive_concat :
    isAlive (moves ++ [m]) sub =
      (isAlive moves sub && !m.drops sub || m.subscribes && sub == made moves) := by
  cases hsince : since? moves sub with
  | some later =>
    have hlt : sub ≠ made moves := by
      intro heq
      have hnone := since?_eq_none_iff.mpr (Nat.le_of_eq heq.symm)
      rw [hsince] at hnone
      cases hnone
    simp [isAlive, since?_concat_of_some m hsince, hsince, hlt]
  | none =>
    rw [isAlive, since?_concat_of_none m hsince, isAlive, hsince]
    by_cases hnew : m.subscribes = true ∧ sub = made moves
    · simp [hnew.1, hnew.2]
    · rw [if_neg hnew]
      cases hm : m.subscribes <;> simp_all

theorem lt_made_of_isAlive (h : isAlive moves sub = true) : sub < made moves := by
  by_contra hlt
  have hnone := since?_eq_none_iff.mpr (Nat.le_of_not_lt hlt)
  simp [isAlive, hnone] at h

/-- A subscription hears an event if it is alive and the bus is open. -/
theorem heard_concat :
    heard (moves ++ [m]) sub =
      heard moves sub ++
        if isShut moves = false ∧ isAlive moves sub = true then m.event?.toList else [] := by
  rw [heard, whileOpen_concat]
  cases hshut : isShut moves with
  | true => simp [heard]
  | false =>
    cases hm : m.closes with
    | true =>
      have hevent : m.event? = none := by cases m <;> simp_all [Move.closes, Move.event?]
      simp [heard, hevent]
    | false =>
      simp only [Bool.or_self, Bool.false_eq_true, if_false, true_and]
      rw [heard, whileOpen_of_open hshut]
      cases hsince : since? moves sub with
      | none =>
        rw [since?_concat_of_none m hsince]
        split <;> simp [isAlive, hsince]
      | some later =>
        rw [since?_concat_of_some m hsince, Option.getD_some, Option.getD_some, takeWhile_concat]
        cases hall : later.all fun m => !m.drops sub with
        | false => simp [isAlive, hsince, hall]
        | true =>
          cases hdrops : m.drops sub with
          | false => simp [isAlive, hsince, hall]
          | true =>
            have hevent : m.event? = none := by cases m <;> simp_all [Move.drops, Move.event?]
            simp [hevent]

end Concat

/-! ## Runs -/

/-- A bus, with what was read from it and what it has answered. -/
structure Life (ε : Type) where
  bus : EventBus ε
  /-- The events that were read, with the subscriptions that have read them. -/
  read : List (Nat × ε)
  /-- What the dropped subscriptions had not read. -/
  left : SortedMap Nat (List ε)
  /-- What emitting has returned: how many subscriptions an event has reached. -/
  returned : List Nat

namespace Life

def start : Life ε := ⟨.empty, [], .empty, []⟩

def step (s : Life ε) : Move ε → Life ε
  | .subscribe => { s with bus := s.bus.subscribe.2 }
  | .unsubscribe sub =>
    { s with
      bus := s.bus.unsubscribe sub
      left := if s.bus.isLive sub then s.left.insert sub (s.bus.unread sub) else s.left }
  | .emit event => { s with bus := s.bus.emit event, returned := s.returned ++ [s.bus.reach] }
  | .receive sub =>
    { s with
      bus := (s.bus.receive sub).2
      read := s.read ++ ((s.bus.receive sub).1.map fun event => (sub, event)).toList }
  | .count => { s with bus := s.bus.prune }
  | .close => { s with bus := s.bus.close }

def run (s : Life ε) (moves : List (Move ε)) : Life ε := moves.foldl step s

/-- What a subscription has read. -/
def readBy (s : Life ε) (sub : Nat) : List ε := (s.read.filter (·.1 == sub)).map (·.2)

/-- What a subscription has not read: what is queued for it, or was when it was dropped. -/
def unreadBy (s : Life ε) (sub : Nat) : List ε :=
  (s.bus.queues.get? sub).getD ((s.left.get? sub).getD [])

/-- The sum of what emitting has returned. -/
def reached (s : Life ε) : Nat := s.returned.foldl (· + ·) 0

theorem run_concat (s : Life ε) (moves : List (Move ε)) (m : Move ε) :
    s.run (moves ++ [m]) = (s.run moves).step m := by
  simp [run]

theorem unreadBy_of_isLive {s : Life ε} {sub : Nat} (h : s.bus.isLive sub = true) :
    s.unreadBy sub = s.bus.unread sub := by
  obtain ⟨queue, hqueue⟩ := Option.isSome_iff_exists.mp h
  simp [unreadBy, unread, hqueue]

theorem unreadBy_of_not_isLive {s : Life ε} {sub : Nat} (h : s.bus.isLive sub = false) :
    s.unreadBy sub = (s.left.get? sub).getD [] := by
  have hnone : s.bus.queues.get? sub = none := by simpa [isLive, SortedMap.contains] using h
  simp [unreadBy, hnone]

/-- A bus is in step with its history. -/
structure Traced (moves : List (Move ε)) (s : Life ε) : Prop where
  orderly : s.bus.Orderly
  next : s.bus.next = made moves
  closed : s.bus.closed = isShut moves
  live : ∀ sub, s.bus.isLive sub = isAlive moves sub
  attached : isShut moves = false → ∀ sub, isAlive moves sub = true → sub ∈ s.bus.attached
  heard : ∀ sub, s.readBy sub ++ s.unreadBy sub = heard moves sub
  emitted : s.bus.emitted = .ofNat (events (whileOpen moves)).length
  deliveries : s.bus.deliveries = .ofNat s.reached

namespace Traced

variable {s : Life ε} {moves : List (Move ε)}

theorem start : Traced [] (start : Life ε) where
  orderly := orderly_empty
  next := rfl
  closed := rfl
  live := fun _ => rfl
  attached := by simp [isAlive, since?]
  heard := fun _ => rfl
  emitted := rfl
  deliveries := rfl

/-- Nothing was heard by a subscription that is yet to be made. -/
theorem nothing_of_made (h : s.Traced moves) :
    s.readBy (made moves) = [] ∧ s.unreadBy (made moves) = [] := by
  have hnone : EventBus.heard moves (made moves) = [] := by
    have hopen : made (whileOpen moves) ≤ made moves :=
      List.Sublist.countP_le (List.takeWhile_sublist _)
    rw [EventBus.heard, since?_eq_none_iff.mpr hopen]
    rfl
  exact List.append_eq_nil_iff.mp ((h.heard _).trans hnone)

/-- The bus sends to the subscriptions that are alive, if it is open. -/
theorem mem_prune_iff (h : s.Traced moves) (hopen : isShut moves = false) (sub : Nat) :
    sub ∈ s.bus.prune.attached ↔ isAlive moves sub = true := by
  rw [prune, List.mem_filter, h.live]
  exact ⟨fun hmem => hmem.2, fun halive => ⟨h.attached hopen sub halive, halive⟩⟩

/-- The subscriptions of an open bus are counted right, and so are those of a closed one. -/
theorem count_eq (h : s.Traced moves) :
    s.bus.count = if isShut moves then 0 else aliveCount moves := by
  cases hshut : isShut moves with
  | true => simp [EventBus.count, prune, h.orderly.closed (h.closed.trans hshut)]
  | false =>
    have hperm : s.bus.prune.attached.Perm ((List.range (made moves)).filter (isAlive moves)) := by
      refine (List.perm_ext_iff_of_nodup h.orderly.prune.distinct
        (List.nodup_range.filter _)).mpr fun sub => ?_
      rw [h.mem_prune_iff hshut, List.mem_filter, List.mem_range]
      exact ⟨fun halive => ⟨lt_made_of_isAlive halive, halive⟩, fun hmem => hmem.2⟩
    exact hperm.length_eq

/-- How many an event will reach is the number of subscriptions that are alive, and none once the
bus is closed. -/
theorem reach_eq (h : s.Traced moves) :
    s.bus.reach = if isShut moves then 0 else aliveCount moves := by
  rw [reach, h.closed, h.count_eq]
  cases isShut moves <;> rfl

/-- Nothing is counted when nothing is emitted. -/
theorem emitted_of_silent (h : s.Traced moves) {m : Move ε} (hm : m.event? = none) :
    s.bus.emitted = .ofNat (events (whileOpen (moves ++ [m]))).length := by
  simpa [events_whileOpen_concat, hm] using h.emitted

/-- The new subscription has heard nothing yet. -/
theorem subscribe (h : s.Traced moves) : (s.step .subscribe).Traced (moves ++ [.subscribe]) where
  orderly := h.orderly.subscribe
  next := by simp [Life.step, EventBus.subscribe, h.next, Move.subscribes]
  closed := by simp [Life.step, EventBus.subscribe, h.closed, Move.closes]
  live := by
    intro sub
    rw [isAlive_concat, ← h.live, ← h.next]
    simp [Life.step, Move.drops, Move.subscribes, Bool.or_comm]
  attached := by
    intro hopen sub halive
    have hbefore : isShut moves = false := by simpa [Move.closes] using hopen
    have hclosed : s.bus.closed = false := h.closed.trans hbefore
    rw [isAlive_concat] at halive
    simp only [Life.step, EventBus.subscribe, hclosed, Bool.false_eq_true, if_false]
    rcases Bool.or_eq_true _ _ ▸ halive with hold | hnew
    · exact List.mem_append_left _ (h.attached hbefore sub (by simpa [Move.drops] using hold))
    · exact List.mem_append_right _ (by simpa [Move.subscribes, h.next] using hnew)
  heard := by
    intro sub
    rw [heard_concat, ← h.heard]
    by_cases hsub : sub = made moves
    · obtain ⟨hread, hunread⟩ := h.nothing_of_made
      have hread' : (s.step .subscribe).readBy sub = s.readBy sub := rfl
      rw [hread', hsub, hread, hunread]
      simp [Life.step, Life.unreadBy, EventBus.subscribe, h.next, Move.event?]
    · have hne : sub ≠ s.bus.next := h.next ▸ hsub
      simp [Life.step, Life.readBy, Life.unreadBy, EventBus.subscribe, hne, Move.event?]
  emitted := h.emitted_of_silent rfl
  deliveries := h.deliveries

/-- What a dropped subscription had not read is set aside, so that it still counts as heard. -/
theorem unsubscribe (h : s.Traced moves) (dropped : Nat) :
    (s.step (.unsubscribe dropped)).Traced (moves ++ [.unsubscribe dropped]) where
  orderly := h.orderly.unsubscribe dropped
  next := by simpa [Life.step, EventBus.unsubscribe, Move.subscribes] using h.next
  closed := by simpa [Life.step, EventBus.unsubscribe, Move.closes] using h.closed
  live := by
    intro sub
    rw [isAlive_concat, ← h.live]
    simp [Life.step, Move.drops, Move.subscribes, Bool.and_comm, bne, Bool.beq_comm]
  attached := by
    intro hopen sub halive
    rw [isAlive_concat] at halive
    simp only [Move.subscribes, Bool.false_and, Bool.or_false, Bool.and_eq_true] at halive
    exact h.attached (by simpa [Move.closes] using hopen) sub halive.1
  heard := by
    intro sub
    have hkept : (s.step (.unsubscribe dropped)).unreadBy sub = s.unreadBy sub := by
      by_cases hsub : sub = dropped
      · subst hsub
        have hgone : (s.step (.unsubscribe sub)).bus.isLive sub = false := by simp [Life.step]
        rw [unreadBy_of_not_isLive hgone]
        cases hlive : s.bus.isLive sub with
        | true => simp [Life.step, hlive, unreadBy_of_isLive]
        | false => simp [Life.step, hlive, unreadBy_of_not_isLive]
      · cases hlive : s.bus.isLive dropped <;>
          simp [Life.step, Life.unreadBy, EventBus.unsubscribe, hlive, hsub]
    rw [heard_concat, hkept, ← h.heard]
    simp [Life.step, Life.readBy, Move.event?]
  emitted := h.emitted_of_silent rfl
  deliveries := h.deliveries

/-- A move by which no subscription is made or dropped and the bus is not closed. -/
theorem keep (h : s.Traced moves) {s' : Life ε} {m : Move ε} (horderly : s'.bus.Orderly)
    (hnext : s'.bus.next = s.bus.next) (hclosed : s'.bus.closed = s.bus.closed)
    (hlive : ∀ sub, s'.bus.isLive sub = s.bus.isLive sub)
    (hattached : ∀ sub ∈ s.bus.attached, s.bus.isLive sub = true → sub ∈ s'.bus.attached)
    (hsubscribes : m.subscribes = false) (hcloses : m.closes = false)
    (hdrops : ∀ sub, m.drops sub = false)
    (hheard : ∀ sub, s'.readBy sub ++ s'.unreadBy sub = EventBus.heard (moves ++ [m]) sub)
    (hemitted : s'.bus.emitted = .ofNat (events (whileOpen (moves ++ [m]))).length)
    (hdeliveries : s'.bus.deliveries = .ofNat s'.reached) : s'.Traced (moves ++ [m]) where
  orderly := horderly
  next := by simp [hnext, h.next, hsubscribes]
  closed := by simp [hclosed, h.closed, hcloses]
  live := by simp [hlive, h.live, isAlive_concat, hsubscribes, hdrops]
  attached := by
    intro hopen sub halive
    have hbefore : isAlive moves sub = true := by
      simpa [isAlive_concat, hsubscribes, hdrops] using halive
    refine hattached sub (h.attached ?_ sub hbefore) ((h.live sub).trans hbefore)
    simpa [hcloses] using hopen
  heard := hheard
  emitted := hemitted
  deliveries := hdeliveries

/-- An event is heard by all that are alive. One more event is counted, and as many deliveries as it
has reached. -/
theorem emit (h : s.Traced moves) (event : ε) :
    (s.step (.emit event)).Traced (moves ++ [.emit event]) := by
  refine h.keep (h.orderly.emit event) (next_emit _ _) (closed_emit _ _) (s.bus.isLive_emit event)
    ?_ rfl rfl (fun _ => rfl) ?_ ?_ ?_
  · intro sub hsub hlive
    cases hclosed : s.bus.closed with
    | true => simpa [Life.step, emit_of_closed hclosed] using hsub
    | false =>
      simp only [Life.step, emit_of_open hclosed, prune]
      exact List.mem_filter.mpr ⟨hsub, hlive⟩
  · intro sub
    have hread : (s.step (.emit event)).readBy sub = s.readBy sub := rfl
    rw [heard_concat, ← h.heard, hread]
    cases hlive : s.bus.isLive sub with
    | true =>
      have hlive' : (s.step (.emit event)).bus.isLive sub = true :=
        (s.bus.isLive_emit event sub).trans hlive
      have halive : isAlive moves sub = true := (h.live sub).symm.trans hlive
      rw [unreadBy_of_isLive hlive', unreadBy_of_isLive hlive, Life.step, h.orderly.unread_emit,
        h.closed, List.append_assoc]
      cases hshut : isShut moves with
      | true => simp
      | false => simp [h.attached hshut sub halive, hlive, halive, Move.event?]
    | false =>
      have hlive' : (s.step (.emit event)).bus.isLive sub = false :=
        (s.bus.isLive_emit event sub).trans hlive
      have halive : isAlive moves sub = false := (h.live sub).symm.trans hlive
      rw [unreadBy_of_not_isLive hlive', unreadBy_of_not_isLive hlive]
      simp [Life.step, halive]
  · rw [events_whileOpen_concat]
    cases hshut : isShut moves with
    | true =>
      have hclosed : s.bus.closed = true := h.closed.trans hshut
      simpa [Life.step, emit_of_closed hclosed] using h.emitted
    | false =>
      have hclosed : s.bus.closed = false := h.closed.trans hshut
      simp [Life.step, emit_of_open hclosed, h.emitted, Move.event?, UInt64.ofNat_add]
  · have hreached : (s.step (.emit event)).reached = s.reached + s.bus.reach := by
      simp [Life.step, Life.reached]
    rw [hreached, UInt64.ofNat_add, ← h.deliveries, reach]
    cases hclosed : s.bus.closed with
    | true => simp [Life.step, emit_of_closed hclosed]
    | false => simp [Life.step, emit_of_open hclosed, EventBus.count]

/-- An event passes from what a subscription has not read to what it has. -/
theorem receive (h : s.Traced moves) (reader : Nat) :
    (s.step (.receive reader)).Traced (moves ++ [.receive reader]) := by
  obtain ⟨hclosed, hattached, hnext⟩ := s.bus.receive_frame reader
  refine h.keep ((s.bus.reads_receive reader).orderly h.orderly) hnext hclosed
    (s.bus.isLive_receive reader)
    (fun sub hsub _ => hattached ▸ hsub) rfl rfl (fun _ => rfl) ?_ ?_ ?_
  · intro sub
    rw [heard_concat, ← h.heard]
    have hread : (s.step (.receive reader)).readBy sub =
        s.readBy sub ++ if reader = sub then (s.bus.unread reader).head?.toList else [] := by
      rw [← receive_fst]
      by_cases hsub : reader = sub
      · subst hsub
        cases hevent : (s.bus.receive reader).1 <;> simp [Life.step, Life.readBy, hevent]
      · cases hevent : (s.bus.receive reader).1 <;> simp [Life.step, Life.readBy, hevent, hsub]
    rw [hread]
    cases hlive : s.bus.isLive sub with
    | true =>
      have hlive' : (s.step (.receive reader)).bus.isLive sub = true :=
        (s.bus.isLive_receive reader sub).trans hlive
      rw [unreadBy_of_isLive hlive', unreadBy_of_isLive hlive, Life.step, unread_receive]
      by_cases hsub : reader = sub
      · subst hsub
        cases s.bus.unread reader <;> simp [Move.event?]
      · simp [hsub, Ne.symm hsub, Move.event?]
    | false =>
      have hlive' : (s.step (.receive reader)).bus.isLive sub = false :=
        (s.bus.isLive_receive reader sub).trans hlive
      rw [unreadBy_of_not_isLive hlive', unreadBy_of_not_isLive hlive]
      by_cases hsub : reader = sub
      · subst hsub
        simp [Life.step, unread_of_not_isLive hlive, Move.event?]
      · simp [Life.step, hsub, Move.event?]
  · rw [← h.emitted_of_silent (m := .receive reader) rfl]
    rcases s.bus.receive_eq reader with hbus | ⟨event, rest, -, hbus⟩ <;> simp [Life.step, hbus]
  · refine Eq.trans ?_ h.deliveries
    rcases s.bus.receive_eq reader with hbus | ⟨event, rest, -, hbus⟩ <;> simp [Life.step, hbus]

theorem count (h : s.Traced moves) : (s.step .count).Traced (moves ++ [.count]) := by
  refine h.keep h.orderly.prune rfl rfl (fun _ => rfl) ?_ rfl rfl (fun _ => rfl) ?_
    (h.emitted_of_silent rfl) h.deliveries
  · exact fun sub hsub hlive => List.mem_filter.mpr ⟨hsub, hlive⟩
  · intro sub
    rw [heard_concat, ← h.heard]
    simp [Life.step, Life.readBy, Life.unreadBy, prune, Move.event?]

theorem close (h : s.Traced moves) : (s.step .close).Traced (moves ++ [.close]) where
  orderly := h.orderly.close
  next := by simpa [Life.step, EventBus.close, Move.subscribes] using h.next
  closed := by simp [Life.step, EventBus.close, Move.closes]
  live := by
    intro sub
    rw [isAlive_concat, ← h.live]
    simp [Life.step, EventBus.close, isLive, Move.drops, Move.subscribes]
  attached := by simp [Move.closes]
  heard := by
    intro sub
    rw [heard_concat, ← h.heard]
    simp [Life.step, Life.readBy, Life.unreadBy, EventBus.close, Move.event?]
  emitted := h.emitted_of_silent rfl
  deliveries := h.deliveries

/-- A bus keeps in step with its history. -/
theorem step (h : s.Traced moves) (m : Move ε) : (s.step m).Traced (moves ++ [m]) := by
  cases m with
  | subscribe => exact h.subscribe
  | unsubscribe dropped => exact h.unsubscribe dropped
  | emit event => exact h.emit event
  | receive reader => exact h.receive reader
  | count => exact h.count
  | close => exact h.close

theorem run (moves : List (Move ε)) : (Life.start.run moves).Traced moves := by
  induction moves using List.reverseRecOn with
  | nil => exact start
  | append_singleton moves m ih =>
    rw [run_concat]
    exact ih.step m

end Traced

/-- A subscription that reads several times gets the first events that it has not read. -/
theorem readBy_run_replicate (s : Life ε) (sub n : Nat) :
    (s.run (List.replicate n (.receive sub))).readBy sub =
      s.readBy sub ++ (s.bus.unread sub).take n := by
  induction n generalizing s with
  | zero => simp [Life.run]
  | succ n ih =>
    have hread : (s.step (.receive sub)).readBy sub =
        s.readBy sub ++ (s.bus.unread sub).head?.toList := by
      rw [← receive_fst]
      cases hevent : (s.bus.receive sub).1 <;> simp [Life.step, Life.readBy, hevent]
    have hunread : (s.step (.receive sub)).bus.unread sub = (s.bus.unread sub).tail := by
      simp [Life.step]
    have hrun : s.run (List.replicate (n + 1) (.receive sub)) =
        (s.step (.receive sub)).run (List.replicate n (.receive sub)) := rfl
    rw [hrun, ih, hread, hunread]
    cases s.bus.unread sub <;> simp

end Life

/-! ## Fan-out -/

/-- A bus does what its history says. -/
structure FansOut (moves : List (Move ε)) (s : Life ε) : Prop where
  /-- What a subscription has read, and then what is queued for it (or was when it was dropped), is
  what was emitted after it was made and before it was dropped or the bus was closed. -/
  heard : ∀ sub, s.readBy sub ++ s.unreadBy sub = heard moves sub
  /-- An event that is emitted now reaches all subscriptions that are alive, none if the bus is
  closed. -/
  returned : ∀ event, (s.step (.emit event)).returned =
    s.returned ++ [if isShut moves then 0 else aliveCount moves]
  /-- All events are counted that were emitted while the bus was open, as far as the counter
  goes. -/
  emitted : s.bus.emitted = .ofNat (events (whileOpen moves)).length
  /-- The deliveries are the sum of what emitting has returned. -/
  deliveries : s.bus.deliveries = .ofNat s.reached
  /-- The subscriptions that are alive are counted, none if the bus is closed. -/
  count : s.bus.count = if isShut moves then 0 else aliveCount moves
  /-- What is queued for a subscription can be read after the bus was closed, in order. -/
  readable : ∀ sub queue, s.bus.queues.get? sub = some queue → ∀ n,
    ((s.step .close).run (List.replicate n (.receive sub))).readBy sub =
      s.readBy sub ++ queue.take n

/-- **After any history every subscription has heard what it is to hear, and all counters are
right.** -/
theorem Life.fansOut_run (moves : List (Move ε)) : FansOut moves (Life.start.run moves) := by
  have h := Traced.run moves
  refine ⟨h.heard, fun event => ?_, h.emitted, h.deliveries, h.count_eq,
    fun sub queue hqueue n => ?_⟩
  · rw [← h.reach_eq]
    rfl
  · have hunread : ((Life.start.run moves).step .close).bus.unread sub = queue := by
      simp [Life.step, unread, EventBus.close, hqueue]
    rw [readBy_run_replicate, hunread]
    rfl

-- A dropped subscription is still in the list of the bus, and a closed bus still has unread events.
example :
    let s : Life Nat := Life.start.run
      [.subscribe, .subscribe, .emit 1, .unsubscribe 0, .emit 2, .close, .emit 3, .subscribe]
    (s.unreadBy 0, s.unreadBy 1, s.unreadBy 2, s.returned) = ([1], [1, 2], [], [2, 1, 0]) := by
  rfl

end EventBus

end LiveDocs

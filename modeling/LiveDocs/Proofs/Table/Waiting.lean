import LiveDocs.Proofs.Table.Connection

/-!
# Writes that wait

A write waits in its table until it has an outcome: the data layer answers it, its limit passes, the
table loses its feed, or the table is closed. These race with one another and with connecting. In
whatever order they come, no write is left waiting: one that waits does so in a connected table
whose feed is followed, and a lost feed, like closing, gives an outcome to all that wait. An outcome
that was given is the one that the call of the write returns, and nothing that comes later changes
it.

A write goes through stages: it waits, it has an outcome, its call has returned. `Table.Turn` says
once what a step can do to all writes, and `Table.Turn.at` what this means for one of them.

## Main definitions

* `Table.Life.outcomes`: what the call of a write has returned.
* `Table.Life.Decided`: the outcome of a write that nothing changes any more.
* `Table.Stage`, `Table.Writes.At`: how far a write has come.
* `Table.Life.NoneStranded`: no write is left waiting.

## Main results

* `Table.Life.step_turn`: what a step does to the writes.
* `Table.Life.Staged.run`, `Table.Life.gives_run`: what this comes to over a run.
* `Table.Life.noneStranded_run`: no write is left waiting, in any run.
-/

namespace LiveDocs

namespace Table

/-! ## What calls return -/

/-- What the call of a write has returned. -/
def outcomesOf (returned : List (Nat × Except TableError Unit)) (number : Nat) :
    List (Except TableError Unit) :=
  (returned.filter (·.1 == number)).map (·.2)

@[simp] theorem outcomesOf_concat (returned : List (Nat × Except TableError Unit)) (m n : Nat)
    (outcome : Except TableError Unit) :
    outcomesOf (returned ++ [(m, outcome)]) n =
      outcomesOf returned n ++ if m = n then [outcome] else [] := by
  by_cases h : m = n <;> simp [outcomesOf, h]

namespace Life

/-- What the call of a write has returned. -/
def outcomes (s : Life) (number : Nat) : List (Except TableError Unit) :=
  outcomesOf s.returned number

/-- The outcome of a write is decided: its call has returned it, or returns it as soon as it goes
on, and an answer has no effect. -/
structure Decided (s : Life) (number : Nat) (outcome : Except TableError Unit) : Prop where
  returns : s.outcomes number = [outcome] ∨
    s.outcomes number = [] ∧
      ∀ passed, (s.step (.resume number passed)).outcomes number = [outcome]
  answered : ∀ reply, s.step (.answer number reply) = s

end Life

/-! ## The writes -/

/-- The writes of a table and their calls, without its connection and its rows. -/
structure Writes where
  waiting : List Nat
  settled : SortedMap Nat (Except TableError Unit)
  next : Nat
  calls : List LocalWrite
  returned : List (Nat × Except TableError Unit)

/-- How far a write has come. -/
inductive Stage where
  | unstarted
  | waiting
  /-- It has an outcome that its call has not returned. -/
  | settled (outcome : Except TableError Unit)
  | returned (outcome : Except TableError Unit)

namespace Stage

def underWay : Stage → Bool
  | waiting | settled _ => true
  | unstarted | returned _ => false

/-- The outcome that the call has not returned. -/
def untaken? : Stage → Option (Except TableError Unit)
  | settled outcome => some outcome
  | unstarted | waiting | returned _ => none

def outcomes : Stage → List (Except TableError Unit)
  | returned outcome => [outcome]
  | unstarted | waiting | settled _ => []

/-- What a step may make of a write. An outcome that was given is the one that the call returns. -/
inductive Next : Stage → Stage → Prop where
  | stay (stage : Stage) : Next stage stage
  | start : Next unstarted waiting
  | settle (outcome : Except TableError Unit) : Next waiting (settled outcome)
  | expire (limit : Nat) : Next waiting (returned (.error (.timeout limit)))
  | take (outcome : Except TableError Unit) : Next (settled outcome) (returned outcome)

/-- The outcome of a write is given. -/
def Gives (stage : Stage) (outcome : Except TableError Unit) : Prop :=
  stage = settled outcome ∨ stage = returned outcome

theorem Next.gives {stage stage' : Stage} (h : Next stage stage')
    {outcome : Except TableError Unit} (hgives : stage.Gives outcome) : stage'.Gives outcome := by
  rcases hgives with rfl | rfl
  · cases h with
    | stay => exact .inl rfl
    | take => exact .inr rfl
  · cases h
    exact .inr rfl

end Stage

/-- A write has come to a stage. -/
structure Writes.At (ws : Writes) (n : Nat) (stage : Stage) : Prop where
  started : n < ws.next ↔ stage ≠ .unstarted
  call : (∃ w ∈ ws.calls, w.number = n) ↔ stage.underWay = true
  waits : n ∈ ws.waiting ↔ stage = .waiting
  settled : ws.settled.get? n = stage.untaken?
  outcomes : outcomesOf ws.returned n = stage.outcomes

/-- What a step does to the writes, with the numbers of those that it gives an outcome. -/
inductive Turn (ws : Writes) : List Nat → Writes → Prop where
  | keep : Turn ws [] ws
  | start {w : LocalWrite} (hnumber : w.number = ws.next) :
      Turn ws []
        { ws with
          waiting := ws.waiting ++ [ws.next]
          next := ws.next + 1
          calls := ws.calls ++ [w] }
  | settle {waiting numbers : List Nat} {settled : SortedMap Nat (Except TableError Unit)}
      {outcome : Except TableError Unit} (hnumbers : ∀ n ∈ numbers, n ∈ ws.waiting)
      (hwaiting : ∀ n, n ∈ waiting ↔ n ∈ ws.waiting ∧ n ∉ numbers)
      (hsettled : ∀ n, settled.get? n = if n ∈ numbers then some outcome else ws.settled.get? n) :
      Turn ws numbers { ws with waiting, settled }
  | take {w : LocalWrite} {outcome : Except TableError Unit} (hcall : w ∈ ws.calls)
      (houtcome : ws.settled.get? w.number = some outcome) :
      Turn ws []
        { ws with
          settled := ws.settled.erase w.number
          calls := ws.calls.filter (·.number != w.number)
          returned := ws.returned ++ [(w.number, outcome)] }
  | expire {w : LocalWrite} {limit : Nat} (hcall : w ∈ ws.calls)
      (hnone : ws.settled.get? w.number = none) :
      Turn ws []
        { ws with
          waiting := ws.waiting.filter (· != w.number)
          calls := ws.calls.filter (·.number != w.number)
          returned := ws.returned ++ [(w.number, .error (.timeout limit))] }

/-- The calls after one of them has returned. -/
theorem exists_call_filter {calls : List LocalWrite} {m n : Nat} :
    (∃ w ∈ calls.filter (·.number != m), w.number = n) ↔
      n ≠ m ∧ ∃ w ∈ calls, w.number = n := by
  constructor
  · rintro ⟨w, hw, rfl⟩
    obtain ⟨hw, hne⟩ := List.mem_filter.mp hw
    exact ⟨by simpa using hne, w, hw, rfl⟩
  · rintro ⟨hne, w, hw, rfl⟩
    exact ⟨w, List.mem_filter.mpr ⟨hw, by simpa using hne⟩, rfl⟩

/-- **The step lemma for one write.** Whatever the step is, the write stays at its stage or goes on
to one that may follow; a step for another write leaves it where it is. -/
theorem Turn.at {ws ws' : Writes} {numbers : List Nat} (h : Turn ws numbers ws') {n : Nat}
    {stage : Stage} (hs : ws.At n stage) : ∃ stage', ws'.At n stage' ∧ stage.Next stage' := by
  cases h with
  | keep => exact ⟨stage, hs, .stay stage⟩
  | @start w hnumber =>
    by_cases hn : n = ws.next
    · have hstage : stage = .unstarted := by
        by_contra hne
        exact Nat.lt_irrefl _ (hn ▸ hs.started.mpr hne)
      subst hstage
      refine ⟨.waiting, ⟨?_, ?_, ?_, hs.settled, hs.outcomes⟩, .start⟩
      · simp [hn]
      · simpa [Stage.underWay] using Or.inr (hnumber.trans hn.symm)
      · simp [hn]
    · refine ⟨stage, ⟨?_, ?_, ?_, hs.settled, hs.outcomes⟩, .stay stage⟩
      · rw [← hs.started]
        show n < ws.next + 1 ↔ n < ws.next
        omega
      · have hne : w.number ≠ n := fun h => hn (h.symm.trans hnumber)
        simp [← hs.call, hne]
      · simp [← hs.waits, hn]
  | @settle waiting numbers settled outcome hnumbers hwaiting hsettled =>
    by_cases hn : n ∈ numbers
    · obtain rfl := hs.waits.mp (hnumbers n hn)
      refine ⟨.settled outcome, ⟨hs.started.trans (by simp), hs.call, ?_, ?_, hs.outcomes⟩,
        .settle outcome⟩
      · simp [hwaiting, hn]
      · simp [hsettled, hn, Stage.untaken?]
    · refine ⟨stage, ⟨hs.started, hs.call, ?_, ?_, hs.outcomes⟩, .stay stage⟩
      · simp [hwaiting, hn, hs.waits]
      · simp [hsettled, hn, hs.settled]
  | @take w outcome hcall houtcome =>
    by_cases hn : n = w.number
    · subst hn
      have hstage : stage = .settled outcome := by
        have huntaken := hs.settled.symm.trans houtcome
        cases stage <;> simp_all [Stage.untaken?]
      subst hstage
      refine ⟨.returned outcome, ⟨hs.started.trans (by simp), ?_, ?_, ?_, ?_⟩, .take outcome⟩
      · simp [Stage.underWay]
      · exact hs.waits.trans (by simp)
      · simp [Stage.untaken?]
      · simp [hs.outcomes, Stage.outcomes]
    · refine ⟨stage, ⟨hs.started, ?_, hs.waits, ?_, ?_⟩, .stay stage⟩
      · simp only [exists_call_filter, ne_eq, hn, not_false_eq_true, true_and, hs.call]
      · simp [hn, hs.settled]
      · simp [hs.outcomes, Ne.symm hn]
  | @expire w limit hcall hnone =>
    by_cases hn : n = w.number
    · subst hn
      have hstage : stage = .waiting := by
        have huntaken := hs.settled.symm.trans hnone
        have hunderWay := hs.call.mp ⟨w, hcall, rfl⟩
        cases stage <;> simp_all [Stage.untaken?, Stage.underWay]
      subst hstage
      refine ⟨.returned (.error (.timeout limit)), ⟨hs.started.trans (by simp), ?_, ?_, ?_, ?_⟩,
        .expire limit⟩
      · simp [Stage.underWay]
      · simp
      · simp [hnone, Stage.untaken?]
      · simp [hs.outcomes, Stage.outcomes]
    · refine ⟨stage, ⟨hs.started, ?_, ?_, hs.settled, ?_⟩, .stay stage⟩
      · simp only [exists_call_filter, ne_eq, hn, not_false_eq_true, true_and, hs.call]
      · simp [hn, hs.waits]
      · simp [hs.outcomes, Ne.symm hn]

/-- A step leaves an outcome to be taken only if it was there before or is given now. -/
theorem Turn.settled_before {ws ws' : Writes} {numbers : List Nat} (h : Turn ws numbers ws')
    {n : Nat} {outcome : Except TableError Unit} (hget : ws'.settled.get? n = some outcome) :
    n ∈ numbers ∨ ws.settled.get? n = some outcome := by
  cases h with
  | keep => exact .inr hget
  | start => exact .inr hget
  | settle _ _ hsettled =>
    by_cases hn : n ∈ numbers
    · exact .inl hn
    · rw [hsettled, if_neg hn] at hget
      exact .inr hget
  | @take w =>
    simp only [SortedMap.get?_erase] at hget
    split at hget
    · cases hget
    · exact .inr hget
  | expire => exact .inr hget

/-- A write with an outcome to be taken has come so far. -/
theorem Writes.At.gives {ws : Writes} {n : Nat} {stage : Stage} (h : ws.At n stage)
    {outcome : Except TableError Unit} (hget : ws.settled.get? n = some outcome) :
    stage.Gives outcome := by
  have huntaken := h.settled.symm.trans hget
  cases stage <;> simp_all [Stage.untaken?, Stage.Gives]

namespace Life

/-- The writes of a table and their calls. -/
def writes (s : Life) : Writes :=
  ⟨s.table.waiting, s.table.settled, s.table.nextWrite, s.calls, s.returned⟩

/-- A step from one state to another: what it does to the writes, and that those are told whose
writes have got an outcome. -/
structure Turned (s : Life) (numbers : List Nat) (s' : Life) : Prop where
  turn : Turn s.writes numbers s'.writes
  notices : s.notices ⊆ s'.notices
  told : ∀ n ∈ numbers, .outcome n ∈ s'.notices

namespace Turned

variable {s s' : Life}

theorem refl (s : Life) : s.Turned [] s := ⟨.keep, List.Subset.refl _, by simp⟩

/-- Who connects and who follows a feed does not matter to the writes. -/
theorem congr {numbers : List Nat} {s₁ : Life} (h : s.Turned numbers s₁)
    (hwrites : s'.writes = s₁.writes) (hnotices : s'.notices = s₁.notices) :
    s.Turned numbers s' :=
  ⟨hwrites ▸ h.turn, hnotices ▸ h.notices, hnotices ▸ h.told⟩

/-- A step of the table with what it does to the writes. -/
theorem act {numbers : List Nat} {result : Table × List TableNotice}
    (hturn : Turn s.writes numbers (s.act result).writes)
    (htold : ∀ n ∈ numbers, .outcome n ∈ result.2) : s.Turned numbers (s.act result) :=
  ⟨hturn, List.subset_append_left _ _, fun n hn => List.mem_append_right _ (htold n hn)⟩

/-- A step of the table that leaves its writes. -/
theorem keep {parts : List Part} {result : Table × List TableNotice}
    (h : Alters parts s.table result.1) (hwrites : Part.writes ∉ parts)
    (hnumbers : Part.numbers ∉ parts) : s.Turned [] (s.act result) := by
  have hsame : (s.act result).writes = s.writes := by
    simp only [writes, Life.act, h.waiting hwrites, h.settled hwrites, h.nextWrite hnumbers]
  exact act (hsame ▸ .keep) (by simp)

/-- A step of the table after which nothing waits. -/
theorem drain {e : TableError} {result : Table × List TableNotice}
    (h : Drained s.table e result) : s.Turned s.table.waiting (s.act result) := by
  have hwrites : (s.act result).writes =
      { s.writes with waiting := [], settled := result.1.settled } := by
    simp only [writes, Life.act, h.nextWrite, h.waiting]
  refine act ?_ h.told
  rw [hwrites]
  exact .settle (fun _ h => h) (fun n => by simp [writes]) h.settled

end Turned

theorem answer_turned (s : Life) (number : Nat) (reply : Option Reply) :
    ∃ numbers, s.Turned numbers (s.step (.answer number reply)) := by
  simp only [step]
  by_cases hwaits : number ∈ s.table.waiting
  · rw [settle_of_waiting hwaits]
    refine ⟨[number], .act ?_ (by simp)⟩
    have hnumbers : ∀ n ∈ [number], n ∈ s.writes.waiting := by simpa [writes] using hwaits
    have hsettled : ∀ n, (s.table.settled.insert number (writeOutcome reply)).get? n =
        if n ∈ [number] then some (writeOutcome reply) else s.table.settled.get? n := by simp
    exact .settle hnumbers (fun n => by simp [writes, Life.act]) hsettled
  · rw [settle_of_not_waiting hwaits]
    exact ⟨[], .keep (.refl [] _) (by decide) (by decide)⟩

theorem resume_turned (s : Life) (number : Nat) (passed : Option Nat) :
    s.Turned [] (s.step (.resume number passed)) := by
  simp only [step]
  split
  · exact .refl s
  · next w hfind =>
    split
    · exact .refl s
    · next outcome t notices hreturns =>
      have hcall : w ∈ s.calls := List.mem_of_find?_eq_some hfind
      obtain rfl : w.number = number := by simpa using List.find?_some hfind
      refine ⟨?_, List.subset_append_left _ _, by simp⟩
      obtain ⟨t₁, -, hrows, htaken, -⟩ := resumeWrite_cases hreturns
      simp only [writes, act, hrows.waiting (by decide), hrows.settled (by decide),
        hrows.nextWrite (by decide)]
      rcases htaken with ⟨hget, rfl⟩ | ⟨hget, ⟨limit, rfl⟩, rfl⟩
      · exact .take hcall hget
      · exact .expire hcall hget

/-- What a step does to the writes. -/
theorem step_turn {s : Life} (hs : s.Linked) (m : Move) :
    ∃ numbers, s.Turned numbers (s.step m) := by
  cases m with
  | connect =>
    simp only [step]
    split
    · exact ⟨[], .refl s⟩
    · next t hbegin =>
      have hframe := alters_beginConnect hbegin (some s.nextFeed)
      exact ⟨[], (Turned.keep hframe (by decide) (by decide)).congr rfl rfl⟩
  | feedFailed feed =>
    have hframe := s.table.alters_connectFailed feed
    simp only [step]
    split
    · exact ⟨[], (Turned.keep hframe (by decide) (by decide)).congr rfl rfl⟩
    · exact ⟨[], .refl s⟩
  | feedConnected feed rows =>
    simp only [step]
    split
    · split
      · exact ⟨[], (Turned.refl s).congr rfl rfl⟩
      · next result hfinish =>
        have hframe := alters_finishConnect hfinish
        exact ⟨[], (Turned.keep hframe (by decide) (by decide)).congr rfl rfl⟩
    · exact ⟨[], .refl s⟩
  | abandon feed => exact ⟨[], (Turned.refl s).congr rfl rfl⟩
  | change feed c =>
    simp only [step]
    split
    · exact ⟨[], .keep (s.table.alters_applyChange c) (by decide) (by decide)⟩
    · exact ⟨[], .refl s⟩
  | lose feed =>
    simp only [step]
    split
    · by_cases hfeed : s.table.feed = some feed
      · have hdrained := (feedClosed_drained hfeed (hs.open_of_feed hfeed)).1
        exact ⟨_, (Turned.drain hdrained).congr rfl rfl⟩
      · rw [feedClosed_of_ne hfeed]
        exact ⟨[], (Turned.keep (.refl [] s.table) (by decide) (by decide)).congr rfl rfl⟩
    · exact ⟨[], .refl s⟩
  | close =>
    by_cases hstate : s.table.state = .closed
    · simp only [step, close_of_closed hstate]
      exact ⟨[], .keep (.refl [] s.table) (by decide) (by decide)⟩
    · exact ⟨_, .drain (close_drained hstate).1⟩
  | start record =>
    simp only [step]
    split
    · exact ⟨[], .refl s⟩
    · next t notices w hok =>
      obtain ⟨-, hnumber, t₁, hrows, rfl⟩ := beginWrite_waits hok
      refine ⟨[], ?_, List.subset_append_left _ _, by simp⟩
      simp only [writes, act, hrows.waiting (by decide), hrows.settled (by decide),
        hrows.nextWrite (by decide)]
      exact .start hnumber
  | answer number reply => exact s.answer_turned number reply
  | resume number passed => exact ⟨[], s.resume_turned number passed⟩

/-! ## Runs -/

/-- The connection is in line, every write has come to a stage, and whoever waits for a write with
an outcome was told. -/
structure Staged (s : Life) : Prop where
  linked : s.Linked
  stage : ∀ n, ∃ stage, s.writes.At n stage
  told : ∀ n outcome, s.table.settled.get? n = some outcome → .outcome n ∈ s.notices

theorem staged_start (schema : Schema) (query : Query) (settings : Settings) :
    (start schema query settings).Staged where
  linked := ⟨.disconnected rfl rfl (by simp [start]) rfl, by simp [start]⟩
  stage n := by
    refine ⟨.unstarted, ?_, ?_, ?_, rfl, rfl⟩
    · simp [writes, start, Table.new]
    · simp [writes, start, Stage.underWay]
    · simp [writes, start, Table.new]
  told n outcome h := by simp [start, Table.new] at h

theorem Staged.step {s : Life} (hs : s.Staged) (m : Move) : (s.step m).Staged := by
  obtain ⟨numbers, hturn, hnotices, htold⟩ := step_turn hs.linked m
  refine ⟨hs.linked.step m, fun n => ?_, fun n outcome hget => ?_⟩
  · obtain ⟨stage, hat⟩ := hs.stage n
    obtain ⟨stage', hat', -⟩ := hturn.at hat
    exact ⟨stage', hat'⟩
  · rcases hturn.settled_before hget with hn | hbefore
    · exact htold n hn
    · exact hnotices (hs.told n outcome hbefore)

theorem Staged.run {s : Life} (hs : s.Staged) (moves : List Move) : (s.run moves).Staged := by
  induction moves generalizing s with
  | nil => exact hs
  | cons m moves ih => exact ih (hs.step m)

/-- The outcome of a write is given for good. -/
theorem gives_run {s : Life} (hs : s.Staged) {n : Nat} {outcome : Except TableError Unit}
    {stage : Stage} (hat : s.writes.At n stage) (hgives : stage.Gives outcome) (moves : List Move) :
    ∃ stage', (s.run moves).writes.At n stage' ∧ stage'.Gives outcome := by
  induction moves generalizing s stage with
  | nil => exact ⟨stage, hat, hgives⟩
  | cons m moves ih =>
    obtain ⟨numbers, hturn, -, -⟩ := step_turn hs.linked m
    obtain ⟨stage', hat', hnext⟩ := hturn.at hat
    exact ih (hs.step m) hat' (hnext.gives hgives)

/-- A call that goes on and returns. -/
theorem outcomes_resume {s : Life} {n : Nat} (hcall : ∃ w ∈ s.calls, w.number = n)
    {passed : Option Nat} (outcome : Except TableError Unit)
    (h : ∀ w : LocalWrite, w.number = n →
      ∃ t notices, s.table.resumeWrite w passed = some (outcome, t, notices)) :
    (s.step (.resume n passed)).outcomes n = s.outcomes n ++ [outcome] := by
  obtain ⟨w, hw, hnumber⟩ := hcall
  have hsome : (s.calls.find? (·.number == n)).isSome := by
    rw [List.find?_isSome]
    exact ⟨w, hw, by simpa using hnumber⟩
  obtain ⟨found, hfind⟩ := Option.isSome_iff_exists.mp hsome
  obtain ⟨t, notices, hreturns⟩ := h found (by simpa using List.find?_some hfind)
  simp [step, hfind, hreturns, outcomes]

theorem answer_of_not_waiting {s : Life} {n : Nat} (h : n ∉ s.table.waiting)
    (reply : Option Reply) : s.step (.answer n reply) = s := by
  simp [step, settle_of_not_waiting h, act]

/-- A write whose outcome is given. -/
theorem decided_of_gives {s : Life} {n : Nat} {outcome : Except TableError Unit} {stage : Stage}
    (hat : s.writes.At n stage) (hgives : stage.Gives outcome) : s.Decided n outcome := by
  rcases hgives with rfl | rfl
  · have hnone : s.outcomes n = [] := hat.outcomes
    refine ⟨.inr ⟨hnone, fun passed => ?_⟩, answer_of_not_waiting ?_⟩
    · rw [outcomes_resume (hat.call.mpr rfl) outcome, hnone, List.nil_append]
      intro w hw
      obtain ⟨t, notices, hreturns⟩ := resumeWrite_of_settled (hw ▸ hat.settled) passed
      exact ⟨t, notices, hreturns⟩
    · intro hwaits
      cases hat.waits.mp hwaits
  · refine ⟨.inl hat.outcomes, answer_of_not_waiting ?_⟩
    intro hwaits
    cases hat.waits.mp hwaits

/-- A write that has got an outcome keeps it in every run. -/
theorem Staged.decided_run {s : Life} (hs : s.Staged) {n : Nat}
    {outcome : Except TableError Unit} (hget : s.table.settled.get? n = some outcome)
    (moves : List Move) : (s.run moves).Decided n outcome := by
  obtain ⟨stage, hat⟩ := hs.stage n
  obtain ⟨stage', hat', hgives⟩ := gives_run hs hat (hat.gives hget) moves
  exact decided_of_gives hat' hgives

/-! ## No write is left waiting -/

/-- A step after which no write waits, and the failure of those that have waited: the table loses
its feed, or it is closed. -/
inductive Ends (s : Life) : Move → TableError → Prop where
  | lost {feed : FeedId} (hfollowed : feed ∈ s.followed) (hfeed : s.table.feed = some feed) :
      Ends s (.lose feed) .disconnected
  | closed : Ends s .close .closed

/-- No write is left waiting. -/
structure NoneStranded (s : Life) : Prop where
  /-- Writes wait only in a connected table, whose feed is followed so that its loss is noticed. -/
  connected : s.table.waiting ≠ [] →
    s.table.state = .connected ∧ ∃ feed ∈ s.followed, s.table.feed = some feed
  /-- The call of a write returns at most once. -/
  once : ∀ n, (s.outcomes n).length ≤ 1
  /-- A write whose call has not returned waits, or its call was told and returns when it goes
  on. -/
  underWay : ∀ n < s.table.nextWrite, s.outcomes n = [] →
    n ∈ s.table.waiting ∨ .outcome n ∈ s.notices ∧ ∃ outcome, s.Decided n outcome
  /-- A write that waits fails when its limit has passed. -/
  expired : ∀ n ∈ s.table.waiting, ∀ limit,
    (s.step (.resume n (some limit))).outcomes n = [.error (.timeout limit)]
  /-- The first answer to a write that waits decides its outcome. -/
  answered : ∀ n ∈ s.table.waiting, ∀ reply later,
    ((s.step (.answer n reply)).run later).Decided n (writeOutcome reply)
  /-- When the table loses its feed or is closed, nothing waits any more, and all writes that have
  waited fail accordingly, whatever happens later. -/
  ended : ∀ move e, s.Ends move e → (s.step move).table.waiting = [] ∧
    ∀ n ∈ s.table.waiting, .outcome n ∈ (s.step move).notices ∧
      ∀ later, ((s.step move).run later).Decided n (.error e)
  /-- The loss of a feed that is not the one of the table leaves the table. -/
  stale : ∀ feed, s.table.feed ≠ some feed → (s.step (.lose feed)).table = s.table

namespace Staged

variable {s : Life}

theorem length_outcomes_le (hs : s.Staged) (n : Nat) : (s.outcomes n).length ≤ 1 := by
  obtain ⟨stage, hat⟩ := hs.stage n
  have houtcomes : s.outcomes n = stage.outcomes := hat.outcomes
  cases stage <;> simp [houtcomes, Stage.outcomes]

theorem waiting_or_decided (hs : s.Staged) {n : Nat} (hn : n < s.table.nextWrite)
    (hnone : s.outcomes n = []) :
    n ∈ s.table.waiting ∨ .outcome n ∈ s.notices ∧ ∃ outcome, s.Decided n outcome := by
  obtain ⟨stage, hat⟩ := hs.stage n
  cases stage with
  | unstarted => exact absurd rfl (hat.started.mp hn)
  | waiting => exact .inl (hat.waits.mpr rfl)
  | settled outcome =>
    exact .inr ⟨hs.told n outcome hat.settled, outcome, decided_of_gives hat (.inl rfl)⟩
  | returned outcome => cases hnone.symm.trans hat.outcomes

theorem outcomes_of_passed (hs : s.Staged) {n : Nat} (hwaits : n ∈ s.table.waiting) (limit : Nat) :
    (s.step (.resume n (some limit))).outcomes n = [.error (.timeout limit)] := by
  obtain ⟨stage, hat⟩ := hs.stage n
  obtain rfl := hat.waits.mp hwaits
  have hnone : s.outcomes n = [] := hat.outcomes
  rw [outcomes_resume (hat.call.mpr rfl) (.error (.timeout limit)), hnone, List.nil_append]
  intro w hw
  obtain ⟨t, notices, hreturns⟩ := (resumeWrite_of_unsettled (hw ▸ hat.settled)).2 limit
  exact ⟨t, notices, hreturns⟩

theorem decided_of_answer (hs : s.Staged) {n : Nat} (hwaits : n ∈ s.table.waiting)
    (reply : Option Reply) (later : List Move) :
    ((s.step (.answer n reply)).run later).Decided n (writeOutcome reply) := by
  refine (hs.step _).decided_run ?_ later
  simp [Life.step, settle_of_waiting hwaits, act]

/-- Writes that wait get their failure when the table loses its feed or is closed. -/
theorem settled_of_ends (hs : s.Staged) {move : Move} {e : TableError} (h : s.Ends move e) :
    (s.step move).table.waiting = [] ∧
      ∀ n ∈ s.table.waiting, (s.step move).table.settled.get? n = some (.error e) := by
  cases h with
  | @lost feed hfollowed hfeed =>
    have hdrained := (feedClosed_drained hfeed (hs.linked.open_of_feed hfeed)).1
    simp only [Life.step, hfollowed, if_true]
    exact ⟨hdrained.waiting, fun n hn => (hdrained.settled n).trans (if_pos hn)⟩
  | closed =>
    by_cases hclosed : s.table.state = .closed
    · have hnone : s.table.waiting = [] := by
        by_contra hwaiting
        have hstate := (hs.linked.connected_of_waiting hwaiting).1
        simp [hclosed] at hstate
      simp [Life.step, act, close_of_closed hclosed, hnone]
    · have hdrained := (close_drained hclosed).1
      exact ⟨hdrained.waiting, fun n hn => (hdrained.settled n).trans (if_pos hn)⟩

end Staged

/-- In every run of a table, with connecting, feeds that are lost, writes, answers, limits that pass
and closing in any order, no write is left waiting. -/
theorem noneStranded_run (schema : Schema) (query : Query) (settings : Settings)
    (moves : List Move) :
    ((start schema query settings).run moves).NoneStranded := by
  have hs := (staged_start schema query settings).run moves
  generalize (start schema query settings).run moves = s at hs
  refine ⟨hs.linked.connected_of_waiting, hs.length_outcomes_le,
    fun n hn hnone => hs.waiting_or_decided hn hnone,
    fun n hwaits limit => hs.outcomes_of_passed hwaits limit,
    fun n hwaits reply later => hs.decided_of_answer hwaits reply later,
    fun move e h => ?_, fun feed hfeed => ?_⟩
  · obtain ⟨hnone, hsettled⟩ := hs.settled_of_ends h
    refine ⟨hnone, fun n hn => ?_⟩
    have hget := hsettled n hn
    exact ⟨(hs.step move).told n _ hget, (hs.step move).decided_run hget⟩
  · simp only [step]
    split
    · rw [feedClosed_of_ne hfeed]
      rfl
    · rfl

-- The table loses its feed under a write and connects again before the write is answered.
example :
    ((start ⟨"t", ["id"]⟩ (.all "t") .brisk).run
      [.connect, .feedConnected 0 [], .start (.ofList [("id", .ofNat 1)]), .lose 0, .connect,
        .feedConnected 1 [], .answer 0 (some (.ok .cancelled)), .resume 0 none]).outcomes 0 =
      [.error .disconnected] := by
  rfl

end Life

end Table

end LiveDocs

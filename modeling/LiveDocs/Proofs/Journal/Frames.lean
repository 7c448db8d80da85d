import LiveDocs.Proofs.Journal.Encoding
import LiveDocs.Proofs.InsertionSort

/-!
# Frames of a journal file

A journal file is a row of whole frames and what is left behind the last of them
(`Replay.frames_append_leftover`). What is left is empty or *torn*: too short for a length, or
shorter than its length says. Scanning takes whole frames one by one whatever follows them
(`Replay.scan_append`), so bytes that are added to a file are scanned from where its leftover
begins, not from where the file ended.

Good entries are put in the order of their sequence numbers. Entries with increasing numbers above
all others keep their place at the end (`Replay.sortBySequence_append`).

## Main definitions

* `Replay.frameOf`: a body behind its length.
* `Replay.scan`: the bodies of a file.
* `Replay.Torn`, `Replay.leftover`: the bytes behind the last whole frame.

## Main results

* `Replay.entries_append_eq_iff`: the entries of a file with bytes added to it.
* `Replay.goodEntries_frames`, `Replay.take_frames`: the entries of a row of frames, and such a row
  cut anywhere.
-/

namespace LiveDocs

namespace Replay

/-- A body behind its length in four bytes. -/
def frameOf (body : Bytes) : Bytes := Bytes.ofNat 4 body.length ++ body

/-- The bodies of the whole frames of a file. -/
def scan (bytes : Bytes) : List Bytes := (bodies (bytes.length + 1) bytes).1

/-- Bytes that begin no whole frame. -/
def Torn (bytes : Bytes) : Prop :=
  bytes.length < 4 ∨ bytes.length < 4 + Bytes.toNat (bytes.take 4)

/-- What is left behind the last whole frame. -/
def leftover (bytes : Bytes) : Bytes := bytes.drop ((scan bytes).flatMap frameOf).length

theorem frame_eq (e : JournalEntry) : e.frame = frameOf e.body := rfl

@[simp] theorem length_frameOf (body : Bytes) : (frameOf body).length = 4 + body.length := by
  simp [frameOf]

/-- Bytes either begin with a whole frame or are torn. -/
theorem frameOf_or_torn (bytes : Bytes) :
    (∃ body rest, bytes = frameOf body ++ rest ∧ body.length < 0x100000000) ∨ Torn bytes := by
  by_cases htorn : Torn bytes
  · exact .inr htorn
  · simp only [Torn, not_or, Nat.not_lt] at htorn
    have hfour : (bytes.take 4).length = 4 := by rw [List.length_take]; omega
    have hlt := Bytes.toNat_lt (bytes.take 4)
    have hbody : ((bytes.drop 4).take (Bytes.toNat (bytes.take 4))).length =
        Bytes.toNat (bytes.take 4) := by rw [List.length_take, List.length_drop]; omega
    refine .inl ⟨(bytes.drop 4).take (Bytes.toNat (bytes.take 4)),
      (bytes.drop 4).drop (Bytes.toNat (bytes.take 4)), ?_, ?_⟩
    · have hlength := Bytes.ofNat_toNat (bytes.take 4)
      rw [hfour] at hlength
      rw [frameOf, hbody, hlength, List.append_assoc, List.take_append_drop,
        List.take_append_drop]
    · rw [hbody]
      simpa [hfour] using hlt

theorem bodies_frameOf (fuel : Nat) {body : Bytes} (h : body.length < 0x100000000) (rest : Bytes) :
    bodies (fuel + 1) (frameOf body ++ rest) =
      (body :: (bodies fuel rest).1, (bodies fuel rest).2) := by
  have hread := Bytes.toNat_ofNat 4 (n := body.length) (by simpa using h)
  have hlength : Bytes.split? 4 (frameOf body ++ rest) =
      some (Bytes.ofNat 4 body.length, body ++ rest) := by
    rw [frameOf, List.append_assoc]
    exact Bytes.split?_append (Bytes.length_ofNat 4 body.length) _
  have hbody : Bytes.split? (Bytes.ofNat 4 body.length).toNat (body ++ rest) = some (body, rest) :=
    Bytes.split?_append hread.symm rest
  cases hcons : frameOf body ++ rest with
  | nil => simp [frameOf, Bytes.ofNat] at hcons
  | cons b bytes =>
    rw [hcons] at hlength
    simp only [bodies, hlength, hbody]

theorem bodies_torn (fuel : Nat) {bytes : Bytes} (h : Torn bytes) :
    bodies (fuel + 1) bytes = ([], !bytes.isEmpty) := by
  cases bytes with
  | nil => rfl
  | cons b bytes =>
    rcases h with h | h
    · simp [bodies, Bytes.split?_eq_none h]
    · by_cases hfour : 4 ≤ (b :: bytes).length
      · have hsplit : Bytes.split? 4 (b :: bytes) =
            some ((b :: bytes).take 4, (b :: bytes).drop 4) := by rw [Bytes.split?, if_pos hfour]
        have hbody :
            Bytes.split? (Bytes.toNat ((b :: bytes).take 4)) ((b :: bytes).drop 4) = none :=
          Bytes.split?_eq_none (by simp only [List.length_drop]; omega)
        simp only [bodies, hsplit, hbody]
        rfl
      · simp [bodies, Bytes.split?_eq_none (Nat.not_le.mp hfour)]

/-- Fuel for every byte is enough: a frame takes at least four of them. -/
theorem bodies_fuel {fuel fuel' : Nat} {bytes : Bytes} (h : bytes.length < fuel)
    (h' : bytes.length < fuel') : bodies fuel bytes = bodies fuel' bytes := by
  induction fuel generalizing fuel' bytes with
  | zero => omega
  | succ fuel ih =>
    cases fuel' with
    | zero => omega
    | succ fuel' =>
      rcases frameOf_or_torn bytes with ⟨body, rest, rfl, hbody⟩ | htorn
      · simp only [List.length_append, length_frameOf] at h h'
        have hrest : bodies fuel rest = bodies fuel' rest := ih (by omega) (by omega)
        rw [bodies_frameOf fuel hbody, bodies_frameOf fuel' hbody, hrest]
      · rw [bodies_torn fuel htorn, bodies_torn fuel' htorn]

theorem scan_frameOf {body : Bytes} (h : body.length < 0x100000000) (rest : Bytes) :
    scan (frameOf body ++ rest) = body :: scan rest := by
  have hfuel : bodies (frameOf body ++ rest).length rest = bodies (rest.length + 1) rest :=
    bodies_fuel (by rw [List.length_append, length_frameOf]; omega) (Nat.lt_succ_self _)
  rw [scan, bodies_frameOf _ h, hfuel]
  rfl

theorem scan_torn {bytes : Bytes} (h : Torn bytes) : scan bytes = [] := by
  rw [scan, bodies_torn _ h]

theorem torn_nil : Torn [] := .inl (by decide)

/-- Whole frames are scanned one by one, whatever follows them. -/
theorem scan_frames {bodies : List Bytes} (h : ∀ body ∈ bodies, body.length < 0x100000000)
    (rest : Bytes) : scan (bodies.flatMap frameOf ++ rest) = bodies ++ scan rest := by
  induction bodies with
  | nil => rfl
  | cons body bodies ih =>
    rw [List.flatMap_cons, List.append_assoc, scan_frameOf (h body List.mem_cons_self),
      ih fun b hb => h b (List.mem_cons_of_mem _ hb)]
    rfl

/-- Every file is a row of whole frames and a torn rest. -/
theorem exists_frames (bytes : Bytes) :
    ∃ (bodies : List Bytes) (rest : Bytes), bytes = bodies.flatMap frameOf ++ rest ∧ Torn rest ∧
      ∀ body ∈ bodies, body.length < 0x100000000 := by
  induction hn : bytes.length using Nat.strongRecOn generalizing bytes with
  | ind n ih =>
    rcases frameOf_or_torn bytes with ⟨body, rest, rfl, hbody⟩ | htorn
    · obtain ⟨bodies, tail, hrest, htail, hbodies⟩ :=
        ih rest.length (by rw [List.length_append, length_frameOf] at hn; omega) rest rfl
      refine ⟨body :: bodies, tail, ?_, htail, ?_⟩
      · rw [List.flatMap_cons, List.append_assoc, ← hrest]
      · exact List.forall_mem_cons.mpr ⟨hbody, hbodies⟩
    · exact ⟨[], bytes, rfl, htorn, by simp⟩

/-- A file is the frames it scans as, and its leftover, which is torn. -/
theorem frames_append_leftover (bytes : Bytes) :
    bytes = (scan bytes).flatMap frameOf ++ leftover bytes ∧ Torn (leftover bytes) ∧
      ∀ body ∈ scan bytes, body.length < 0x100000000 := by
  obtain ⟨bodies, rest, hbytes, hrest, hbodies⟩ := exists_frames bytes
  have hscan : scan bytes = bodies := by
    rw [hbytes, scan_frames hbodies, scan_torn hrest, List.append_nil]
  have hleft : leftover bytes = rest := by
    rw [leftover, hscan, hbytes, List.drop_left]
  rw [hscan, hleft]
  exact ⟨hbytes, hrest, hbodies⟩

/-- Bytes added to a file are scanned from where its leftover begins. -/
theorem scan_append (bytes more : Bytes) :
    scan (bytes ++ more) = scan bytes ++ scan (leftover bytes ++ more) := by
  obtain ⟨hbytes, -, hbodies⟩ := frames_append_leftover bytes
  conv => lhs; rw [hbytes, List.append_assoc]
  exact scan_frames hbodies _

/-- A frame that is cut short is torn. -/
theorem torn_take_frameOf {body : Bytes} (h : body.length < 0x100000000) {count : Nat}
    (hcount : count < (frameOf body).length) : Torn ((frameOf body).take count) := by
  rw [length_frameOf] at hcount
  by_cases hfour : count < 4
  · exact .inl (by rw [List.length_take]; omega)
  · have hread := Bytes.toNat_ofNat 4 (n := body.length) (by simpa using h)
    have htake : ((frameOf body).take count).take 4 = Bytes.ofNat 4 body.length := by
      have hmin : min 4 count = 4 := by omega
      rw [List.take_take, hmin, frameOf, List.take_left' (Bytes.length_ofNat 4 _)]
    refine .inr ?_
    rw [htake, hread]
    simp only [List.length_take, length_frameOf]
    omega

/-! ## Entries in the order of their numbers -/

/-- Later entries have greater numbers. -/
abbrev Increasing (entries : List JournalEntry) : Prop :=
  entries.Pairwise fun a b => a.sequence < b.sequence

instance : OrderedKey UInt64 where
  trans := UInt64.lt_trans
  irrefl := UInt64.lt_irrefl
  lt_of_not_lt_of_ne h hne := UInt64.lt_of_le_of_ne (UInt64.not_lt.mp h) hne.symm

theorem insertBySequence_eq (e : JournalEntry) (entries : List JournalEntry) :
    insertBySequence e entries = entries.orderedInsert (fun a b => a.sequence < b.sequence) e := by
  induction entries with
  | nil => rfl
  | cons first rest ih => rw [insertBySequence, List.orderedInsert_cons, ih]

theorem sortBySequence_eq (entries : List JournalEntry) :
    sortBySequence entries = insertEach JournalEntry.sequence entries := by
  simp only [sortBySequence, insertEach, insertBySequence_eq]

theorem sortBySequence_concat (entries : List JournalEntry) (e : JournalEntry) :
    sortBySequence (entries ++ [e]) = insertBySequence e (sortBySequence entries) := by
  simp [sortBySequence]

theorem sortBySequence_perm (entries : List JournalEntry) :
    (sortBySequence entries).Perm entries := by
  rw [sortBySequence_eq]
  exact insertEach_perm _ entries

/-- Sorted entries have numbers that do not decrease. -/
theorem sortBySequence_sorted (entries : List JournalEntry) :
    (sortBySequence entries).Pairwise fun a b => a.sequence ≤ b.sequence := by
  rw [sortBySequence_eq]
  exact (insertEach_sorted JournalEntry.sequence entries).imp UInt64.not_lt.mp

/-- An entry goes behind those with lower numbers. -/
theorem insertBySequence_append {e : JournalEntry} {low : List JournalEntry}
    (h : ∀ f ∈ low, f.sequence < e.sequence) (high : List JournalEntry) :
    insertBySequence e (low ++ high) = low ++ insertBySequence e high := by
  induction low with
  | nil => rfl
  | cons first low ih =>
    have hfirst : ¬ e.sequence < first.sequence :=
      UInt64.not_lt.mpr (UInt64.le_of_lt (h first List.mem_cons_self))
    simp only [List.cons_append, insertBySequence, hfirst, if_false]
    rw [ih fun f hf => h f (List.mem_cons_of_mem _ hf)]

/-- Entries with greater numbers are sorted behind the others. -/
theorem sortBySequence_append {low high : List JournalEntry}
    (h : ∀ f ∈ low, ∀ e ∈ high, f.sequence < e.sequence) :
    sortBySequence (low ++ high) = sortBySequence low ++ sortBySequence high := by
  induction high using List.reverseRecOn with
  | nil => simp [sortBySequence]
  | append_singleton high e ih =>
    have hlow : ∀ f ∈ sortBySequence low, f.sequence < e.sequence := fun f hf =>
      h f ((sortBySequence_perm low).mem_iff.mp hf) e (by simp)
    rw [← List.append_assoc, sortBySequence_concat, sortBySequence_concat,
      ih fun f hf g hg => h f hf g (by simp [hg]), insertBySequence_append hlow]

/-- Entries in order stay as they are. -/
theorem sortBySequence_of_increasing {entries : List JournalEntry} (h : Increasing entries) :
    sortBySequence entries = entries := by
  induction entries using List.reverseRecOn with
  | nil => rfl
  | append_singleton entries e ih =>
    obtain ⟨hentries, -, hlast⟩ := List.pairwise_append.mp h
    have hinsert := insertBySequence_append (e := e) (fun f hf => hlast f hf e (by simp)) []
    rw [sortBySequence_concat, ih hentries]
    simpa [insertBySequence] using hinsert

/-! ## The entries of a file -/

/-- The good entries of a file, in the order of the file. -/
def goodEntries (bytes : Bytes) : List JournalEntry := (scan bytes).filterMap good?

theorem entries_ofBytes (bytes : Bytes) :
    (ofBytes bytes).entries = sortBySequence (goodEntries bytes) := rfl

theorem goodEntries_append (bytes more : Bytes) :
    goodEntries (bytes ++ more) = goodEntries bytes ++ goodEntries (leftover bytes ++ more) := by
  rw [goodEntries, scan_append, List.filterMap_append]
  rfl

/-- A sound entry is a good one. -/
theorem good?_body {e : JournalEntry} (h : e.body.length < 0x100000000)
    (hverify : e.verify = true) : good? e.body = some e := by
  rw [good?, JournalEntry.ofBody?_body h]
  simp [Option.filter, hverify]

/-- The good entries of a row of frames of sound entries, whatever follows it. -/
theorem goodEntries_frames {entries : List JournalEntry}
    (h : ∀ e ∈ entries, e.body.length < 0x100000000 ∧ e.verify = true) (rest : Bytes) :
    goodEntries (entries.flatMap JournalEntry.frame ++ rest) = entries ++ goodEntries rest := by
  have hframes : entries.flatMap JournalEntry.frame =
      (entries.map JournalEntry.body).flatMap frameOf := by
    rw [List.flatMap_map]
    rfl
  have hbodies : ∀ body ∈ entries.map JournalEntry.body, body.length < 0x100000000 := by
    simpa using fun e he => (h e he).1
  have hgood : (entries.map JournalEntry.body).filterMap good? = entries := by
    clear hframes hbodies
    induction entries with
    | nil => rfl
    | cons e entries ih =>
      obtain ⟨he, hentries⟩ := List.forall_mem_cons.mp h
      rw [List.map_cons, List.filterMap_cons, good?_body he.1 he.2, ih hentries]
  rw [goodEntries, hframes, scan_frames hbodies, List.filterMap_append, hgood, goodEntries]

theorem goodEntries_torn {bytes : Bytes} (h : Torn bytes) : goodEntries bytes = [] := by
  rw [goodEntries, scan_torn h, List.filterMap_nil]

/-- A row of frames that is cut anywhere is a shorter row and a torn rest. -/
theorem take_frames {entries : List JournalEntry}
    (h : ∀ e ∈ entries, e.body.length < 0x100000000) (cut : Nat) :
    ∃ count rest, (entries.flatMap JournalEntry.frame).take cut =
      (entries.take count).flatMap JournalEntry.frame ++ rest ∧ Torn rest := by
  induction entries generalizing cut with
  | nil => exact ⟨0, [], by simp, torn_nil⟩
  | cons e entries ih =>
    obtain ⟨he, hentries⟩ := List.forall_mem_cons.mp h
    by_cases hcut : cut < e.frame.length
    · refine ⟨0, e.frame.take cut, ?_, torn_take_frameOf he hcut⟩
      rw [List.flatMap_cons, List.take_append_of_le_length (Nat.le_of_lt hcut)]
      rfl
    · obtain ⟨count, rest, htake, hrest⟩ := ih hentries (cut - e.frame.length)
      refine ⟨count + 1, rest, ?_, hrest⟩
      rw [List.flatMap_cons, List.take_append, List.take_of_length_le (Nat.not_lt.mp hcut), htake,
        List.take_succ_cons, List.flatMap_cons, List.append_assoc]

/-- When bytes are added to a file, its entries are kept with `news` behind them exactly if the
leftover of the file and the new bytes have the entries `news`. -/
theorem entries_append_eq_iff (bytes more : Bytes) {news : List JournalEntry}
    (h : ∀ f ∈ (ofBytes bytes).entries, ∀ e ∈ news, f.sequence < e.sequence) :
    (ofBytes (bytes ++ more)).entries = (ofBytes bytes).entries ++ news ↔
      (ofBytes (leftover bytes ++ more)).entries = news := by
  rw [entries_ofBytes, entries_ofBytes, entries_ofBytes, goodEntries_append]
  rw [entries_ofBytes] at h
  generalize goodEntries bytes = old at h ⊢
  generalize goodEntries (leftover bytes ++ more) = found
  -- Entries found among the new bytes stand behind the old ones as soon as they are `news`.
  have happend (hfound : found.Perm news) :
      sortBySequence (old ++ found) = sortBySequence old ++ sortBySequence found :=
    sortBySequence_append fun f hf e he =>
      h f ((sortBySequence_perm old).mem_iff.mpr hf) e (hfound.mem_iff.mp he)
  constructor
  · intro hsort
    have hperm : (old ++ found).Perm (old ++ news) :=
      (sortBySequence_perm _).symm.trans
        (hsort ▸ (sortBySequence_perm old).append_right news)
    have hfound : found.Perm news := (List.perm_append_left_iff old).mp hperm
    rw [happend hfound] at hsort
    exact List.append_cancel_left hsort
  · intro hsort
    have hfound : found.Perm news := hsort ▸ (sortBySequence_perm found).symm
    rw [happend hfound, hsort]

end Replay

end LiveDocs

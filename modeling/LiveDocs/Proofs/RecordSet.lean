import LiveDocs.Proofs.Record
import LiveDocs.Proofs.Json.Equality
import LiveDocs.RecordSet

/-!
# Record sets

Record sets that are equal stay equal under a patch, since a patch reads only the keys of a set and
the fields of its own steps (`RecordSet.unsigned_apply_congr`).

Every set that can be made is *tidy*: each record stands under its own key and has no `null` fields
(`RecordSet.Reachable.tidy`). A tidy set is read back from its text, provided its records are
(`RecordSet.parse_render`): the text has one line per record, since a written record has no line
feed.

## Main definitions

* `RecordSet.unsigned`: a set with the signs of zeros dropped.
* `RecordSet.Reachable`, `RecordSet.Tidy`: the sets that can be made, and what they have in common.
* `RecordSet.Legible`: sets that their text preserves.
-/

namespace LiveDocs

/-! ## Lines of a text -/

namespace Text

theorem lines_cons {c : Char} (hc : c ≠ '\n') (text : List Char) :
    lines (c :: text) =
      match lines text with
      | [] => [[c]]
      | line :: rest => (c :: line) :: rest :=
  lines.eq_3 c text hc

theorem lines_of_not_mem {line : List Char} (h : '\n' ∉ line) : lines line = [line] := by
  induction line with
  | nil => rfl
  | cons c line ih =>
    obtain ⟨hc, hline⟩ := List.ne_and_not_mem_of_not_mem_cons h
    rw [lines_cons hc.symm, ih hline]

/-- A line ends at its first line feed. -/
theorem lines_append {line : List Char} (h : '\n' ∉ line) (text : List Char) :
    lines (line ++ '\n' :: text) = line :: lines text := by
  induction line with
  | nil => rfl
  | cons c line ih =>
    obtain ⟨hc, hline⟩ := List.ne_and_not_mem_of_not_mem_cons h
    rw [List.cons_append, lines_cons hc.symm, ih hline]

/-- Lines that are joined are the lines of the text. -/
theorem lines_intercalate {ls : List (List Char)} (h : ∀ line ∈ ls, '\n' ∉ line) (hne : ls ≠ []) :
    lines (['\n'].intercalate ls) = ls := by
  induction ls with
  | nil => exact absurd rfl hne
  | cons line ls ih =>
    obtain ⟨hline, hls⟩ := List.forall_mem_cons.mp h
    cases ls with
    | nil => rw [List.intercalate_singleton, lines_of_not_mem hline]
    | cons next ls =>
      rw [List.intercalate_cons_cons, List.append_assoc, List.singleton_append, lines_append hline,
        ih hls (List.cons_ne_nil _ _)]

end Text

/-! ## Written values have no line feed -/

namespace Json

theorem newline_not_mem_escapeChar (c : Char) : '\n' ∉ escapeChar c := by
  have hdigit : ∀ n < 16, '\n' ≠ Nat.digitChar n := by decide
  by_cases hlow : c.toNat < 0x20
  · have hhigh := hdigit (c.toNat / 16) (by omega)
    have hrest := hdigit (c.toNat % 16) (by omega)
    unfold escapeChar
    repeat' split
    all_goals simp [hhigh, hrest]
  · have hc : '\n' ≠ c := by
      rintro rfl
      exact hlow (by decide)
    unfold escapeChar
    repeat' split
    all_goals simp [hc]

theorem newline_not_mem_quote (s : String) : '\n' ∉ quote s := by
  simp [quote, newline_not_mem_escapeChar]

theorem newline_not_mem_number {n : Number} (h : n.ReadsBack) : '\n' ∉ n.chars := by
  intro hn
  have hchar := h.isNumeralChar.2 '\n' hn
  revert hchar
  decide

mutual

/-- Line feeds in strings are escaped and the text of a number has none, so a value is written on
one line. -/
theorem newline_not_mem_chars : (j : Json) → j.ReadsBack → '\n' ∉ j.chars
  | null, _ => by decide
  | bool true, _ => by decide
  | bool false, _ => by decide
  | num _, h => by simpa [chars] using newline_not_mem_number h
  | str s, _ => by simpa [chars] using newline_not_mem_quote s
  | arr [], _ => by decide
  | arr (item :: rest), h => by
    simp [chars, newline_not_mem_chars item h.1, newline_not_mem_charsItems rest h.2]
  | obj [], _ => by decide
  | obj ((key, value) :: rest), h => by
    simp [chars, newline_not_mem_quote, newline_not_mem_chars value h.1,
      newline_not_mem_charsFields rest h.2]

theorem newline_not_mem_charsItems : (items : List Json) → ReadsBackItems items →
    '\n' ∉ charsItems items
  | [], _ => by simp [charsItems]
  | item :: rest, h => by
    simp [charsItems, newline_not_mem_chars item h.1, newline_not_mem_charsItems rest h.2]

theorem newline_not_mem_charsFields : (fields : List (String × Json)) → ReadsBackFields fields →
    '\n' ∉ charsFields fields
  | [], _ => by simp [charsFields]
  | (key, value) :: rest, h => by
    simp [charsFields, newline_not_mem_quote, newline_not_mem_chars value h.1,
      newline_not_mem_charsFields rest h.2]

end

end Json

namespace RecordSet

/-! ## Equal sets -/

/-- A record set with the signs of zeros dropped. -/
def unsigned (d : RecordSet) : RecordSet :=
  { d with records := d.records.map fun _ r => r.unsigned }

/-- Equality of record sets is equality up to the signs of zeros. -/
theorem beq_iff {d e : RecordSet} : (d == e) = true ↔ d.unsigned = e.unsigned := by
  have hentries : ∀ l m : List (String × Record),
      l.map Prod.fst = m.map Prod.fst ∧
        ((l.map Prod.snd).zip (m.map Prod.snd)).all (fun p => p.1 == p.2) = true ↔
      l.map (fun p => (p.1, p.2.unsigned)) = m.map (fun p => (p.1, p.2.unsigned)) := by
    intro l
    induction l with
    | nil => intro m; cases m <;> simp
    | cons p l ih =>
      intro m
      cases m with
      | nil => simp
      | cons q m =>
        have hrest := ih m
        simp only [List.map_cons, List.zip_cons_cons, List.all_cons, List.cons.injEq,
          Bool.and_eq_true, Record.beq_iff, Prod.mk.injEq] at hrest ⊢
        rw [← hrest]
        constructor
        · rintro ⟨⟨hkey, hkeys⟩, hvalue, hvalues⟩
          exact ⟨⟨hkey, hvalue⟩, hkeys, hvalues⟩
        · rintro ⟨⟨hkey, hvalue⟩, hkeys, hvalues⟩
          exact ⟨⟨hkey, hkeys⟩, hvalue, hvalues⟩
  have hrecords : d.records.map (fun _ r => r.unsigned) = e.records.map (fun _ r => r.unsigned) ↔
      d.records.entries.map (fun p => (p.1, p.2.unsigned)) =
        e.records.entries.map (fun p => (p.1, p.2.unsigned)) :=
    ⟨fun h => congrArg SortedMap.entries h, fun h => SortedMap.eq_of_entries h⟩
  have hbeq : (d == e) = true ↔ d.primaryKeys = e.primaryKeys ∧
      (d.records.keys = e.records.keys ∧
        (d.records.values.zip e.records.values).all (fun p => p.1 == p.2) = true) := by
    have hdef : (d == e) = d.eqv e := rfl
    rw [hdef, eqv, Bool.and_eq_true, Bool.and_eq_true, beq_iff_eq, beq_iff_eq, and_assoc]
  rw [hbeq]
  simp only [unsigned, mk.injEq, hrecords]
  exact and_congr_right fun _ => hentries d.records.entries e.records.entries

theorem get?_unsigned (d : RecordSet) (key : String) :
    d.unsigned.records.get? key = (d.records.get? key).map Record.unsigned :=
  SortedMap.get?_map d.records _ key

theorem primaryKeys_eq {d e : RecordSet} (h : d.unsigned = e.unsigned) :
    d.primaryKeys = e.primaryKeys := by
  simpa [unsigned] using congrArg primaryKeys h

theorem get?_eq {d e : RecordSet} (h : d.unsigned = e.unsigned) (key : String) :
    (d.records.get? key).map Record.unsigned = (e.records.get? key).map Record.unsigned := by
  rw [← get?_unsigned, h, get?_unsigned]

/-- Record sets with the same keys are equal up to signs if they are so key by key. -/
theorem unsigned_ext {d e : RecordSet} (hkeys : d.primaryKeys = e.primaryKeys)
    (h : ∀ key, (d.records.get? key).map Record.unsigned =
      (e.records.get? key).map Record.unsigned) : d.unsigned = e.unsigned := by
  have hrecords : d.unsigned.records = e.unsigned.records :=
    SortedMap.ext_get? fun key => by rw [get?_unsigned, h, get?_unsigned]
  cases d
  cases e
  simp_all [unsigned]

theorem unsigned_mergeAt_congr {d e : RecordSet} (h : d.unsigned = e.unsigned) (key : String)
    (fields : Record) : (d.mergeAt key fields).unsigned = (e.mergeAt key fields).unsigned := by
  refine unsigned_ext (show d.primaryKeys = e.primaryKeys from primaryKeys_eq h) fun k => ?_
  have hold : ((d.records.get? key).getD .empty).unsigned =
      ((e.records.get? key).getD .empty).unsigned := by
    have hget := get?_eq h key
    cases hd : d.records.get? key <;> cases he : e.records.get? key <;>
      simp_all
  have hmerged := Record.unsigned_assign_congr hold fields
  simp only [mergeAt, SortedMap.get?_insert]
  split
  · simp [hmerged]
  · exact get?_eq h k

/-- A step cannot tell two sets apart that differ in signs of zeros only. -/
theorem unsigned_step_congr {d e : RecordSet} (h : d.unsigned = e.unsigned) (op : RecordOp) :
    (d.step op).unsigned = (e.step op).unsigned := by
  cases op with
  | set record =>
    simp only [step, key?, primaryKeys_eq h]
    split
    · exact unsigned_mergeAt_congr h _ record
    · exact h
  | remove record =>
    simp only [step, key?, primaryKeys_eq h]
    split
    · refine unsigned_ext rfl fun k => ?_
      have hk := get?_eq h k
      simp only [SortedMap.get?_erase]
      split
      · rfl
      · exact hk
    · exact h

/-- Equal sets are equal after a patch. -/
theorem unsigned_apply_congr {d e : RecordSet} (h : d.unsigned = e.unsigned) (patch : RecordPatch) :
    (d.apply patch).unsigned = (e.apply patch).unsigned := by
  unfold apply
  induction patch generalizing d e with
  | nil => exact h
  | cons op patch ih => exact ih (unsigned_step_congr h op)

/-! ## Tidy sets -/

/-- Every record stands under its key and has no `null` fields. -/
structure Tidy (d : RecordSet) : Prop where
  keyed : ∀ {key r}, d.records.get? key = some r → d.key? r = some key
  filled : ∀ {key r}, d.records.get? key = some r →
    ∀ {f value}, r.get? f = some value → value.isNull = false

theorem tidy_empty (primaryKeys : List String) : (empty primaryKeys).Tidy :=
  ⟨fun h => by simp [empty] at h, fun h => by simp [empty] at h⟩

/-- A record is merged under its own key, so it is found under it later. -/
theorem Tidy.mergeAt {d : RecordSet} (h : d.Tidy) {key : String} {fields : Record}
    (hkey : d.key? fields = some key) : (d.mergeAt key fields).Tidy := by
  -- A record of the new set is the merged one or an old one.
  have hcases : ∀ {k r}, (d.mergeAt key fields).records.get? k = some r →
      (k = key ∧ r = ((d.records.get? key).getD .empty).assign fields) ∨
        d.records.get? k = some r := by
    intro k r hget
    simp only [RecordSet.mergeAt, SortedMap.get?_insert] at hget
    split at hget
    · next hk => exact .inl ⟨hk, (Option.some.inj hget).symm⟩
    · exact .inr hget
  refine ⟨fun hget => ?_, fun hget f value hvalue => ?_⟩
  · rcases hcases hget with ⟨rfl, rfl⟩ | hget
    · exact Record.key?_assign _ hkey
    · exact h.keyed hget
  · rcases hcases hget with ⟨-, rfl⟩ | hget
    · rw [Record.get?_assign] at hvalue
      split at hvalue
      · cases hold : d.records.get? key with
        | none => simp [hold] at hvalue
        | some old => exact h.filled hold (by simpa [hold] using hvalue)
      · split at hvalue
        · cases hvalue
        · next hnull =>
          cases hvalue
          simpa using hnull
    · exact h.filled hget hvalue

/-- A set is tidy if a tidy one has all its records. -/
theorem Tidy.of_records {d e : RecordSet} (h : d.Tidy) (hkeys : e.primaryKeys = d.primaryKeys)
    (hold : ∀ {key r}, e.records.get? key = some r → d.records.get? key = some r) : e.Tidy := by
  refine ⟨fun hget => ?_, fun hget => h.filled (hold hget)⟩
  rw [key?, hkeys]
  exact h.keyed (hold hget)

theorem Tidy.step {d : RecordSet} (h : d.Tidy) (op : RecordOp) : (d.step op).Tidy := by
  cases op with
  | set record =>
    simp only [RecordSet.step]
    split
    · next hkey => exact h.mergeAt hkey
    · exact h
  | remove record =>
    simp only [RecordSet.step]
    split
    · refine h.of_records rfl fun hget => ?_
      rw [SortedMap.get?_erase] at hget
      split at hget
      · cases hget
      · exact hget
    · exact h

/-- The run lemma, from `Tidy.step`. -/
theorem Tidy.apply {d : RecordSet} (h : d.Tidy) (patch : RecordPatch) : (d.apply patch).Tidy := by
  unfold RecordSet.apply
  induction patch generalizing d with
  | nil => exact h
  | cons op patch ih => exact ih (h.step op)

@[simp] theorem primaryKeys_step (d : RecordSet) (op : RecordOp) :
    (d.step op).primaryKeys = d.primaryKeys := by
  cases op <;> simp only [step] <;> split <;> rfl

@[simp] theorem primaryKeys_apply (d : RecordSet) (patch : RecordPatch) :
    (d.apply patch).primaryKeys = d.primaryKeys := by
  unfold apply
  induction patch generalizing d with
  | nil => rfl
  | cons op patch ih => rw [List.foldl_cons, ih, primaryKeys_step]

theorem Tidy.delete {d : RecordSet} (h : d.Tidy) (filter : Record) : (d.delete filter).Tidy := by
  refine h.of_records rfl fun hget => ?_
  rw [RecordSet.delete, SortedMap.get?_filter] at hget
  exact (Option.filter_eq_some_iff.mp hget).1

theorem Tidy.readLine {d d' : RecordSet} (h : d.Tidy) {number : Nat} {line : List Char}
    (hread : d.readLine number line = .ok d') : d'.Tidy ∧ d'.primaryKeys = d.primaryKeys := by
  unfold RecordSet.readLine at hread
  split at hread
  · cases hread
    exact ⟨h, rfl⟩
  · split at hread
    · cases hread
    · split at hread
      · cases hread
      · next hkey =>
        cases hread
        exact ⟨h.mergeAt hkey, rfl⟩

/-- A text is read line by line, each merged into what the lines before have left. -/
theorem Tidy.readLines {d d' : RecordSet} (h : d.Tidy) {number : Nat} {lines : List (List Char)}
    (hread : d.readLines number lines = .ok d') : d'.Tidy ∧ d'.primaryKeys = d.primaryKeys := by
  induction lines generalizing d number with
  | nil =>
    cases hread
    exact ⟨h, rfl⟩
  | cons line lines ih =>
    simp only [RecordSet.readLines] at hread
    split at hread
    · next hline =>
      obtain ⟨htidy, hkeys⟩ := h.readLine hline
      obtain ⟨htidy', hkeys'⟩ := ih htidy hread
      exact ⟨htidy', hkeys'.trans hkeys⟩
    · cases hread

theorem eq_ok_of_toOption {result : Except DocumentError RecordSet} {d : RecordSet}
    (h : result.toOption = some d) : result = .ok d := by
  cases result with
  | error e => cases h
  | ok d' => exact congrArg Except.ok (Option.some.inj h)

/-- The record sets with some key fields: without records, read from a text, or made from another
one by assigning fields, deleting records or applying a patch. -/
inductive Reachable (primaryKeys : List String) : RecordSet → Prop where
  | empty : Reachable primaryKeys (.empty primaryKeys)
  | parse {text : String} {d : RecordSet} (hparse : RecordSet.parse primaryKeys text = .ok d) :
      Reachable primaryKeys d
  | set {d d' : RecordSet} {record : Record} (hd : Reachable primaryKeys d)
      (hset : d.set record = .ok d') : Reachable primaryKeys d'
  | delete {d : RecordSet} (hd : Reachable primaryKeys d) (filter : Record) :
      Reachable primaryKeys (d.delete filter)
  | apply {d : RecordSet} (hd : Reachable primaryKeys d) (patch : RecordPatch) :
      Reachable primaryKeys (d.apply patch)

/-- Every record set is tidy, and keeps its key fields. -/
theorem Reachable.tidy {primaryKeys : List String} {d : RecordSet} (h : Reachable primaryKeys d) :
    d.Tidy ∧ d.primaryKeys = primaryKeys := by
  induction h with
  | empty => exact ⟨tidy_empty primaryKeys, rfl⟩
  | parse hparse => exact (tidy_empty primaryKeys).readLines hparse
  | set _ hset ih =>
    unfold RecordSet.set at hset
    split at hset
    · next hkey =>
      cases hset
      exact ⟨ih.1.mergeAt hkey, ih.2⟩
    · cases hset
  | delete _ filter ih => exact ⟨ih.1.delete filter, ih.2⟩
  | apply _ patch ih => exact ⟨ih.1.apply patch, (primaryKeys_apply _ patch).trans ih.2⟩

/-! ## The text of a set -/

/-- Every record can be read from a line. -/
def Legible (d : RecordSet) : Prop :=
  ∀ key r, d.records.get? key = some r →
    (Json.ofRecord r).Legible ∧ (Json.ofRecord r).depth ≤ Json.nestingLimit

/-- A line with a record is never taken for a blank one. -/
theorem chars_ofRecord_not_blank (r : Record) : Text.isBlank (Json.ofRecord r).chars = false := by
  have hbrace : Text.isBlankChar '\x7b' = false := by decide
  unfold Json.ofRecord
  cases r.entries with
  | nil => simp [Json.chars, Text.isBlank, hbrace]
  | cons p rest => simp [Json.chars, Text.isBlank, hbrace]

/-- The line of a record is read into a set that has no record with its key. -/
theorem readLine_chars {d : RecordSet} {key : String} {r : Record} (hkey : d.key? r = some key)
    (hfilled : ∀ {f value}, r.get? f = some value → value.isNull = false)
    (hr : (Json.ofRecord r).Legible) (hdepth : (Json.ofRecord r).depth ≤ Json.nestingLimit)
    (hnew : d.records.get? key = none) (number : Nat) :
    d.readLine number (Json.ofRecord r).chars =
      .ok { d with records := d.records.insert key r } := by
  have hparse : Record.parse? (String.ofList (Json.ofRecord r).chars) = some r :=
    Record.parse?_render hr hdepth
  have hassign : Record.assign .empty r = r := Record.assign_empty hfilled
  simp [readLine, chars_ofRecord_not_blank, hparse, hkey, mergeAt, hnew, hassign]

/-- The lines of some records are read in order. -/
theorem readLines_chars {d : RecordSet} {entries : List (String × Record)}
    (hentries : ∀ e ∈ entries, d.key? e.2 = some e.1 ∧
      (∀ {f value}, e.2.get? f = some value → value.isNull = false) ∧
      (Json.ofRecord e.2).Legible ∧ (Json.ofRecord e.2).depth ≤ Json.nestingLimit)
    (hsorted : (d.records.entries ++ entries).Pairwise fun a b => a.1 < b.1) (number : Nat) :
    d.readLines number (entries.map fun e => (Json.ofRecord e.2).chars) =
      .ok { d with records := entries.foldl (fun m e => m.insert e.1 e.2) d.records } := by
  induction entries generalizing d number with
  | nil => rfl
  | cons e entries ih =>
    obtain ⟨⟨hkey, hfilled, hlegible, hdepth⟩, hrest⟩ := List.forall_mem_cons.mp hentries
    have hbelow : ∀ p ∈ d.records.entries, p.1 < e.1 := fun p hp =>
      (List.pairwise_append.mp hsorted).2.2 p hp e List.mem_cons_self
    have hnew : d.records.get? e.1 = none :=
      SortedMap.find_eq_none fun p hp hpe => OrderedKey.irrefl e.1 (hpe ▸ hbelow p hp)
    have hline := readLine_chars hkey hfilled hlegible hdepth hnew number
    simp only [List.map_cons, readLines, hline, List.foldl_cons]
    refine ih (d := { d with records := d.records.insert e.1 e.2 }) hrest ?_ (number + 1)
    rw [SortedMap.entries_insert_of_lt d.records e.2 hbelow, List.append_assoc]
    exact hsorted

/-- A tidy set of legible records is read back from its text. -/
theorem parse_render {d : RecordSet} (htidy : d.Tidy) (hlegible : d.Legible) :
    parse d.primaryKeys d.render = .ok d := by
  have htext : d.render.toList =
      ['\n'].intercalate (d.records.entries.map fun e => (Json.ofRecord e.2).chars) := by
    simp [render, String.toList_intercalate, SortedMap.values, Record.render, Json.render,
      Function.comp_def]
  have hentries : ∀ e ∈ d.records.entries, d.key? e.2 = some e.1 ∧
      (∀ {f value}, e.2.get? f = some value → value.isNull = false) ∧
      (Json.ofRecord e.2).Legible ∧ (Json.ofRecord e.2).depth ≤ Json.nestingLimit := by
    intro e he
    have hget : d.records.get? e.1 = some e.2 := SortedMap.get?_eq_some_iff.mpr he
    exact ⟨htidy.keyed hget, htidy.filled hget, hlegible e.1 e.2 hget⟩
  have hrebuilt : d.records.entries.foldl (fun m e => m.insert e.1 e.2) .empty = d.records :=
    SortedMap.ofList_entries d.records
  have hread := readLines_chars (d := empty d.primaryKeys) hentries d.records.sorted 1
  have hset : (empty d.primaryKeys).readLines 1
      (d.records.entries.map fun e => (Json.ofRecord e.2).chars) = .ok d := by
    rw [hread]
    simp only [empty, hrebuilt]
  rw [parse, htext]
  by_cases hnil : d.records.entries = []
  · -- The text of a set without records is empty, which is one blank line.
    rw [hnil] at hset ⊢
    rw [← hset]
    rfl
  · rw [Text.lines_intercalate ?_ (by simpa using hnil)]
    · exact hset
    · intro line hline
      obtain ⟨e, he, rfl⟩ := List.mem_map.mp hline
      exact Json.newline_not_mem_chars _ (hentries e he).2.2.1.readsBack

end RecordSet

end LiveDocs

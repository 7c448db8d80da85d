import LiveDocs.Proofs.RecordSet
import LiveDocs.Document.Format

/-!
# Patches from one record set to another

A step of a patch touches one record only, the one with the key of its operand
(`RecordSet.get?_step`). The steps of a diff have different keys within its removals and within its
assignments, so what the whole diff does to a record is what the steps with its key do
(`RecordSet.get?_apply_diff`).

The patch from one set to another makes the other set, and has no steps exactly if the sets are
equal already (`RecordSet.apply_diff_eqv`). A diff does not carry the sign of a zero to a record
that is otherwise the same, so sets are compared as JSON values.

## Main definitions

* `RecordOp.operand`, `RecordOp.effect`: the record that a step names, and what it makes of the
  record with that key.
-/

namespace LiveDocs

namespace RecordOp

/-- The record that a step names: the fields to assign, or the key to remove. -/
def operand : RecordOp → Record
  | set record => record
  | remove key => key

/-- What a step makes of the record with its key. -/
def effect : RecordOp → Option Record → Option Record
  | set fields, r => some ((r.getD .empty).assign fields)
  | remove _, _ => none

end RecordOp

namespace Record

theorem hasField_iff {r : Record} {field : String} {value : Json} :
    r.hasField field value = true ↔ (r.get? field).map Json.unsigned = some value.unsigned := by
  unfold hasField
  cases r.get? field with
  | none => simp
  | some v =>
    rw [Option.map_some, Option.some.injEq]
    exact Json.eqv_iff v value

end Record

namespace RecordSet

/-! ## One step -/

/-- A step whose operand lacks a key field does nothing. -/
theorem step_of_keyless {d : RecordSet} {op : RecordOp} (h : d.key? op.operand = none) :
    d.step op = d := by
  cases op with
  | set fields => simp only [step, show d.key? fields = none from h]
  | remove fields => simp only [step, show d.key? fields = none from h]

/-- A step changes the record with its key and leaves all others. -/
theorem get?_step (d : RecordSet) (op : RecordOp) (key : String) :
    (d.step op).records.get? key =
      if d.key? op.operand = some key then op.effect (d.records.get? key)
      else d.records.get? key := by
  cases hkey : d.key? op.operand with
  | none => simp [step_of_keyless hkey]
  | some k =>
    by_cases hk : key = k
    · subst hk
      cases op with
      | set fields => simp [step, show d.key? fields = some key from hkey, mergeAt, RecordOp.effect]
      | remove fields => simp [step, show d.key? fields = some key from hkey, RecordOp.effect]
    · cases op with
      | set fields => simp [step, show d.key? fields = some k from hkey, mergeAt, hk, Ne.symm hk]
      | remove fields => simp [step, show d.key? fields = some k from hkey, hk, Ne.symm hk]

theorem key?_step (d : RecordSet) (op : RecordOp) (record : Record) :
    (d.step op).key? record = d.key? record := by
  rw [key?, key?, primaryKeys_step]

theorem apply_cons (d : RecordSet) (op : RecordOp) (patch : RecordPatch) :
    d.apply (op :: patch) = (d.step op).apply patch := rfl

theorem apply_append (d : RecordSet) (patch more : RecordPatch) :
    d.apply (patch ++ more) = (d.apply patch).apply more := List.foldl_append

/-- Steps made from entries, each with the key of its entry, act on their own records only. -/
theorem get?_apply_filterMap {entries : List (String × Record)}
    (hsorted : entries.Pairwise fun a b => a.1 < b.1) {make : String × Record → Option RecordOp}
    {d : RecordSet} (hmake : ∀ e ∈ entries, ∀ op, make e = some op → d.key? op.operand = some e.1)
    (key : String) :
    (d.apply (entries.filterMap make)).records.get? key =
      ((SortedMap.find key entries).bind fun r => make (key, r)).elim (d.records.get? key)
        fun op => op.effect (d.records.get? key) := by
  induction entries generalizing d with
  | nil => rfl
  | cons e entries ih =>
    obtain ⟨k, r⟩ := e
    obtain ⟨hhead, htail⟩ := List.pairwise_cons.mp hsorted
    obtain ⟨hfirst, hrest⟩ := List.forall_mem_cons.mp hmake
    -- The entries behind the first one have other keys.
    have hnone : SortedMap.find k entries = none :=
      SortedMap.find_eq_none fun p hp hpk => OrderedKey.irrefl k (hpk ▸ hhead p hp)
    cases hop : make (k, r) with
    | none =>
      rw [List.filterMap_cons_none hop, ih htail hrest]
      by_cases hk : key = k
      · subst hk
        simp [SortedMap.find, hnone, hop]
      · simp [SortedMap.find, hk]
    | some op =>
      have hkey : d.key? op.operand = some k := hfirst op hop
      have hrest' : ∀ e ∈ entries, ∀ op', make e = some op' →
          (d.step op).key? op'.operand = some e.1 := by
        intro e he op' hop'
        rw [key?_step]
        exact hrest e he op' hop'
      rw [List.filterMap_cons_some hop, apply_cons, ih htail hrest', get?_step, hkey]
      by_cases hk : key = k
      · subst hk
        simp [SortedMap.find, hnone, hop]
      · simp [SortedMap.find, hk, Ne.symm hk]

/-! ## The steps of a diff -/

/-- The fields toward a record: of those it has, the key fields and those that differ; of the
others, `null` for those to drop. -/
theorem get?_fieldsToward (primaryKeys : List String) (current wanted : Record) (field : String) :
    (fieldsToward primaryKeys current wanted).get? field =
      (wanted.get? field).elim (if current.contains field then some .null else none)
        fun value => if field ∈ primaryKeys ∨ current.hasField field value = false then some value
          else none := by
  have hchanged : ∀ (m : Record), (wanted.entries.foldl
      (fun m e => if current.hasField e.1 e.2 then m else m.insert e.1 e.2) m).get? field =
        ((wanted.get? field).filter fun value => !current.hasField field value).or
          (m.get? field) := by
    intro m
    have hfilter : wanted.entries.foldl
        (fun m e => if current.hasField e.1 e.2 then m else m.insert e.1 e.2) m =
          (wanted.entries.filter fun e => !current.hasField e.1 e.2).foldl
            (fun m e => m.insert e.1 e.2) m := by
      rw [List.foldl_filter]
      congr 1
      funext m e
      cases current.hasField e.1 e.2 <;> rfl
    rw [hfilter, SortedMap.get?_foldl_insert m (wanted.sorted.filter _),
      SortedMap.find_filter (fun k value => !current.hasField k value) field wanted.sorted]
    rfl
  rw [fieldsToward, Record.get?_foldl_take
    (v := fun f => if wanted.contains f then none else some .null), hchanged, Record.get?_keyFields]
  · cases hwanted : wanted.get? field with
    | none =>
      have hcontains : wanted.contains field = false := by simp [SortedMap.contains, hwanted]
      simp [SortedMap.mem_keys_iff, hcontains]
    | some value =>
      have hcontains : wanted.contains field = true := by simp [SortedMap.contains, hwanted]
      by_cases hkey : field ∈ primaryKeys <;> cases hsame : current.hasField field value <;>
        simp [hcontains, hkey, hsame, Option.filter]
  · intro m f key
    by_cases hf : wanted.contains f = true
    · simp [hf]
    · simp [hf]

/-- The fields toward a record have its key. -/
theorem key?_fieldsToward {primaryKeys : List String} {wanted : Record} {key : String}
    (h : wanted.key? primaryKeys = some key) (current : Record) :
    (fieldsToward primaryKeys current wanted).key? primaryKeys = some key := by
  rw [← h]
  refine Record.key?_congr fun f hf => ?_
  obtain ⟨value, hvalue, -⟩ := Record.exists_of_key? h f hf
  simp [get?_fieldsToward, hvalue, hf]

/-- The fields toward a record without `null` fields make that record. -/
theorem unsigned_assign_fieldsToward (primaryKeys : List String) (current : Record)
    {wanted : Record} (h : ∀ {f value}, wanted.get? f = some value → value.isNull = false) :
    (current.assign (fieldsToward primaryKeys current wanted)).unsigned = wanted.unsigned := by
  refine SortedMap.ext_get? fun f => ?_
  rw [Record.get?_unsigned, Record.get?_unsigned, Record.get?_assign, get?_fieldsToward]
  cases hwanted : wanted.get? f with
  | none =>
    cases hcurrent : current.get? f with
    | none => simp [SortedMap.contains, hcurrent]
    | some value => simp [SortedMap.contains, hcurrent, Json.isNull]
  | some value =>
    by_cases hsent : f ∈ primaryKeys ∨ current.hasField f value = false
    · simp [hsent, h hwanted]
    · -- A field that is not sent has the wanted value already.
      have hsame : current.hasField f value = true := by
        simpa using fun hdiffers => hsent (.inr hdiffers)
      simpa [hsent] using Record.hasField_iff.mp hsame

theorem key?_stepToward {d target : RecordSet} (htarget : target.Tidy)
    (hkeys : d.primaryKeys = target.primaryKeys) {key : String} {wanted : Record}
    (hwanted : target.records.get? key = some wanted) {op : RecordOp}
    (hop : d.stepToward target key wanted = some op) : d.key? op.operand = some key := by
  have hkey : wanted.key? target.primaryKeys = some key := htarget.keyed hwanted
  rw [key?, hkeys]
  unfold stepToward at hop
  split at hop
  · cases hop
    exact hkey
  · next current _ =>
    split at hop
    · cases hop
    · cases hop
      exact key?_fieldsToward hkey current

/-- The removals of a diff leave the records with keys of the target. -/
theorem get?_apply_removals {d : RecordSet} (hd : d.Tidy) (target : RecordSet) (key : String) :
    (d.apply (d.records.entries.filterMap fun e => if target.records.contains e.1 then none
      else some (.remove (e.2.keyFields d.primaryKeys)))).records.get? key =
      if target.records.contains key then d.records.get? key else none := by
  rw [get?_apply_filterMap d.records.sorted]
  · change Option.elim ((d.records.get? key).bind _) _ _ = _
    by_cases hkey : target.records.contains key = true
    · simp [hkey]
    · cases hget : d.records.get? key <;> simp [hkey, RecordOp.effect]
  · intro e he op hop
    split at hop
    · cases hop
    · cases hop
      have hkeyed := hd.keyed (SortedMap.get?_eq_some_iff.mpr he)
      rw [key?, RecordOp.operand, Record.key?_keyFields]
      exact hkeyed

/-- What the diff makes of a record: nothing of one that the target has not, and of the others what
the step toward the target makes of it, if there is one. -/
theorem get?_apply_diff {d target : RecordSet} (hd : d.Tidy) (htarget : target.Tidy)
    (hkeys : d.primaryKeys = target.primaryKeys) (key : String) :
    (d.apply (d.diff target)).records.get? key =
      (target.records.get? key).bind fun wanted =>
        (d.stepToward target key wanted).elim (d.records.get? key)
          fun op => op.effect (d.records.get? key) := by
  rw [diff, apply_append, get?_apply_filterMap target.records.sorted, get?_apply_removals hd]
  · change Option.elim ((target.records.get? key).bind _) _ _ = _
    cases hwanted : target.records.get? key with
    | none => simp [SortedMap.contains, hwanted]
    | some wanted => simp [SortedMap.contains, hwanted]
  · intro e he op hop
    rw [key?, primaryKeys_apply]
    exact key?_stepToward htarget hkeys (SortedMap.get?_eq_some_iff.mpr he) hop

theorem unsigned_apply_diff {d target : RecordSet} (hd : d.Tidy) (htarget : target.Tidy)
    (hkeys : d.primaryKeys = target.primaryKeys) :
    (d.apply (d.diff target)).unsigned = target.unsigned := by
  refine unsigned_ext ((primaryKeys_apply d _).trans hkeys) fun key => ?_
  rw [get?_apply_diff hd htarget hkeys]
  cases hwanted : target.records.get? key with
  | none => rfl
  | some wanted =>
    simp only [Option.bind_some, stepToward]
    cases hcurrent : d.records.get? key with
    | none => simp [RecordOp.effect, Record.assign_empty (htarget.filled hwanted)]
    | some current =>
      by_cases hsame : (current == wanted) = true
      · simpa [hsame] using Record.beq_iff.mp hsame
      · simpa [hsame, RecordOp.effect] using
          unsigned_assign_fieldsToward target.primaryKeys current (htarget.filled hwanted)

/-- The diff of equal sets has no steps. -/
theorem diff_eq_nil {d target : RecordSet} (h : d.unsigned = target.unsigned) :
    d.diff target = [] := by
  have hget : ∀ key, (d.records.get? key).map Record.unsigned =
      (target.records.get? key).map Record.unsigned := get?_eq h
  rw [diff, List.append_eq_nil_iff, List.filterMap_eq_nil_iff, List.filterMap_eq_nil_iff]
  constructor
  · intro e he
    have hcontains : target.records.contains e.1 = true := by
      have hsame := hget e.1
      rw [SortedMap.get?_eq_some_iff.mpr he] at hsame
      obtain ⟨r, hr, -⟩ := Option.map_eq_some_iff.mp hsame.symm
      rw [SortedMap.contains, hr]
      rfl
    simp [hcontains]
  · intro e he
    have hsame := hget e.1
    rw [SortedMap.get?_eq_some_iff.mpr he] at hsame
    obtain ⟨r, hr, hunsigned⟩ := Option.map_eq_some_iff.mp hsame
    simp [stepToward, hr, Record.beq_iff.mpr hunsigned]

/-! ## The patch from one set to another -/

/-- A patch that changes nothing has no steps. -/
theorem isNoop_iff {primaryKeys : List String} {patch : RecordPatch} :
    (Format.records primaryKeys).isNoop patch = true ↔ patch = [] := List.isEmpty_iff

/-- **The patch from one set to another makes the other set**, and it is a patch that changes
nothing exactly if the sets are equal. Sets with no key fields have at most one record and are no
exception. -/
theorem apply_diff_eqv {primaryKeys : List String} {d target : RecordSet}
    (hd : Reachable primaryKeys d) (htarget : Reachable primaryKeys target) :
    (d.apply (d.diff target) == target) = true ∧
      ((Format.records primaryKeys).isNoop (d.diff target) = true ↔ (d == target) = true) := by
  obtain ⟨htidy, hkeys⟩ := hd.tidy
  obtain ⟨htidy', hkeys'⟩ := htarget.tidy
  have happly := unsigned_apply_diff htidy htidy' (hkeys.trans hkeys'.symm)
  refine ⟨beq_iff.mpr happly, ?_⟩
  rw [isNoop_iff, beq_iff]
  constructor
  · intro hnil
    -- Without steps the set is the target already.
    rwa [hnil] at happly
  · exact diff_eq_nil

/-- A record with two fields, and one with a key only. -/
def twoRecords : RecordSet :=
  (empty ["id"]).apply
    [.set (.ofList [("id", .ofNat 1), ("a", .ofNat 1), ("b", .ofNat 2)]),
      .set (.ofList [("id", .ofNat 2)])]

/-- The second record is gone, the first has one field changed and one dropped, and another has come
in. -/
def editedRecords : RecordSet :=
  (twoRecords.delete (.ofList [("id", .ofNat 2)])).apply
    [.set (.ofList [("id", .ofNat 1), ("a", .ofNat 5), ("b", .null)]),
      .set (.ofList [("id", .ofNat 3)])]

/-- A removal, a change and a new record make the edited records from the others. -/
theorem apply_diff_editedRecords :
    Reachable ["id"] twoRecords ∧ Reachable ["id"] editedRecords ∧
      (twoRecords.diff editedRecords).length = 3 ∧
      (twoRecords.apply (twoRecords.diff editedRecords) == editedRecords) = true ∧
      (twoRecords == editedRecords) = false := by
  have hbefore : Reachable ["id"] twoRecords := Reachable.empty.apply _
  have hafter : Reachable ["id"] editedRecords := (hbefore.delete _).apply _
  obtain ⟨happly, hnoop⟩ := apply_diff_eqv hbefore hafter
  have hlength : (twoRecords.diff editedRecords).length = 3 := by decide +kernel
  refine ⟨hbefore, hafter, hlength, happly, Bool.eq_false_iff.mpr fun hsame => ?_⟩
  rw [isNoop_iff.mp (hnoop.mpr hsame)] at hlength
  cases hlength

end RecordSet

end LiveDocs

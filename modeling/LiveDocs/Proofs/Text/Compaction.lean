import LiveDocs.Proofs.Text.Script
import LiveDocs.Text.Compaction

/-!
# Compaction keeps what a script covers

Every movement of an operation leaves a script that covers the same ranges
(`Edit.covers_compact`). Only positions that covering does not depend on go wrong on the way: when
a deletion and an insertion change places, the insertion keeps an old position that is no longer
where it stands.

## Main results

* `Edit.Cursor.covers_shiftUp`, `Edit.Cursor.covers_shiftDown`: the two movements.
* `Edit.covers_compact`: the compacted script.
-/

namespace LiveDocs

namespace Edit

variable {a b : Array Char} {i j i' j' : Nat}

/-- A part of a script may be replaced by one that covers the same. -/
theorem Covers.replace {before part part' : List Edit} (h : Covers a b i j (before ++ part) i' j')
    (hpart : ∀ {p q}, Covers a b p q part i' j' → Covers a b p q part' i' j') :
    Covers a b i j (before ++ part') i' j' := by
  obtain ⟨p, q, hbefore, hrest⟩ := covers_append.mp h
  exact hbefore.append (hpart hrest)

/-! ## Single movements -/

/-- An empty kept run may be dropped. -/
theorem Covers.drop_empty {p : Edit} {rest : List Edit} (h : Covers a b i j (p :: rest) i' j')
    (hp : p.tag = .keep) (hlength : p.length = 0) : Covers a b i j rest i' j' := by
  obtain ⟨tag, old, new, length⟩ := p
  cases hp
  cases hlength
  cases h with
  | keep _ h => exact h

/-- Neighbouring kept runs join. -/
theorem Covers.join_kept {p q : Edit} {rest : List Edit} (hp : p.tag = .keep) (hq : q.tag = .keep)
    (h : Covers a b i j (p :: q :: rest) i' j') :
    Covers a b i j ({ p with length := p.length + q.length } :: rest) i' j' := by
  obtain ⟨tag, old, new, n⟩ := p
  obtain ⟨tag', old', new', m⟩ := q
  cases hp
  cases hq
  cases h with
  | keep hn h =>
    cases h with
    | keep hm h =>
      refine .keep (fun k hk => ?_) (by rwa [← Nat.add_assoc, ← Nat.add_assoc])
      change k < n + m at hk
      by_cases hkn : k < n
      · exact hn k hkn
      · have hrest := hm (k - n) (by omega)
        rwa [Nat.add_assoc, Nat.add_assoc, Nat.add_sub_cancel' (by omega)] at hrest

/-- A deletion and an insertion may change places. -/
theorem Covers.swap {p e : Edit} {rest : List Edit} (hp : p.tag ≠ .keep) (he : e.tag ≠ .keep)
    (hne : p.tag ≠ e.tag) (h : Covers a b i j (p :: e :: rest) i' j') :
    Covers a b i j (e :: p :: rest) i' j' := by
  cases h with
  | keep => exact absurd rfl hp
  | delete h =>
    cases h with
    | keep => exact absurd rfl he
    | delete => exact absurd rfl hne
    | insert h => exact .insert (.delete h)
  | insert h =>
    cases h with
    | keep => exact absurd rfl he
    | delete h => exact .delete (.insert h)
    | insert => exact absurd rfl hne

/-- Neighbouring deletions merge, and so do insertions. -/
theorem Covers.merge {p e : Edit} {rest : List Edit} (hp : p.tag ≠ .keep) (heq : p.tag = e.tag)
    (h : Covers a b i j (p :: e :: rest) i' j') :
    Covers a b i j ({ p with length := p.length + e.length } :: rest) i' j' := by
  cases h with
  | keep => exact absurd rfl hp
  | delete h =>
    cases h with
    | keep => cases heq
    | delete h => exact .delete (by rwa [← Nat.add_assoc])
    | insert => cases heq
  | insert h =>
    cases h with
    | keep => cases heq
    | delete => cases heq
    | insert h => exact .insert (by rwa [← Nat.add_assoc])

namespace Cursor

/-- An insertion slides over the end of the kept run before it, if its own end is the same. -/
theorem covers_slideUp {e p : Edit} {after : List Edit} (hp : p.tag = .keep) (he : e.tag = .insert)
    (h : Covers a b i j (p :: e :: after) i' j') :
    Covers a b i j ({ p with length := p.length - slideUp a b e p } ::
      { e with old := e.old - slideUp a b e p, new := e.new - slideUp a b e p } ::
      keepAfter e p (slideUp a b e p) after) i' j' := by
  have hle := commonEnd_le a b (p.old + p.length) (e.new + e.length) (min p.length e.length)
  have hslide : commonEnd a b (p.old + p.length) (e.new + e.length) (min p.length e.length) =
      slideUp a b e p := by
    rw [slideUp, if_pos he]
  have hchars : ∀ k < slideUp a b e p, a[p.old + p.length - slideUp a b e p + k]? =
      b[e.new + e.length - slideUp a b e p + k]? := by
    rw [← hslide]
    exact fun k hk => getElem?_commonEnd (by omega) (by omega) hk
  rw [hslide] at hle
  generalize slideUp a b e p = s at hle hchars ⊢
  obtain ⟨tag, old, new, n⟩ := p
  obtain ⟨tag', old', new', m⟩ := e
  cases hp
  cases he
  cases h with
  | keep hn h =>
    cases h with
    | insert h =>
      simp only at hle hchars
      have hkept : Covers a b (i + (n - s)) (j + n - s + m)
          (⟨.keep, i + n - s, j + n + m - s, s⟩ :: after) i' j' := by
        have hi : i + (n - s) = i + n - s := by omega
        have hj : j + n - s + m = j + n + m - s := by omega
        rw [hi, hj]
        refine .keep (fun k hk => hchars k hk) ?_
        rwa [Nat.sub_add_cancel (by omega), Nat.sub_add_cancel (by omega)]
      refine .keep (fun k hk => hn k (Nat.lt_of_lt_of_le hk (Nat.sub_le n s))) ?_
      have hj : j + (n - s) = j + n - s := by omega
      rw [hj]
      refine .insert ?_
      cases after with
      | nil => exact hkept
      | cons next rest =>
        rw [keepAfter]
        split
        · next hnext =>
          have hjoined := hkept.join_kept rfl hnext
          cases h with
          | keep =>
            simp only [Nat.add_comm s] at hjoined ⊢
            exact hjoined
          | delete => cases hnext
          | insert => cases hnext
        · exact hkept

/-- An insertion slides over the start of the kept run after it, if its own start is the same. -/
theorem covers_slideDown {e q : Edit} {after : List Edit} (hq : q.tag = .keep)
    (he : e.tag = .insert)
    (h : Covers a b i j (e :: q :: after) i' j') :
    Covers a b i j (⟨.keep, q.old, e.new, slideDown a b e q⟩ ::
      { e with old := e.old + slideDown a b e q, new := e.new + slideDown a b e q } ::
      { q with
        old := q.old + slideDown a b e q
        new := q.new + slideDown a b e q
        length := q.length - slideDown a b e q } :: after) i' j' := by
  have hle := commonStart_le a b q.old e.new (min q.length e.length)
  have hslide : commonStart a b q.old e.new (min q.length e.length) = slideDown a b e q := by
    rw [slideDown, if_pos he]
  have hchars : ∀ k < slideDown a b e q, a[q.old + k]? = b[e.new + k]? := by
    rw [← hslide]
    exact fun k hk => getElem?_commonStart hk
  rw [hslide] at hle
  generalize slideDown a b e q = s at hle hchars ⊢
  obtain ⟨tag, old, new, n⟩ := q
  obtain ⟨tag', old', new', m⟩ := e
  cases hq
  cases he
  cases h with
  | insert h =>
    cases h with
    | keep hn h =>
      simp only at hle hchars
      refine .keep (fun k hk => hchars k hk) (.insert ?_)
      have hj : j + s + m = j + m + s := by omega
      rw [hj]
      refine .keep (fun k hk => ?_) ?_
      · change k < n - s at hk
        have hrest := hn (s + k) (by omega)
        rwa [← Nat.add_assoc, ← Nat.add_assoc] at hrest
      · have hi : i + s + (n - s) = i + n := by omega
        have hj : j + m + s + (n - s) = j + m + n := by omega
        rwa [hi, hj]

theorem toList_of_before {c : Cursor} {p : Edit} {before : List Edit} (h : c.before = p :: before) :
    c.toList = before.reverse ++ p :: c.edit :: c.after := by
  simp [toList, h]

theorem tag_of_slideUp {e p : Edit} (h : 0 < slideUp a b e p) : e.tag = .insert := by
  unfold slideUp at h
  split at h
  · assumption
  · cases h

theorem tag_of_slideDown {e q : Edit} (h : 0 < slideDown a b e q) : e.tag = .insert := by
  unfold slideDown at h
  split at h
  · assumption
  · cases h

/-- The kept characters that an insertion slid over downwards may join the run before them. -/
theorem covers_keepBefore {e q : Edit} {s : Nat} {before rest : List Edit}
    (h : Covers a b i j (before.reverse ++ ⟨.keep, q.old, e.new, s⟩ :: rest) i' j') :
    Covers a b i j ((keepBefore e q s before).reverse ++ rest) i' j' := by
  cases before with
  | nil => exact h
  | cons previous before =>
    rw [keepBefore]
    split
    · next hprevious =>
      rw [List.reverse_cons, List.append_assoc] at h ⊢
      exact h.replace fun hrest => hrest.join_kept hprevious rfl
    · rw [List.reverse_cons, List.append_assoc]
      exact h

/-! ## The two movements -/

/-- Moving an operation up keeps what the script covers. -/
theorem covers_shiftUp (fuel : Nat) (c : Cursor) (htag : c.edit.tag ≠ .keep)
    (h : Covers a b i j c.toList i' j') :
    Covers a b i j (shiftUp a b fuel c).toList i' j' ∧
      (shiftUp a b fuel c).edit.tag = c.edit.tag := by
  fun_induction shiftUp a b fuel c with
  | case1 c => exact ⟨h, rfl⟩
  | case2 fuel c hbefore => exact ⟨h, rfl⟩
  | case3 fuel c p before hbefore hp s hs edit after hlength ih =>
    -- The insertion slides over the whole run.
    rw [toList_of_before hbefore] at h
    refine ih htag (h.replace fun hrest => ?_)
    exact (covers_slideUp hp (tag_of_slideUp hs) hrest).drop_empty hp
      (Nat.sub_eq_zero_of_le (Nat.le_of_eq hlength))
  | case4 fuel c p before hbefore hp s hs edit after hlength ih =>
    -- The insertion slides over the end of the run.
    rw [toList_of_before hbefore] at h
    refine ih htag ?_
    rw [toList_of_before rfl]
    exact h.replace fun hrest => covers_slideUp hp (tag_of_slideUp hs) hrest
  | case5 fuel c p before hbefore hp s hs hlength ih =>
    rw [toList_of_before hbefore] at h
    exact ih htag (h.replace fun hrest => hrest.drop_empty hp hlength)
  | case6 => exact ⟨h, rfl⟩
  | case7 fuel c p before hbefore hp hne ih =>
    rw [toList_of_before hbefore] at h
    exact ih htag (h.replace fun hrest => hrest.swap hp htag hne)
  | case8 fuel c p before hbefore hp heq ih =>
    rw [toList_of_before hbefore] at h
    have heq : p.tag = c.edit.tag := Decidable.of_not_not heq
    obtain ⟨hcovers, htag'⟩ := ih hp (h.replace fun hrest => hrest.merge hp heq)
    exact ⟨hcovers, htag'.trans heq⟩

/-- Moving an operation down keeps what the script covers. -/
theorem covers_shiftDown (fuel : Nat) (c : Cursor) (htag : c.edit.tag ≠ .keep)
    (h : Covers a b i j c.toList i' j') : Covers a b i j (shiftDown a b fuel c).toList i' j' := by
  fun_induction shiftDown a b fuel c with
  | case1 c => exact h
  | case2 fuel c hafter => exact h
  | case3 fuel c q after hafter hq s hs edit before hlength ih =>
    -- The insertion slides over the whole run.
    rw [toList, hafter] at h
    refine ih htag (covers_keepBefore (h.replace fun hrest => ?_))
    have hslid := covers_slideDown hq (tag_of_slideDown hs) hrest
    exact @Covers.replace _ _ _ _ _ _ [_, _] _ _ hslid fun hlast => hlast.drop_empty hq
      (Nat.sub_eq_zero_of_le (Nat.le_of_eq hlength))
  | case4 fuel c q after hafter hq s hs edit before hlength ih =>
    -- The insertion slides over the start of the run.
    rw [toList, hafter] at h
    refine ih htag (covers_keepBefore (h.replace fun hrest => ?_))
    exact covers_slideDown hq (tag_of_slideDown hs) hrest
  | case5 fuel c q after hafter hq s hs hlength ih =>
    rw [toList, hafter] at h
    refine ih htag (h.replace fun hrest => ?_)
    exact @Covers.replace _ _ _ _ _ _ [_] _ _ hrest fun hlast => hlast.drop_empty hq hlength
  | case6 => exact h
  | case7 fuel c q after hafter hq hne ih =>
    rw [toList, hafter] at h
    refine ih htag ?_
    rw [toList_of_before rfl]
    exact h.replace fun hrest => hrest.swap htag hq (Ne.symm hne)
  | case8 fuel c q after hafter hq heq ih =>
    rw [toList, hafter] at h
    have heq : q.tag = c.edit.tag := Decidable.of_not_not heq
    exact ih htag (h.replace fun hrest => hrest.merge htag heq.symm)

/-- Settling all operations of a kind keeps what the script covers. -/
theorem covers_settleAll {tag : Tag} (htag : tag ≠ .keep) (fuel : Nat) (c : Cursor)
    (h : Covers a b i j c.toList i' j') : Covers a b i j (settleAll a b tag fuel c) i' j' := by
  induction fuel generalizing c with
  | zero => exact h
  | succ fuel ih =>
    rw [settleAll]
    have hsettled : Covers a b i j (if c.edit.tag = tag then settle a b c else c).toList i' j' := by
      split
      · next hc =>
        have hedit : c.edit.tag ≠ .keep := by rwa [hc]
        obtain ⟨hup, htagUp⟩ := covers_shiftUp c.weight c hedit h
        exact covers_shiftDown _ _ (by rwa [htagUp]) hup
      · exact h
    generalize (if c.edit.tag = tag then settle a b c else c) = settled at hsettled ⊢
    split
    · exact hsettled
    · next next after hafter =>
      refine ih _ ?_
      rw [toList_of_before rfl]
      rwa [toList, hafter] at hsettled

end Cursor

theorem covers_settleTag {tag : Tag} (htag : tag ≠ .keep) {script : List Edit}
    (h : Covers a b i j script i' j') : Covers a b i j (settleTag a b tag script) i' j' := by
  cases script with
  | nil => exact h
  | cons e after => exact Cursor.covers_settleAll htag _ ⟨[], e, after⟩ h

/-- A compacted script covers what the script covers. -/
theorem covers_compact {script : List Edit} (h : Covers a b i j script i' j') :
    Covers a b i j (compact a b script) i' j' :=
  covers_settleTag (by decide) (covers_settleTag (by decide) h)

end Edit

end LiveDocs

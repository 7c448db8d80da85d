import LiveDocs.Proofs.Double.Text
import LiveDocs.Proofs.Json.RoundTrip

/-!
# Different values have different texts

The compact text of a value tells the value, whether or not its numbers are read back from it.
Numbers have different texts, and a number ends where a character stands that no numeral has. The
text of a string shows where it ends, since the quotes in it are escaped. Values of different kinds
begin with different characters. So the text of a value, in front of a comma, a bracket or the end,
shows the value and where it ends (`Json.eq_of_chars_append`), and arrays and objects are told apart
item by item and member by member.

## Main results

* `Json.eq_of_quote_append_eq`: the text of a string shows where it ends.
* `Json.render_injective`: different values have different texts.
-/

namespace LiveDocs

/-! ## Texts of strings -/

namespace Scan

theorem tokens_of_finish? {s s' : Scan} (h : s.finish? = some s') :
    s.tokens <:+ s'.tokens := by
  simp only [finish?] at h
  split at h
  · exact Option.some.inj h ▸ List.suffix_refl _
  · obtain ⟨n, -, rfl⟩ := Option.map_eq_some_iff.mp h
    exact List.suffix_cons ..
  · obtain ⟨j, -, rfl⟩ := Option.map_eq_some_iff.mp h
    exact List.suffix_cons ..
  · cases h

/-- Both branches of a step only add tokens, so the step does. -/
theorem tokens_of_ite {s s' : Scan} {p : Prop} [Decidable p] {x y : Option Scan}
    (hx : x = some s' → s.tokens <:+ s'.tokens) (hy : y = some s' → s.tokens <:+ s'.tokens)
    (h : (if p then x else y) = some s') : s.tokens <:+ s'.tokens := by
  by_cases hp : p
  · rw [if_pos hp] at h
    exact hx h
  · rw [if_neg hp] at h
    exact hy h

theorem tokens_of_push {s s' : Scan} {t : Token} (h : some (s.push t) = some s') :
    s.tokens <:+ s'.tokens :=
  Option.some.inj h ▸ List.suffix_cons ..

theorem tokens_of_mode {s s' : Scan} {mode : Mode} (h : some { s with mode } = some s') :
    s.tokens <:+ s'.tokens :=
  Option.some.inj h ▸ List.suffix_refl _

theorem tokens_of_begin? {s s' : Scan} {c : Char} : s.begin? c = some s' →
    s.tokens <:+ s'.tokens := by
  refine tokens_of_ite tokens_of_mode <| tokens_of_ite tokens_of_push <|
    tokens_of_ite tokens_of_push <| tokens_of_ite tokens_of_push <|
    tokens_of_ite tokens_of_push <| tokens_of_ite tokens_of_push <|
    tokens_of_ite tokens_of_push <| tokens_of_ite tokens_of_mode <|
    tokens_of_ite tokens_of_mode <| tokens_of_ite tokens_of_mode ?_
  intro h
  cases h

/-- Reading only adds tokens. -/
theorem tokens_of_feed? {s s' : Scan} {c : Char} (h : s.feed? c = some s') :
    s.tokens <:+ s'.tokens := by
  have hended : s.finish?.bind (·.begin? c) = some s' → s.tokens <:+ s'.tokens := by
    intro hbind
    obtain ⟨s₁, hfinish, hbegin⟩ := Option.bind_eq_some_iff.mp hbind
    exact (tokens_of_finish? hfinish).trans (tokens_of_begin? hbegin)
  have hnone : none = some s' → s.tokens <:+ s'.tokens := by
    intro h
    cases h
  unfold feed? at h
  cases hmode : s.mode with
  | between =>
    rw [hmode] at h
    exact tokens_of_begin? h
  | numeral chars | word chars =>
    rw [hmode] at h
    exact tokens_of_ite tokens_of_mode hended h
  | string chars =>
    rw [hmode] at h
    exact tokens_of_ite tokens_of_push (tokens_of_ite tokens_of_mode
      (tokens_of_ite hnone tokens_of_mode)) h
  | escape chars =>
    rw [hmode] at h
    refine tokens_of_ite tokens_of_mode (fun h => ?_) h
    obtain ⟨e, -, rfl⟩ := Option.map_eq_some_iff.mp h
    exact List.suffix_refl _
  | unicode chars high digits =>
    rw [hmode] at h
    obtain ⟨value, -, h⟩ := Option.bind_eq_some_iff.mp h
    split at h
    · obtain ⟨mode, -, rfl⟩ := Option.map_eq_some_iff.mp h
      exact List.suffix_refl _
    · exact tokens_of_mode h
  | paired chars high backslash =>
    rw [hmode] at h
    exact tokens_of_ite (tokens_of_ite tokens_of_mode hnone)
      (tokens_of_ite tokens_of_mode hnone) h

theorem tokens_of_run? {s s' : Scan} {cs : List Char} (h : s.run? cs = some s') :
    s.tokens <:+ s'.tokens := by
  induction cs generalizing s with
  | nil => exact tokens_of_finish? h
  | cons c cs ih =>
    rw [run?_cons] at h
    obtain ⟨s₁, hfeed, hrun⟩ := Option.bind_eq_some_iff.mp h
    exact (tokens_of_feed? hfeed).trans (ih hrun)

end Scan

namespace Json

/-- A string whose text goes on as the text of another string is that string. -/
theorem eq_of_quote_append {s s' : String} {more : List Char}
    (h : quote s' = quote s ++ more) : s' = s := by
  have hwhole : Scan.run? ⟨[], .between⟩ (quote s') = some ⟨[.atom (.str s')], .between⟩ := by
    have hread := Scan.run?_quote [] s' []
    rwa [List.append_nil] at hread
  rw [h, Scan.run?_quote] at hwhole
  have hsuffix := Scan.tokens_of_run? hwhole
  have hsame := hsuffix.eq_of_length rfl
  simpa using hsame.symm

/-- The text of a string shows where it ends. -/
theorem eq_of_quote_append_eq {s s' : String} {rest rest' : List Char}
    (h : quote s ++ rest = quote s' ++ rest') : s = s' := by
  rcases List.append_eq_append_iff.mp h with ⟨more, hmore, -⟩ | ⟨more, hmore, -⟩
  · exact (eq_of_quote_append hmore).symm
  · exact eq_of_quote_append hmore

end Json

/-! ## Texts of values -/

namespace Json

open Scan

/-- Of two numbers in front of what is no part of a numeral, each is its text. -/
theorem eq_of_number_append {m n : Number} {rest rest' : List Char} (hrest : Delimited rest)
    (hrest' : Delimited rest') (h : m.chars ++ rest = n.chars ++ rest') : m = n ∧ rest = rest' := by
  have hsplit : ∀ (k : Number) {tail : List Char}, Delimited tail →
      (k.chars ++ tail).takeWhile isNumeralChar = k.chars := by
    intro k tail htail
    rw [List.takeWhile_append_of_pos k.isNumeralChar_of_mem_chars.2]
    cases tail with
    | nil => simp
    | cons c tail => simp [(htail c tail rfl).1]
  have hchars : m.chars = n.chars := by rw [← hsplit m hrest, h, hsplit n hrest']
  exact ⟨Number.chars_injective hchars, List.append_cancel_left (hchars ▸ h)⟩

/-- The first character of a value, if it is no number. -/
def opening : Json → Option Char
  | null => some 'n'
  | bool true => some 't'
  | bool false => some 'f'
  | num _ => none
  | str _ => some '"'
  | arr _ => some '['
  | obj _ => some '\x7b'

theorem chars_eq_cons (j : Json) : ∃ c tail, j.chars = c :: tail ∧
    j.opening = if isNumeralChar c then none else some c := by
  cases j with
  | null => exact ⟨_, _, rfl, rfl⟩
  | bool b => cases b <;> exact ⟨_, _, rfl, rfl⟩
  | num n =>
    obtain ⟨hne, hall⟩ := n.isNumeralChar_of_mem_chars
    obtain ⟨c, tail, hchars⟩ := List.exists_cons_of_ne_nil hne
    refine ⟨c, tail, hchars, ?_⟩
    rw [if_pos (hall c (hchars ▸ List.mem_cons_self))]
    rfl
  | str s => exact ⟨_, _, rfl, rfl⟩
  | arr items => cases items <;> exact ⟨_, _, rfl, rfl⟩
  | obj fields => cases fields <;> exact ⟨_, _, rfl, rfl⟩

/-- Values of different kinds begin differently. -/
theorem opening_eq_of_chars {j j' : Json} {rest rest' : List Char}
    (h : j.chars ++ rest = j'.chars ++ rest') : j.opening = j'.opening := by
  obtain ⟨c, tail, hchars, hopening⟩ := j.chars_eq_cons
  obtain ⟨c', tail', hchars', hopening'⟩ := j'.chars_eq_cons
  rw [hchars, hchars'] at h
  rw [hopening, hopening', (List.cons_eq_cons.mp h).1]

/-- No value begins with a bracket that closes an array. -/
theorem chars_append_ne_close (j : Json) (rest rest' : List Char) :
    j.chars ++ rest ≠ ']' :: rest' := by
  intro h
  obtain ⟨c, tail, hchars, hopening⟩ := j.chars_eq_cons
  rw [hchars, List.cons_append] at h
  rw [(List.cons_eq_cons.mp h).1] at hopening
  have hclose : j.opening ≠ some ']' := by
    cases j with
    | bool b => cases b <;> simp [opening]
    | _ => simp [opening]
  exact hclose hopening

/-- Arrays with the same text have items with the same text, each written behind a comma. -/
theorem charsItems_of_arr {items items' : List Json} {rest rest' : List Char}
    (h : (arr items).chars ++ rest = (arr items').chars ++ rest') :
    charsItems items ++ ']' :: rest = charsItems items' ++ ']' :: rest' := by
  cases items with
  | nil =>
    cases items' with
    | nil => exact (List.cons_eq_cons.mp h).2
    | cons item' items' =>
      simp only [chars, List.cons_append, List.append_assoc, List.nil_append] at h
      exact absurd (List.cons_eq_cons.mp h).2.symm (chars_append_ne_close item' _ _)
  | cons item items =>
    cases items' with
    | nil =>
      simp only [chars, List.cons_append, List.append_assoc, List.nil_append] at h
      exact absurd (List.cons_eq_cons.mp h).2 (chars_append_ne_close item _ _)
    | cons item' items' =>
      simp only [chars, charsItems, List.cons_append, List.append_assoc, List.nil_append] at h ⊢
      rw [(List.cons_eq_cons.mp h).2]

theorem charsFields_of_obj {fields fields' : List (String × Json)} {rest rest' : List Char}
    (h : (obj fields).chars ++ rest = (obj fields').chars ++ rest') :
    charsFields fields ++ '\x7d' :: rest = charsFields fields' ++ '\x7d' :: rest' := by
  cases fields with
  | nil =>
    cases fields' with
    | nil => exact (List.cons_eq_cons.mp h).2
    | cons field' fields' =>
      exact absurd (List.cons_eq_cons.mp (List.cons_eq_cons.mp h).2).1 (by decide)
  | cons field fields =>
    cases fields' with
    | nil => exact absurd (List.cons_eq_cons.mp (List.cons_eq_cons.mp h).2).1 (by decide)
    | cons field' fields' =>
      simp only [chars, charsFields, List.cons_append, List.append_assoc, List.nil_append] at h ⊢
      rw [(List.cons_eq_cons.mp h).2]

mutual

/-- The text of a value shows the value and where it ends. -/
theorem eq_of_chars_append (j j' : Json) {rest rest' : List Char} (hrest : Delimited rest)
    (hrest' : Delimited rest') (h : j.chars ++ rest = j'.chars ++ rest') :
    j = j' ∧ rest = rest' := by
  have hopening := opening_eq_of_chars h
  match j with
  | null =>
    cases j' with
    | null => exact ⟨rfl, List.append_cancel_left h⟩
    | bool b => cases b <;> cases hopening
    | _ => cases hopening
  | bool true =>
    cases j' with
    | bool b =>
      cases b with
      | true => exact ⟨rfl, List.append_cancel_left h⟩
      | false => cases hopening
    | _ => cases hopening
  | bool false =>
    cases j' with
    | bool b =>
      cases b with
      | true => cases hopening
      | false => exact ⟨rfl, List.append_cancel_left h⟩
    | _ => cases hopening
  | num m =>
    cases j' with
    | num n =>
      obtain ⟨rfl, hsame⟩ := eq_of_number_append hrest hrest' h
      exact ⟨rfl, hsame⟩
    | bool b => cases b <;> cases hopening
    | _ => cases hopening
  | str s =>
    cases j' with
    | str s' =>
      obtain rfl := eq_of_quote_append_eq h
      exact ⟨rfl, List.append_cancel_left h⟩
    | bool b => cases b <;> cases hopening
    | _ => cases hopening
  | arr items =>
    cases j' with
    | arr items' =>
      obtain ⟨rfl, hsame⟩ := eq_of_charsItems_append items items' (charsItems_of_arr h)
      exact ⟨rfl, hsame⟩
    | bool b => cases b <;> cases hopening
    | _ => cases hopening
  | obj fields =>
    cases j' with
    | obj fields' =>
      obtain ⟨rfl, hsame⟩ := eq_of_charsFields_append fields fields' (charsFields_of_obj h)
      exact ⟨rfl, hsame⟩
    | bool b => cases b <;> cases hopening
    | _ => cases hopening

/-- The items of an array after the first. -/
theorem eq_of_charsItems_append (items items' : List Json) {rest rest' : List Char}
    (h : charsItems items ++ ']' :: rest = charsItems items' ++ ']' :: rest') :
    items = items' ∧ rest = rest' := by
  match items, items' with
  | [], [] => exact ⟨rfl, (List.cons_eq_cons.mp h).2⟩
  | [], item' :: items' => exact absurd (List.cons_eq_cons.mp h).1 (by decide)
  | item :: items, [] => exact absurd (List.cons_eq_cons.mp h).1 (by decide)
  | item :: items, item' :: items' =>
    have hclose : ∀ tail, Delimited (']' :: tail) := fun tail => delimited_cons tail (by decide)
    simp only [charsItems, List.cons_append, List.append_assoc] at h
    obtain ⟨rfl, htail⟩ := eq_of_chars_append item item' (delimited_charsItems items (hclose rest))
      (delimited_charsItems items' (hclose rest')) (List.cons_eq_cons.mp h).2
    obtain ⟨rfl, hsame⟩ := eq_of_charsItems_append items items' htail
    exact ⟨rfl, hsame⟩

/-- The members of an object after the first. -/
theorem eq_of_charsFields_append (fields fields' : List (String × Json)) {rest rest' : List Char}
    (h : charsFields fields ++ '\x7d' :: rest = charsFields fields' ++ '\x7d' :: rest') :
    fields = fields' ∧ rest = rest' := by
  match fields, fields' with
  | [], [] => exact ⟨rfl, (List.cons_eq_cons.mp h).2⟩
  | [], field' :: fields' => exact absurd (List.cons_eq_cons.mp h).1 (by decide)
  | field :: fields, [] => exact absurd (List.cons_eq_cons.mp h).1 (by decide)
  | (key, value) :: fields, (key', value') :: fields' =>
    have hclose : ∀ tail, Delimited ('\x7d' :: tail) := fun tail => delimited_cons tail (by decide)
    simp only [charsFields, List.cons_append, List.append_assoc] at h
    have hkeys := (List.cons_eq_cons.mp h).2
    obtain rfl := eq_of_quote_append_eq hkeys
    obtain ⟨rfl, htail⟩ := eq_of_chars_append value value'
      (delimited_charsFields fields (hclose rest)) (delimited_charsFields fields' (hclose rest'))
      (List.cons_eq_cons.mp (List.append_cancel_left hkeys)).2
    obtain ⟨rfl, hsame⟩ := eq_of_charsFields_append fields fields' htail
    exact ⟨rfl, hsame⟩

end

/-- **Different values have different texts.** -/
theorem render_injective {j j' : Json} (h : j.render = j'.render) : j = j' := by
  have hchars : j.chars = j'.chars := String.ofList_injective h
  exact (eq_of_chars_append j j' delimited_nil delimited_nil (by rw [hchars])).1

end Json

end LiveDocs

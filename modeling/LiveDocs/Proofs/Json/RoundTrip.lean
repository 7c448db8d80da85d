import LiveDocs.Proofs.Json.Numerals
import LiveDocs.Proofs.SortedMap
import LiveDocs.Record

/-!
# JSON texts are read back

The compact text of a value is read as that value, provided its objects list their members in key
order, its doubles read back and it is not nested too deeply. Reading works in two passes, and so
does the proof: the characters of a value are scanned as its tokens, whatever stands behind them
(`Json.run?_chars`), and the tokens of a value are taken as one value by the reader, whatever
containers are open around it (`Json.takeAll?_tokens`).

## Main definitions

* `Json.ReadsBack`, `Json.Legible`: values that their text preserves.
* `Json.tokens`: the tokens of a value.

## Main results

* `Json.parseNested?_render`, `Json.parse?_render`: a legible value is read back.
* `Record.parse?_render`: so is a record.
-/

namespace LiveDocs

namespace Json

mutual

/-- Every number of a value is read back. Only doubles can fail to be. -/
def ReadsBack : Json → Prop
  | num n => n.ReadsBack
  | arr items => ReadsBackItems items
  | obj fields => ReadsBackFields fields
  | _ => True

def ReadsBackItems : List Json → Prop
  | [] => True
  | item :: rest => ReadsBack item ∧ ReadsBackItems rest

def ReadsBackFields : List (String × Json) → Prop
  | [] => True
  | (_, value) :: rest => ReadsBack value ∧ ReadsBackFields rest

end

/-- Values that their text preserves, as far as their nesting allows. -/
structure Legible (j : Json) : Prop where
  canonical : j.Canonical
  readsBack : j.ReadsBack

mutual

def tokens : Json → List Token
  | arr [] => [.openArray, .closeArray]
  | arr (item :: rest) => .openArray :: tokens item ++ tokensItems rest ++ [.closeArray]
  | obj [] => [.openObject, .closeObject]
  | obj ((key, value) :: rest) =>
    .openObject :: .atom (.str key) :: .colon :: tokens value ++ tokensFields rest ++ [.closeObject]
  | j => [.atom j]

/-- The tokens of the items after the first, each with a comma in front. -/
def tokensItems : List Json → List Token
  | [] => []
  | item :: rest => .comma :: tokens item ++ tokensItems rest

/-- The tokens of the members after the first, each with a comma in front. -/
def tokensFields : List (String × Json) → List Token
  | [] => []
  | (key, value) :: rest =>
    .comma :: .atom (.str key) :: .colon :: tokens value ++ tokensFields rest

end

end Json

/-! ## Scanning -/

namespace Scan

/-- Reads characters up to the end of the text. -/
def run? (s : Scan) (cs : List Char) : Option Scan := (s.feedAll? cs).bind finish?

@[simp] theorem run?_cons (s : Scan) (c : Char) (cs : List Char) :
    s.run? (c :: cs) = (s.feed? c).bind (·.run? cs) := by
  simp only [run?, feedAll?]
  cases s.feed? c <;> rfl

/-- Nothing follows that could go on a numeral or a word. -/
def Delimited (cs : List Char) : Prop :=
  ∀ c rest, cs = c :: rest → isNumeralChar c = false ∧ c.isAlpha = false

theorem delimited_nil : Delimited [] := by intro c rest h; cases h

theorem delimited_cons {c : Char} (cs : List Char)
    (h : isNumeralChar c = false ∧ c.isAlpha = false) : Delimited (c :: cs) := by
  intro d rest hd
  cases hd
  exact h

/-- Items and members after the first begin with a comma. -/
theorem delimited_charsItems (items : List Json) {rest : List Char} (h : Delimited rest) :
    Delimited (Json.charsItems items ++ rest) := by
  cases items with
  | nil => exact h
  | cons item items => exact delimited_cons _ (by decide)

theorem delimited_charsFields (fields : List (String × Json)) {rest : List Char}
    (h : Delimited rest) : Delimited (Json.charsFields fields ++ rest) := by
  cases fields with
  | nil => exact h
  | cons field fields => exact delimited_cons _ (by decide)

/-- A numeral or a word ends where something else begins. -/
theorem run?_of_finish? {s s' : Scan} {cs : List Char} (hs : s.finish? = some s')
    (hcs : Delimited cs) : s.run? cs = s'.run? cs := by
  obtain ⟨ts, mode⟩ := s
  cases mode with
  | between => cases hs; rfl
  | numeral chars =>
    obtain ⟨n, hn, rfl⟩ := Option.map_eq_some_iff.mp hs
    cases cs with
    | nil => exact hs
    | cons c cs => simp [feed?, (hcs c cs rfl).1, hs, push]
  | word chars =>
    obtain ⟨j, hj, rfl⟩ := Option.map_eq_some_iff.mp hs
    cases cs with
    | nil => exact hs
    | cons c cs => simp [feed?, (hcs c cs rfl).2, hs, push]
  | _ => cases hs

/-- The characters of a numeral are collected. -/
theorem run?_numeral (ts : List Token) (acc cs rest : List Char)
    (h : ∀ c ∈ cs, isNumeralChar c = true) :
    run? ⟨ts, .numeral acc⟩ (cs ++ rest) = run? ⟨ts, .numeral (cs.reverse ++ acc)⟩ rest := by
  induction cs generalizing acc with
  | nil => rfl
  | cons c cs ih =>
    have hc := h c List.mem_cons_self
    have hrest := ih (c :: acc) fun d hd => h d (List.mem_cons_of_mem _ hd)
    simpa [feed?, hc] using hrest

/-- No character of a numeral is a token of its own or begins a string. -/
theorem begin?_isNumeralChar (ts : List Token) {c : Char} (h : isNumeralChar c = true) :
    begin? ⟨ts, .between⟩ c = some ⟨ts, .numeral [c]⟩ := by
  have hblank : isBlank c = false := by
    rcases Bool.eq_false_or_eq_true (isBlank c) with hb | hb
    · simp only [isBlank, Bool.or_eq_true, decide_eq_true_eq] at hb
      rcases hb with ((rfl | rfl) | rfl) | rfl <;> exact absurd h (by decide)
    · exact hb
  have hne : ∀ d, isNumeralChar d = false → c ≠ d := fun d hd hcd => by simp [hcd, hd] at h
  simp [begin?, hblank, h, hne '[' (by decide), hne ']' (by decide), hne '\x7b' (by decide),
    hne '\x7d' (by decide), hne ',' (by decide), hne ':' (by decide), hne '"' (by decide)]

/-- A numeral is read up to a character that cannot go on with it. -/
theorem run?_number (ts : List Token) {n : Number} (hn : n.ReadsBack) {rest : List Char}
    (hrest : Delimited rest) :
    run? ⟨ts, .between⟩ (n.chars ++ rest) = run? ⟨.atom (.num n) :: ts, .between⟩ rest := by
  obtain ⟨hne, hall⟩ := hn.isNumeralChar
  cases hcs : n.chars with
  | nil => exact absurd hcs hne
  | cons c cs =>
    rw [hcs] at hall
    have hfinish : finish? ⟨ts, .numeral (cs.reverse ++ [c])⟩ =
        some ⟨.atom (.num n) :: ts, .between⟩ := by
      have hread : Number.ofChars? (c :: cs) = some n := hcs ▸ hn
      simp [finish?, push, hread]
    rw [List.cons_append, run?_cons, feed?, begin?_isNumeralChar ts (hall c List.mem_cons_self),
      Option.bind_some, run?_numeral ts [c] cs rest fun d hd => hall d (List.mem_cons_of_mem _ hd)]
    exact run?_of_finish? hfinish hrest

/-! ### Strings -/

theorem hexValue?_digitChar : ∀ n, n < 16 → hexValue? (Nat.digitChar n) = some n := by decide

/-- A written character is read as that character. -/
theorem run?_escapeChar (ts : List Token) (acc rest : List Char) (c : Char) :
    run? ⟨ts, .string acc⟩ (Json.escapeChar c ++ rest) = run? ⟨ts, .string (c :: acc)⟩ rest := by
  have hof : ∀ {n : Nat}, c.toNat = n → Char.ofNat n = c := fun h => h ▸ Char.ofNat_toNat c
  unfold Json.escapeChar
  split
  · next h => subst h; rfl
  · next hquote =>
    split
    · next h => subst h; rfl
    · next hslash =>
      split
      · next hlow =>
        -- Below the blank: five short escapes, and four hexadecimal digits for all others.
        split
        · next h => rw [← hof h]; rfl
        · split
          · next h => rw [← hof h]; rfl
          · split
            · next h => rw [← hof h]; rfl
            · split
              · next h => rw [← hof h]; rfl
              · split
                · next h => rw [← hof h]; rfl
                · have hhigh := hexValue?_digitChar (c.toNat / 16) (by omega)
                  have hdigit := hexValue?_digitChar (c.toNat % 16) (by omega)
                  have hvalue : c.toNat / 16 * 16 + c.toNat % 16 = c.toNat := by omega
                  have hzero : hexValue? '0' = some 0 := by decide
                  have hlow' : ¬ (0xdc00 ≤ c.toNat ∧ c.toNat ≤ 0xdfff) := by omega
                  have hhigh' : ¬ (0xd800 ≤ c.toNat ∧ c.toNat ≤ 0xdbff) := by omega
                  simp [feed?, hzero, hhigh, hdigit, unicodeMode?, hvalue, hlow', hhigh']
      · next hlow => simp [feed?, hquote, hslash, hlow]

/-- By induction on the characters that are left, with those already read in hand. -/
theorem run?_quoted (ts : List Token) (acc cs rest : List Char) :
    run? ⟨ts, .string acc⟩ (cs.flatMap Json.escapeChar ++ '"' :: rest) =
      run? ⟨.atom (.str (String.ofList (acc.reverse ++ cs))) :: ts, .between⟩ rest := by
  induction cs generalizing acc with
  | nil => simp [feed?, push]
  | cons c cs ih =>
    rw [List.flatMap_cons, List.append_assoc, run?_escapeChar, ih]
    simp

theorem run?_quote (ts : List Token) (s : String) (rest : List Char) :
    run? ⟨ts, .between⟩ (Json.quote s ++ rest) = run? ⟨.atom (.str s) :: ts, .between⟩ rest := by
  have hopen : begin? ⟨ts, .between⟩ '"' = some ⟨ts, .string []⟩ := rfl
  have hquoted := run?_quoted ts [] s.toList rest
  simp only [List.reverse_nil, List.nil_append, String.ofList_toList] at hquoted
  simp [Json.quote, feed?, hopen, hquoted]

end Scan

namespace Json

open Scan

mutual

/-- The characters of a value are scanned as its tokens. -/
theorem run?_chars (j : Json) (hj : j.ReadsBack) (ts : List Token) {rest : List Char}
    (hrest : Delimited rest) :
    run? ⟨ts, .between⟩ (j.chars ++ rest) = run? ⟨j.tokens.reverse ++ ts, .between⟩ rest := by
  match j with
  | null =>
    exact run?_of_finish? (s := ⟨ts, .word ['l', 'l', 'u', 'n']⟩) rfl hrest
  | bool true =>
    exact run?_of_finish? (s := ⟨ts, .word ['e', 'u', 'r', 't']⟩) rfl hrest
  | bool false =>
    exact run?_of_finish? (s := ⟨ts, .word ['e', 's', 'l', 'a', 'f']⟩) rfl hrest
  | num n => exact run?_number ts hj hrest
  | str s => exact run?_quote ts s rest
  | arr [] => rfl
  | arr (item :: items) =>
    have hclose : Delimited (']' :: rest) := delimited_cons rest (by decide)
    have hitem := run?_chars item hj.1 (.openArray :: ts) (delimited_charsItems items hclose)
    have hitems := run?_charsItems items hj.2 (item.tokens.reverse ++ .openArray :: ts) hclose
    have hopen : feed? ⟨ts, .between⟩ '[' = some ⟨.openArray :: ts, .between⟩ := rfl
    simp only [chars, List.cons_append, List.append_assoc, List.nil_append, run?_cons, hopen,
      Option.bind_some]
    rw [hitem, hitems, run?_cons]
    simp [feed?, begin?, isBlank, push, tokens]
  | obj [] => rfl
  | obj ((key, value) :: fields) =>
    have hclose : Delimited ('\x7d' :: rest) := delimited_cons rest (by decide)
    have hvalue := run?_chars value hj.1 (.colon :: .atom (.str key) :: .openObject :: ts)
      (delimited_charsFields fields hclose)
    have hfields := run?_charsFields fields hj.2
      (value.tokens.reverse ++ .colon :: .atom (.str key) :: .openObject :: ts) hclose
    have hopen : feed? ⟨ts, .between⟩ '\x7b' = some ⟨.openObject :: ts, .between⟩ := rfl
    have hcolon : feed? ⟨.atom (.str key) :: .openObject :: ts, .between⟩ ':' =
        some ⟨.colon :: .atom (.str key) :: .openObject :: ts, .between⟩ := rfl
    simp only [chars, List.cons_append, List.append_assoc, List.nil_append, run?_cons, hopen,
      Option.bind_some]
    rw [run?_quote, run?_cons, hcolon, Option.bind_some, hvalue, hfields, run?_cons]
    simp [feed?, begin?, isBlank, push, tokens]

/-- The items behind a first one, each behind its comma. -/
theorem run?_charsItems (items : List Json) (hj : ReadsBackItems items) (ts : List Token)
    {rest : List Char} (hrest : Delimited rest) :
    run? ⟨ts, .between⟩ (charsItems items ++ rest) =
      run? ⟨(tokensItems items).reverse ++ ts, .between⟩ rest := by
  match items with
  | [] => rfl
  | item :: items =>
    have hitem := run?_chars item hj.1 (.comma :: ts) (delimited_charsItems items hrest)
    have hitems := run?_charsItems items hj.2 (item.tokens.reverse ++ .comma :: ts) hrest
    have hcomma : feed? ⟨ts, .between⟩ ',' = some ⟨.comma :: ts, .between⟩ := rfl
    simp only [charsItems, List.cons_append, List.append_assoc, run?_cons, hcomma, Option.bind_some]
    rw [hitem, hitems]
    simp [tokensItems]

theorem run?_charsFields (fields : List (String × Json)) (hj : ReadsBackFields fields)
    (ts : List Token) {rest : List Char} (hrest : Delimited rest) :
    run? ⟨ts, .between⟩ (charsFields fields ++ rest) =
      run? ⟨(tokensFields fields).reverse ++ ts, .between⟩ rest := by
  match fields with
  | [] => rfl
  | (key, value) :: fields =>
    have hvalue := run?_chars value hj.1 (.colon :: .atom (.str key) :: .comma :: ts)
      (delimited_charsFields fields hrest)
    have hfields := run?_charsFields fields hj.2
      (value.tokens.reverse ++ .colon :: .atom (.str key) :: .comma :: ts) hrest
    have hcomma : feed? ⟨ts, .between⟩ ',' = some ⟨.comma :: ts, .between⟩ := rfl
    have hcolon : feed? ⟨.atom (.str key) :: .comma :: ts, .between⟩ ':' =
        some ⟨.colon :: .atom (.str key) :: .comma :: ts, .between⟩ := rfl
    simp only [charsFields, List.cons_append, List.append_assoc, run?_cons, hcomma,
      Option.bind_some]
    rw [run?_quote, run?_cons, hcolon, Option.bind_some, hvalue, hfields]
    simp [tokensFields]

end

/-- The tokens of a legible text are the tokens of its value. -/
theorem scan?_chars {j : Json} (hj : j.ReadsBack) : Token.scan? j.chars = some j.tokens := by
  have hrun := run?_chars j hj [] delimited_nil
  simp only [List.append_nil, run?, feedAll?, Option.bind_some, finish?] at hrun
  simp [Token.scan?, start, hrun]

end Json

/-! ## Reading tokens -/

namespace Reader

@[simp] theorem takeAll?_cons (limit : Nat) (r : Reader) (t : Token) (ts : List Token) :
    takeAll? limit r (t :: ts) = (take? limit r t).bind (·.takeAll? limit ts) := rfl

end Reader

namespace Json

open Reader

/-- A value that is no container is one token. -/
theorem takeAll?_atom (limit : Nat) (stack : List Open) (orEnd : Bool) (j : Json)
    (rest : List Token) :
    takeAll? limit ⟨stack, .value orEnd⟩ (.atom j :: rest) =
      takeAll? limit (place stack j) rest := by
  simp [take?]

mutual

/-- The tokens of a value are taken as that value. -/
theorem takeAll?_tokens (limit : Nat) (j : Json) (hj : j.Canonical) (stack : List Open)
    (orEnd : Bool) (hdepth : stack.length + j.depth ≤ limit) (rest : List Token) :
    takeAll? limit ⟨stack, .value orEnd⟩ (j.tokens ++ rest) =
      takeAll? limit (place stack j) rest := by
  match j with
  | null | bool _ | num _ | str _ => exact takeAll?_atom limit stack orEnd _ rest
  | arr [] =>
    have hroom : stack.length < limit := by simp only [depth] at hdepth; omega
    simp [tokens, take?, openContainer?, hroom]
  | arr (item :: items) =>
    simp only [depth, depthItems] at hdepth
    have hroom : stack.length < limit := by omega
    have hitem := takeAll?_tokens limit item hj.1 (.array [] :: stack) true
      (by simp only [List.length_cons]; omega) (tokensItems items ++ .closeArray :: rest)
    have hitems := takeAll?_tokensItems limit items hj.2 [item] stack (by omega) rest
    simp only [tokens, List.cons_append, List.append_assoc, List.nil_append, takeAll?_cons, take?,
      openContainer?, hroom, if_true, Option.bind_some]
    rw [hitem]
    exact hitems
  | obj [] =>
    have hroom : stack.length < limit := by simp only [depth] at hdepth; omega
    simp [tokens, take?, openContainer?, hroom, ofRecord, SortedMap.empty]
  | obj ((key, value) :: fields) =>
    simp only [depth, depthFields] at hdepth
    have hroom : stack.length < limit := by omega
    have hvalue := takeAll?_tokens limit value hj.2.1 (.object .empty key :: stack) false
      (by simp only [List.length_cons]; omega) (tokensFields fields ++ .closeObject :: rest)
    have hfields := takeAll?_tokensFields limit fields hj.2.2 (SortedMap.empty.insert key value)
      stack (by omega) hj.1 rest
    simp only [tokens, List.cons_append, List.append_assoc, List.nil_append, takeAll?_cons, take?,
      openContainer?, hroom, if_true, Option.bind_some]
    rw [hvalue]
    exact hfields

/-- The items after the first go into an array, which is then closed. -/
theorem takeAll?_tokensItems (limit : Nat) (items : List Json) (hj : CanonicalItems items)
    (acc : List Json) (stack : List Open) (hdepth : stack.length + 1 + depthItems items ≤ limit)
    (rest : List Token) :
    takeAll? limit ⟨.array acc :: stack, .comma⟩ (tokensItems items ++ .closeArray :: rest) =
      takeAll? limit (place stack (.arr (acc.reverse ++ items))) rest := by
  match items with
  | [] => simp [tokensItems, take?]
  | item :: items =>
    simp only [depthItems] at hdepth
    have hitem := takeAll?_tokens limit item hj.1 (.array acc :: stack) false
      (by simp only [List.length_cons]; omega) (tokensItems items ++ .closeArray :: rest)
    have hitems := takeAll?_tokensItems limit items hj.2 (item :: acc) stack (by omega) rest
    simp only [tokensItems, List.cons_append, List.append_assoc, takeAll?_cons, take?,
      Option.bind_some]
    rw [hitem]
    simpa [place] using hitems

/-- The members after the first go into an object, which is then closed. They are listed in key
order, so each of them goes to the end. -/
theorem takeAll?_tokensFields (limit : Nat) (fields : List (String × Json))
    (hj : CanonicalFields fields) (acc : Record) (stack : List Open)
    (hdepth : stack.length + 1 + depthFields fields ≤ limit)
    (hsorted : (acc.entries ++ fields).Pairwise (fun a b => a.1 < b.1)) (rest : List Token) :
    takeAll? limit ⟨.object acc "" :: stack, .comma⟩ (tokensFields fields ++ .closeObject :: rest) =
      takeAll? limit (place stack (.obj (acc.entries ++ fields))) rest := by
  match fields with
  | [] => simp [tokensFields, take?, ofRecord]
  | (key, value) :: fields =>
    simp only [depthFields] at hdepth
    have hlast : ∀ p ∈ acc.entries, p.1 < key := fun p hp =>
      (List.pairwise_append.mp hsorted).2.2 p hp (key, value) List.mem_cons_self
    have hinsert := SortedMap.entries_insert_of_lt acc value hlast
    have hvalue := takeAll?_tokens limit value hj.1 (.object acc key :: stack) false
      (by simp only [List.length_cons]; omega) (tokensFields fields ++ .closeObject :: rest)
    have hfields := takeAll?_tokensFields limit fields hj.2 (acc.insert key value) stack (by omega)
      (by rw [hinsert]; simpa using hsorted) rest
    simp only [tokensFields, List.cons_append, List.append_assoc, takeAll?_cons, take?,
      Option.bind_some]
    rw [hvalue]
    simpa [place, hinsert] using hfields

end

/-- A legible value is read back from its text if it is not nested too deeply. -/
theorem parseNested?_render {limit : Nat} {j : Json} (hj : j.Legible) (hdepth : j.depth ≤ limit) :
    parseNested? limit j.render = some j := by
  have htake := takeAll?_tokens limit j hj.canonical [] false (by simpa using hdepth) []
  simp only [List.append_nil] at htake
  simp [parseNested?, render, scan?_chars hj.readsBack, start, htake, takeAll?, place, value?]

theorem parse?_render {j : Json} (hj : j.Legible) (hdepth : j.depth ≤ nestingLimit) :
    parse? j.render = some j :=
  parseNested?_render hj hdepth

@[simp] theorem record?_ofRecord (r : Record) : (ofRecord r).record? = some r := by
  simp [ofRecord, record?]

/-- A list is read back if its items are. -/
theorem mapM_map_eq_some {α : Type} {write : α → Json} {read : Json → Option α}
    (h : ∀ x, read (write x) = some x) (xs : List α) : (xs.map write).mapM read = some xs := by
  have hitem : read ∘ write = pure := funext h
  rw [List.mapM_map, hitem, List.mapM_pure, List.map_id']
  rfl

end Json

namespace Record

/-- A record of legible values is read back. -/
theorem parse?_render {r : Record} (hr : (Json.ofRecord r).Legible)
    (hdepth : (Json.ofRecord r).depth ≤ Json.nestingLimit) : Record.parse? r.render = some r := by
  have hparse := Json.parse?_render hr hdepth
  simp only [Record.parse?, Record.render, hparse, Option.bind_some, Json.record?_ofRecord]

end Record

end LiveDocs

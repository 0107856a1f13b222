import Slotted.Json.Listing
import Slotted.Proofs.Json.Token
import Slotted.Proofs.Scalar

/-!
# Lists are read back

An item of a list is read back if its text ends where a comma or a closing bracket follows, and if
it does not begin like the end of the list.  What is a list of such items is read back item by item,
and so are pairs of an item and a count that a machine word can hold.

## Main definitions

* `ReadAs` — a text is read as a value, wherever it stands in a list.
* `ReadBack` — all values of a type are read back from their texts.

## Main results

* `readBack_scalar`, `readBack_bool`, `readBack_string` — the elements that are read back.
* `Listing.elements_writeList`, `Listing.entries_writeList` — the lists of such elements are.
-/

namespace Slotted.Json

variable {α : Type} {rest : List Char}

/-- A text is read as a value, wherever it stands in a list. -/
structure ReadAs (read : List Char → Except Fault (α × List Char)) (text : List Char) (a : α) :
    Prop where
  /-- It begins with neither a blank nor the end of the list. -/
  begins : ∃ c cs, text = c :: cs ∧ isBlank c = false ∧ c ≠ ']'
  /-- It is taken off the front of what begins with it and goes on as in a list. -/
  reads : ∀ rest, Delimited rest → read (text ++ rest) = .ok (a, rest)

/-- A text is read and found to be at fault, wherever it stands in a list. -/
structure RefusedAs (read : List Char → Except Fault (α × List Char)) (text : List Char)
    (f : Fault) : Prop where
  /-- It begins with neither a blank nor the end of the list. -/
  begins : ∃ c cs, text = c :: cs ∧ isBlank c = false ∧ c ≠ ']'
  /-- It is at fault if it goes on as in a list. -/
  refuses : ∀ rest, Delimited rest → read (text ++ rest) = .error f

/-! ### Elements -/

theorem ReadAs.of_token {value : Token → Except Fault α} {text : List Char} {t : Token} {a : α}
    (hbegins : ∃ c cs, text = c :: cs ∧ isBlank c = false ∧ c ≠ ']')
    (htoken : ∀ rest, Delimited rest → Token.read? (text ++ rest) = some (t, rest))
    (hvalue : value t = .ok a) : ReadAs (readToken value) text a where
  begins := hbegins
  reads := by
    intro rest hrest
    rw [readToken, htoken rest hrest]
    simp only [hvalue]
    rfl

/-- A numeral is read back, if the value is made of what its parts say. -/
theorem readAs_signedText {value : Token → Except Fault α} {negative : Bool} {p : Parts} {a : α}
    (hp : p.WellFormed) (hvalue : value (.number (.ofParts negative p)) = .ok a) :
    ReadAs (readToken value) (p.signedText negative) a := by
  obtain ⟨c, cs, hcs, hc⟩ := Parts.exists_signedText_eq negative hp
  refine .of_token ⟨c, cs, hcs, isBlank_of_beginsNumeral hc, ?_⟩
    (fun rest => Token.read?_signedText negative hp) hvalue
  rintro rfl
  exact absurd hc (by decide)

theorem readAs_writeInt {value : Token → Except Fault α} {i : ℤ} {a : α}
    (hvalue : value (.number (Numeral.ofInt i)) = .ok a) :
    ReadAs (readToken value) (writeInt i) a := by
  rw [writeInt_eq]
  rw [← Numeral.ofParts_ofNat] at hvalue
  exact readAs_signedText (Parts.wellFormed_ofNat _) hvalue

theorem readAs_write {value : Token → Except Fault α} {cs : List Char} {a : α}
    (hvalue : value (.string cs) = .ok a) : ReadAs (readToken value) (Literal.write cs) a :=
  .of_token ⟨Literal.quote, _, rfl, by decide, by decide⟩
    (fun rest _ => Token.read?_write cs rest) hvalue

theorem readAs_writeNat {n : ℕ} (hn : n ≤ maxWord) : ReadAs readCount (writeNat n) n := by
  have hword : (n : ℤ) ≤ 0xffffffffffffffff := Int.ofNat_le.2 hn
  refine readAs_writeInt (i := n) ?_
  rw [Token.toCount, Numeral.toInt?_ofInt (by omega) hword]

/-- All values of a type are read back from their texts. -/
def ReadBack (α : Type) [Element α] : Prop := ∀ a : α, ReadAs Element.read (Element.write a) a

theorem Token.toInteger_ofInt {k : Kind} (v : Scalar k) :
    Token.toInteger k (.number (Numeral.ofInt v.toInt)) = .ok v := by
  have hnumber := Numeral.toInt?_ofInt v.toInt_word.1 v.toInt_word.2
  rw [Token.toInteger, hnumber]
  simp only [Scalar.ofInt?_toInt]

/-- Integers and characters are read back. -/
theorem readBack_scalar {k : Kind} (hk : k.isFloat = false) : ReadBack (Scalar k) := by
  intro v
  cases k with
  | f32 => cases hk
  | f64 => cases hk
  | char =>
    have hvalue : Token.toCharacter (.string [v.toChar]) = .ok v := by
      rw [Token.toCharacter, Scalar.ofChar_toChar]
    exact readAs_write hvalue
  | _ => exact readAs_writeInt (Token.toInteger_ofInt v)

theorem readBack_bool : ReadBack Bool := by
  intro b
  cases b
  · exact .of_token ⟨'f', _, rfl, by decide, by decide⟩ (fun _ _ => rfl) rfl
  · exact .of_token ⟨'t', _, rfl, by decide, by decide⟩ (fun _ _ => rfl) rfl

theorem readBack_string : ReadBack String := by
  intro s
  have hvalue : Token.toText (.string s.toList) = .ok s := congrArg Except.ok String.ofList_toList
  exact readAs_write hvalue

/-! ### Lists -/

@[simp] theorem commaSeparated_singleton (t : List Char) : commaSeparated [t] = t := rfl

theorem commaSeparated_cons_cons (t t' : List Char) (ts : List (List Char)) :
    commaSeparated (t :: t' :: ts) = t ++ ',' :: commaSeparated (t' :: ts) := rfl

theorem exists_commaSeparated_append (t : List Char) (ts : List (List Char)) :
    ∃ rest, Delimited rest ∧ commaSeparated (t :: ts) ++ [']'] = t ++ rest := by
  cases ts with
  | nil => exact ⟨[']'], ⟨']', [], rfl, Or.inr rfl⟩, rfl⟩
  | cons t' ts =>
    refine ⟨',' :: (commaSeparated (t' :: ts) ++ [']']), ⟨',', _, rfl, Or.inl rfl⟩, ?_⟩
    rw [commaSeparated_cons_cons, List.append_assoc, List.cons_append]

namespace Listing

variable {item : List Char → Except Fault (α × List Char)} {text : α → List Char}

theorem readItems_commaSeparated (a : α) (as : List α)
    (h : ∀ b ∈ a :: as, ReadAs item (text b) b) {fuel : ℕ} (hfuel : as.length < fuel) :
    readItems item fuel (commaSeparated ((a :: as).map text) ++ [']']) = ⟨a :: as, none⟩ := by
  induction as generalizing a fuel with
  | nil =>
    obtain ⟨fuel, rfl⟩ := Nat.exists_eq_succ_of_ne_zero (Nat.ne_zero_of_lt hfuel)
    have hread := (h a List.mem_cons_self).reads [']'] ⟨']', [], rfl, Or.inr rfl⟩
    rw [List.map_cons, List.map_nil, commaSeparated_singleton, readItems, hread]
    rfl
  | cons b as ih =>
    obtain ⟨fuel, rfl⟩ := Nat.exists_eq_succ_of_ne_zero (Nat.ne_zero_of_lt hfuel)
    have hread := (h a List.mem_cons_self).reads
      (',' :: (commaSeparated ((b :: as).map text) ++ [']'])) ⟨',', _, rfl, Or.inl rfl⟩
    have hrest := ih b (fun c hc => h c (List.mem_cons_of_mem a hc)) (Nat.lt_of_succ_lt_succ hfuel)
    rw [List.map_cons] at hrest hread
    rw [List.map_cons, List.map_cons, commaSeparated_cons_cons, List.append_assoc,
      List.cons_append, readItems, hread]
    exact congrArg (cons a) hrest

/-- The items before one that is refused are read. -/
theorem readItems_commaSeparated_refused {b : α} {f : Fault} (hb : RefusedAs item (text b) f)
    (as bs : List α) (h : ∀ a ∈ as, ReadAs item (text a) a) {fuel : ℕ} (hfuel : as.length < fuel) :
    readItems item fuel (commaSeparated ((as ++ b :: bs).map text) ++ [']']) = ⟨as, some f⟩ := by
  induction as generalizing fuel with
  | nil =>
    obtain ⟨fuel, rfl⟩ := Nat.exists_eq_succ_of_ne_zero (Nat.ne_zero_of_lt hfuel)
    obtain ⟨rest, hrest, htext⟩ := exists_commaSeparated_append (text b) (bs.map text)
    rw [List.nil_append, List.map_cons, htext, readItems, hb.refuses rest hrest]
    rfl
  | cons a as ih =>
    obtain ⟨fuel, rfl⟩ := Nat.exists_eq_succ_of_ne_zero (Nat.ne_zero_of_lt hfuel)
    obtain ⟨c, cs, hcs⟩ := List.exists_cons_of_ne_nil (List.append_ne_nil_of_right_ne_nil as
      (List.cons_ne_nil b bs))
    have hrest := ih (fun c hc => h c (List.mem_cons_of_mem a hc)) (Nat.lt_of_succ_lt_succ hfuel)
    rw [hcs, List.map_cons] at hrest
    have hread := (h a List.mem_cons_self).reads
      (',' :: (commaSeparated (text c :: cs.map text) ++ [']'])) ⟨',', _, rfl, Or.inl rfl⟩
    rw [List.cons_append, hcs, List.map_cons, List.map_cons, commaSeparated_cons_cons,
      List.append_assoc, List.cons_append, readItems, hread]
    exact congrArg (cons a) hrest

/-- There is a comma between any two items. -/
theorem length_le_length_commaSeparated (ts : List (List Char)) :
    ts.length ≤ (commaSeparated ts).length + 1 := by
  induction ts with
  | nil => exact Nat.zero_le _
  | cons t ts ih =>
    cases ts with
    | nil => exact Nat.le_add_left _ _
    | cons t' ts =>
      rw [commaSeparated_cons_cons, List.length_append]
      simp only [List.length_cons] at ih ⊢
      omega

/-- A list that is not empty is read item by item. -/
theorem read_writeList_cons (expected : Expected)
    (item : List Char → Except Fault (α × List Char)) {t : List Char}
    (ht : ∃ c cs, t = c :: cs ∧ isBlank c = false ∧ c ≠ ']') (ts : List (List Char)) :
    ∃ fuel, (t :: ts).length < fuel ∧
      read expected item (writeList (t :: ts))
        = readItems item fuel (commaSeparated (t :: ts) ++ [']']) := by
  obtain ⟨c, cs, rfl, hblank, hclose⟩ := ht
  have hlength := length_le_length_commaSeparated ((c :: cs) :: ts)
  obtain ⟨rest, -, htext⟩ := exists_commaSeparated_append (c :: cs) ts
  refine ⟨(commaSeparated ((c :: cs) :: ts) ++ [']']).length + 1, ?_, ?_⟩
  · rw [List.length_append, List.length_singleton]
    omega
  · have hopen : Token.read? (writeList ((c :: cs) :: ts))
        = some (.openList, commaSeparated ((c :: cs) :: ts) ++ [']']) := rfl
    rw [read, hopen, htext]
    simp only [List.cons_append, skipBlanks_cons hblank]
    split
    · next heq => exact absurd (List.cons.inj heq).1 hclose
    · rfl

/-- The items of a list are those that were written. -/
theorem read_writeList (expected : Expected) {as : List α} (h : ∀ a ∈ as, ReadAs item (text a) a) :
    read expected item (writeList (as.map text)) = ⟨as, none⟩ := by
  cases as with
  | nil => rfl
  | cons a as =>
    obtain ⟨fuel, hfuel, hread⟩ :=
      read_writeList_cons expected item (h a List.mem_cons_self).begins (as.map text)
    rw [List.length_cons, List.length_map] at hfuel
    rw [List.map_cons, hread]
    exact readItems_commaSeparated a as h (by omega)

/-- An item that is refused is the fault of the list. -/
theorem read_writeList_refused (expected : Expected) {b : α} {f : Fault}
    (hb : RefusedAs item (text b) f) (as bs : List α) (h : ∀ a ∈ as, ReadAs item (text a) a) :
    read expected item (writeList ((as ++ b :: bs).map text)) = ⟨as, some f⟩ := by
  obtain ⟨c, cs, hcs, hbegins⟩ : ∃ c cs, as ++ b :: bs = c :: cs ∧
      ∃ d ds, text c = d :: ds ∧ isBlank d = false ∧ d ≠ ']' := by
    cases as with
    | nil => exact ⟨b, bs, rfl, hb.begins⟩
    | cons a as => exact ⟨a, as ++ b :: bs, rfl, (h a List.mem_cons_self).begins⟩
  obtain ⟨fuel, hfuel, hread⟩ := read_writeList_cons expected item hbegins (cs.map text)
  have hlength : as.length < fuel := by
    have heq := congrArg List.length hcs
    simp only [List.length_append, List.length_cons, List.length_map] at heq hfuel
    omega
  have hitems := readItems_commaSeparated_refused hb as bs h hlength
  rw [hcs] at hitems ⊢
  exact hread.trans hitems

/-! ### Pairs -/

theorem readRestOfPair_writeNat {n : ℕ} (hn : n ≤ maxWord) (rest : List Char) :
    readRestOfPair (',' :: (writeNat n ++ ']' :: rest)) = .ok (n, rest) := by
  have hcount := (readAs_writeNat hn).reads (']' :: rest) ⟨']', rest, rfl, Or.inr rfl⟩
  have hcomma : isBlank ',' = false := by decide
  simp only [readRestOfPair, skipBlanks_cons hcomma, hcount]
  rfl

/-- A pair is read by its value and then its count. -/
theorem readPair_writePair [Element α] {a : α}
    (ha : ∃ c cs, Element.write a = c :: cs ∧ isBlank c = false ∧ c ≠ ']') (n : ℕ)
    (rest : List Char) :
    readPair (writePair (a, n) ++ rest) = (do
      let (b, rest) ← Element.read (Element.write a ++ ',' :: (writeNat n ++ ']' :: rest))
      let (m, rest) ← readRestOfPair rest
      .ok ((b, m), rest) : Except Fault ((α × ℕ) × List Char)) := by
  obtain ⟨c, cs, hcs, hblank, hclose⟩ := ha
  have htext : writePair (a, n) ++ rest
      = '[' :: c :: (cs ++ ',' :: (writeNat n ++ ']' :: rest)) := by
    rw [writePair, writeList, commaSeparated_cons_cons, commaSeparated_singleton, hcs]
    simp
  have hopen : Token.read? (writePair (a, n) ++ rest)
      = some (.openList, c :: (cs ++ ',' :: (writeNat n ++ ']' :: rest))) := by
    rw [htext]
    rfl
  rw [readPair, hopen, hcs]
  simp only [skipBlanks_cons hblank]
  split
  · next heq => exact absurd (List.cons.inj heq).1 hclose
  · rfl

theorem readAs_writePair [Element α] {a : α} (ha : ReadAs Element.read (Element.write a) a) {n : ℕ}
    (hn : n ≤ maxWord) : ReadAs readPair (writePair (a, n)) (a, n) where
  begins := ⟨'[', _, rfl, by decide, by decide⟩
  reads := by
    intro rest _
    rw [readPair_writePair ha.begins, ha.reads _ ⟨',', _, rfl, Or.inl rfl⟩]
    simp only [bind, Except.bind, readRestOfPair_writeNat hn]

/-- A pair is refused if its value is. -/
theorem refusedAs_writePair [Element α] {a : α} {f : Fault}
    (ha : RefusedAs (Element.read (α := α)) (Element.write a) f) (n : ℕ) :
    RefusedAs (readPair (α := α)) (writePair (a, n)) f where
  begins := ⟨'[', _, rfl, by decide, by decide⟩
  refuses := by
    intro rest _
    rw [readPair_writePair ha.begins, ha.refuses _ ⟨',', _, rfl, Or.inl rfl⟩]
    rfl

/-! ### Documents -/

section Documents

variable [Element α] {as bs : List α} {es es' : List (α × ℕ)} {f : Fault}

/-- The elements of a document are those that were written. -/
theorem elements_writeList (h : ∀ a ∈ as, ReadAs Element.read (Element.write a) a) :
    elements (String.ofList (writeList (as.map Element.write))) = ⟨as, none⟩ := by
  rw [elements, String.toList_ofList]
  exact read_writeList .set h

/-- They are those before the first that is refused. -/
theorem elements_writeList_refused {b : α}
    (hb : RefusedAs (Element.read (α := α)) (Element.write b) f)
    (h : ∀ a ∈ as, ReadAs Element.read (Element.write a) a) :
    elements (String.ofList (writeList ((as ++ b :: bs).map Element.write)))
      = ⟨as, some f⟩ := by
  rw [elements, String.toList_ofList]
  exact read_writeList_refused .set hb as bs h

/-- The values of a document have the counts that were written. -/
theorem entries_writeList (h : ∀ e ∈ es, ReadAs Element.read (Element.write e.1) e.1)
    (hes : ∀ e ∈ es, e.2 ≤ maxWord) :
    entries (String.ofList (writeList (es.map writePair))) = ⟨es, none⟩ := by
  rw [entries, String.toList_ofList]
  exact read_writeList .bag fun e he => readAs_writePair (h e he) (hes e he)

/-- They are those before the first that is refused. -/
theorem entries_writeList_refused {e : α × ℕ}
    (he : RefusedAs (Element.read (α := α)) (Element.write e.1) f)
    (h : ∀ e ∈ es, ReadAs Element.read (Element.write e.1) e.1) (hes : ∀ e ∈ es, e.2 ≤ maxWord) :
    entries (String.ofList (writeList ((es ++ e :: es').map writePair))) = ⟨es, some f⟩ := by
  rw [entries, String.toList_ofList]
  exact read_writeList_refused .bag (refusedAs_writePair he e.2) es es' fun e he =>
    readAs_writePair (h e he) (hes e he)

end Documents

end Listing
end Slotted.Json

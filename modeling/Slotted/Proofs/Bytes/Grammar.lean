import Mathlib.Algebra.Order.BigOperators.Group.List
import Slotted.Proofs.Bytes.Recognition
import Slotted.Proofs.Bytes.RoundTrip

/-!
# The grammar of encodings

A set is listed as its tag, the number of its elements, and the elements; a bag as its tag, the
number of its entries, and each element with a count.  Elements do not repeat, counts are not zero
and add up to a machine word.  That is all a decoder asks for: it takes every listing, and it
rejects everything else as malformed.

A listing may spell a NaN in any way.  The container keeps the NaN that was listed, but its encoding
spells all of them alike, and has the elements in the order of the slots.

## Main definitions

* `ListsSet`, `ListsBag` — the grammar: some bytes list the elements of a set, the entries of a bag.
* `HoldsSet`, `HoldsBag` — a container holds what is listed, and is encoded accordingly.
* `Decides` — a decoder accepts the forms of a grammar, and rejects everything else as malformed.
* `Gained` — some bytes are what one container has more than another.
* `StrictSetLaws`, `StrictBagLaws` — what a decoder needs of a container to tell duplicates.

## Main results

* `ListsSet.unique`, `ListsBag.unique` — some bytes list one container at most.
* `StrictSetLaws.recognizes_readElements`, `StrictBagLaws.recognizes_readEntries` — what is read.
* `StrictSetLaws.decides`, `StrictBagLaws.decides` — what a decoder accepts, in general.
* `decides_listings` — what each of the four decoders accepts.
* `ScalarSet.reachable_of_ofBytes`, `ScalarBag.reachable_of_ofBytes` — decoded containers are
  reachable.
-/

namespace Slotted

open Collection Counted Bag ByteReader

variable {C α κ : Type}

/-! ### Listings -/

/-- Some bytes list the elements of a set, each written in the given way. -/
structure ListsSet (tag : ℕ) (write : α → List UInt8) (key : α → κ) (bytes : List UInt8)
    (as : List α) : Prop where
  /-- The tag, the number of elements, the elements, and nothing after them. -/
  bytes_eq : bytes = UInt8.ofNat tag :: (wordBytes as.length ++ as.flatMap write)
  /-- The number of elements is a machine word. -/
  length_le : as.length ≤ maxWord
  /-- No two elements have one key. -/
  nodup : (as.map key).Nodup

/-- The bytes of an element with its count. -/
def entryBytes (write : α → List UInt8) (e : α × ℕ) : List UInt8 := write e.1 ++ wordBytes e.2

theorem length_entryBytes {write : α → List UInt8} {width : ℕ}
    (hwidth : ∀ a, (write a).length = width) (e : α × ℕ) :
    (entryBytes write e).length = width + 8 := by
  rw [entryBytes, List.length_append, hwidth, wordBytes, length_littleEndian]

/-- Some bytes list the entries of a bag. -/
structure ListsBag (tag : ℕ) (write : α → List UInt8) (key : α → κ) (bytes : List UInt8)
    (es : List (α × ℕ)) : Prop where
  /-- The marked tag, the number of entries, the entries, and nothing after them. -/
  bytes_eq : bytes
    = UInt8.ofNat (tag + bagMark) :: (wordBytes es.length ++ es.flatMap (entryBytes write))
  /-- The number of entries is a machine word. -/
  length_le : es.length ≤ maxWord
  /-- No count is zero. -/
  count_ne : ∀ e ∈ es, e.2 ≠ 0
  /-- The sum of the counts is a machine word. -/
  sum_le : (es.map Prod.snd).sum ≤ maxWord
  /-- No two elements have one key. -/
  nodup : (es.map fun e => key e.1).Nodup

/-- What is read one after the other is determined by its bytes, if there is as much of it. -/
theorem eq_of_flatMap_eq {β : Type} {r : ByteReader β} {write : β → List UInt8} {bs bs' : List β}
    (hr : ∀ b ∈ bs, Reads r (write b) b) (hr' : ∀ b ∈ bs', Reads r (write b) b)
    (hlength : bs.length = bs'.length) (h : bs.flatMap write = bs'.flatMap write) : bs = bs' := by
  induction bs generalizing bs' with
  | nil => exact (List.length_eq_zero_iff.1 hlength.symm).symm
  | cons b bs ih =>
    cases bs' with
    | nil => cases hlength
    | cons b' bs' =>
      have hfirst := hr b List.mem_cons_self (bs.flatMap write)
      have hfirst' := hr' b' List.mem_cons_self (bs'.flatMap write)
      rw [List.flatMap_cons, List.flatMap_cons] at h
      rw [h] at hfirst
      obtain ⟨rfl, hrest⟩ := Prod.mk.inj (Except.ok.inj (hfirst.symm.trans hfirst'))
      rw [ih (fun b hb => hr b (List.mem_cons_of_mem _ hb))
        (fun b hb => hr' b (List.mem_cons_of_mem _ hb)) (Nat.succ.inj hlength) hrest]

theorem eq_of_wordBytes_append_eq {n n' : ℕ} {l l' : List UInt8} (hn : n ≤ maxWord)
    (hn' : n' ≤ maxWord) (h : wordBytes n ++ l = wordBytes n' ++ l') : n = n' ∧ l = l' := by
  have hfirst := reads_number (lt_of_le_maxWord hn) l
  have hfirst' := reads_number (lt_of_le_maxWord hn') l'
  rw [wordBytes, wordBytes] at h
  rw [h] at hfirst
  exact Prod.mk.inj (Except.ok.inj (hfirst.symm.trans hfirst'))

/-- Some bytes list one set at most. -/
theorem ListsSet.unique {tag : ℕ} {value : ByteReader α} {write : α → List UInt8} {key : α → κ}
    {bytes : List UInt8} {as as' : List α} (hread : ∀ a, Reads value (write a) a)
    (h : ListsSet tag write key bytes as) (h' : ListsSet tag write key bytes as') : as' = as := by
  have hbytes := h'.bytes_eq.symm.trans h.bytes_eq
  obtain ⟨hlength, helements⟩ :=
    eq_of_wordBytes_append_eq h'.length_le h.length_le (List.cons.inj hbytes).2
  exact eq_of_flatMap_eq (fun a _ => hread a) (fun a _ => hread a) hlength helements

/-- Some bytes list one bag at most. -/
theorem ListsBag.unique {tag : ℕ} {value : ByteReader α} {write : α → List UInt8} {key : α → κ}
    {bytes : List UInt8} {es es' : List (α × ℕ)} (hread : ∀ a, Reads value (write a) a)
    (h : ListsBag tag write key bytes es) (h' : ListsBag tag write key bytes es') : es' = es := by
  have hbytes := h'.bytes_eq.symm.trans h.bytes_eq
  obtain ⟨hlength, hentries⟩ :=
    eq_of_wordBytes_append_eq h'.length_le h.length_le (List.cons.inj hbytes).2
  -- each count is a machine word, as their sum is, so entries are read back
  have hentry : ∀ {es}, ListsBag tag write key bytes es → ∀ e ∈ es,
      Reads (do let a ← value; let n ← number 8; return (a, n)) (entryBytes write e) e := by
    intro es h e he
    have hle : e.2 ≤ maxWord := (List.le_sum_of_mem (List.mem_map_of_mem he)).trans h.sum_le
    exact (hread e.1).bind ((reads_number (lt_of_le_maxWord hle)).bind_nil (reads_pure e))
  exact eq_of_flatMap_eq (hentry h') (hentry h) hlength hentries

/-- A set has the elements that are listed; `write` is how its encoding writes them. -/
structure HoldsSet [Collection C α] [Encoded C] (tag : ℕ) (write : α → List UInt8) (key : α → κ)
    (c : C) (as : List α) : Prop where
  /-- The elements are those listed, in some order. -/
  toList_perm : (toList c).Perm as
  /-- There are as many. -/
  size_eq : size c = as.length
  /-- What is contained has the key of one that is listed. -/
  contains_iff : ∀ a, contains c a = true ↔ key a ∈ as.map key
  /-- The encoding has the same header, and the same elements in some order. -/
  toBytes_eq : ∃ as' : List α, as'.Perm as ∧
    toBytes c = UInt8.ofNat tag :: (wordBytes as.length ++ as'.flatMap write)

/-- A bag has the entries that are listed; `write` is how its encoding writes their elements. -/
structure HoldsBag [Bag C α] [Encoded C] (tag : ℕ) (write : α → List UInt8) (key : α → κ) (c : C)
    (es : List (α × ℕ)) : Prop where
  /-- The entries are those listed, in some order. -/
  distinct_perm : (distinct c).Perm es
  /-- There are as many occurrences as they say. -/
  size_eq : size c = (es.map Prod.snd).sum
  /-- An element that is listed occurs as often as listed. -/
  occurrencesOf_eq : ∀ e ∈ es, ∀ a, key a = key e.1 → occurrencesOf c a = e.2
  /-- No other element occurs. -/
  occurrencesOf_eq_zero : ∀ a, key a ∉ es.map (fun e => key e.1) → occurrencesOf c a = 0
  /-- The encoding has the same header, and the same entries in some order. -/
  toBytes_eq : ∃ es' : List (α × ℕ), es'.Perm es ∧ toBytes c
    = UInt8.ofNat (tag + bagMark) :: (wordBytes es.length ++ es'.flatMap (entryBytes write))

/-- The answer of a decoder is right: it is a container if the input lists one, which then holds
what is listed, and otherwise it is that the input is malformed. -/
structure Decides {L : Type} (answer : Except Failure (Traced C)) (lists : L → Prop)
    (holds : C → L → Prop) : Prop where
  /-- There is a container just if there is a listing. -/
  isOk_iff : (∃ d, answer = .ok d) ↔ ∃ l, lists l
  /-- The container holds what is listed. -/
  holds_of_ok : ∀ d l, answer = .ok d → lists l → holds d.val l
  /-- Nothing fails but that the input is malformed. -/
  malformed_of_error : ∀ f, answer = .error f → ∃ why, f = .error (.malformedInput why)

/-- A decoder that takes every listing, takes nothing else, and rejects what it does not take. -/
theorem Decides.of_cases {L : Type} {answer : Except Failure (Traced C)} {lists : L → Prop}
    {holds : C → L → Prop} (hunique : ∀ l l', lists l → lists l' → l' = l)
    (hcases : (∃ d l, answer = .ok d ∧ lists l ∧ holds d.val l) ∨
      ∃ why, answer = .error (.error (.malformedInput why)))
    (hlists : ∀ l, lists l → ∃ d, answer = .ok d) : Decides answer lists holds := by
  rcases hcases with ⟨d, l, hok, hl, hholds⟩ | ⟨why, herror⟩
  · refine ⟨⟨fun _ => ⟨l, hl⟩, fun _ => ⟨d, hok⟩⟩, fun d' l' hd' hl' => ?_, fun f hf => ?_⟩
    · rw [hok] at hd'
      cases hd'
      rwa [hunique l l' hl hl']
    · rw [hok] at hf
      cases hf
  · refine ⟨⟨?_, fun ⟨l, hl⟩ => hlists l hl⟩, fun d l hd _ => ?_, fun f hf => ⟨why, ?_⟩⟩
    · rintro ⟨d, hd⟩
      rw [herror] at hd
      cases hd
    · rw [herror] at hd
      cases hd
    · rw [herror] at hf
      cases hf
      rfl

/-! ### Reading on into a container -/

/-- The bytes of `n` items that `d` has more than `before`, where `view` are the items of a
container. -/
def Gained {β : Type} (sound : C → Prop) (view : C → List β) (write : β → List UInt8) (n : ℕ)
    (before : List β) (bytes : List UInt8) (d : C) : Prop :=
  ∃ more : List β, more.length = n ∧ bytes = more.flatMap write ∧ sound d ∧
    (view d).Perm (more ++ before)

section Gained

variable {β : Type} {sound : C → Prop} {view : C → List β} {write : β → List UInt8} {n : ℕ}
  {before : List β} {bytes : List UInt8} {d : C}

theorem gained_zero (hd : sound d) : Gained sound view write 0 (view d) [] d :=
  ⟨[], rfl, rfl, hd, List.Perm.refl _⟩

theorem Gained.congr (h : Gained sound view write n before bytes d) {before' : List β}
    (hperm : before.Perm before') : Gained sound view write n before' bytes d := by
  obtain ⟨more, hlength, hbytes, hd, hview⟩ := h
  exact ⟨more, hlength, hbytes, hd, hview.trans (hperm.append_left more)⟩

theorem Gained.cons {b : β} (h : Gained sound view write n (b :: before) bytes d) :
    Gained sound view write (n + 1) before (write b ++ bytes) d := by
  obtain ⟨more, rfl, rfl, hd, hview⟩ := h
  exact ⟨b :: more, rfl, rfl, hd, hview.trans List.perm_middle⟩

end Gained

/-! ### Sets -/

/-- What a decoder needs of a type of sets to tell what it has to reject. -/
structure StrictSetLaws (C : Type) {α κ : Type} [Collection C α] (sound : C → Prop) (key : α → κ) :
    Prop extends SetLaws C sound key where
  /-- To add what is there is answered with `false`. -/
  add_of_mem : ∀ {c a}, sound c → key a ∈ (toList c).map key →
    ∃ c', (Collection.add c a).val = (.ok false, c')
  /-- To add what is absent makes it one more element. -/
  toList_add : ∀ {c a}, sound c → key a ∉ (toList c).map key →
    (toList (Collection.add c a).val.2).Perm (a :: toList c)

namespace StrictSetLaws

variable [Collection C α] {sound : C → Prop} {key : α → κ} {value : ByteReader α}
  {write : α → List UInt8}

/-- The elements read are those that the set has more than before, so they do not repeat. -/
theorem recognizes_readElements (laws : StrictSetLaws C sound key)
    (hvalue : Recognizes value fun bytes a => bytes = write a) (n : ℕ) {c : C} (hc : sound c) :
    Recognizes (readElements value n c) fun bytes d =>
      Gained sound toList write n (toList c) bytes d.val := by
  induction n generalizing c with
  | zero =>
    refine (recognizes_pure (pure c)).mono ?_
    rintro bytes d ⟨rfl, rfl⟩
    exact gained_zero hc
  | succ n ih =>
    refine (hvalue.bind (H := fun a bytes (d : Traced C) =>
      Gained sound toList write n (a :: toList c) bytes d.val) fun a _ _ => ?_).mono ?_
    · apply recognizes_after (G := Gained sound toList write n (a :: toList c))
      by_cases hmem : key a ∈ (toList c).map key
      · obtain ⟨c', hadd⟩ := laws.add_of_mem hc hmem
        rw [hadd]
        exact recognizes_fail .duplicate
      · obtain ⟨c', hadd, hc', -, -⟩ := laws.add hc hmem
        have hlist := laws.toList_add hc hmem
        rw [hadd] at hlist ⊢
        exact (ih hc').mono fun h => h.congr hlist
    · rintro bytes d ⟨a, l, m, rfl, rfl, hgained⟩
      exact hgained.cons

/-- What a decoder of sets answers with: a set that is listed, or that the input is malformed, or
that there was no room for as many elements as the input has bytes for. -/
theorem decodeSet_cases (laws : StrictSetLaws C sound key)
    (hvalue : Recognizes value fun bytes a => bytes = write a) (tag width : ℕ)
    {allocate : ℕ → Except Failure C}
    (halloc : ∀ {n e}, allocate n = .ok e → sound e ∧ toList e = []) (bytes : List UInt8) :
    (∃ d as, (decodeSet tag width value allocate).parse bytes = .ok d ∧
        ListsSet tag write key bytes as ∧ sound d.val ∧ (toList d.val).Perm as) ∨
      (∃ why, (decodeSet tag width value allocate).parse bytes
        = .error (.error (.malformedInput why))) ∨
      ∃ n f, n * width ≤ bytes.length ∧ allocate n = .error f ∧
        (decodeSet tag width value allocate).parse bytes = .error f := by
  rcases header_cases tag width
      (fun n => MonadExcept.ofExcept (allocate n) >>= readElements value n) bytes with
    ⟨why, herror⟩ | ⟨n, rest, rfl, hle, hroom, hrun⟩
  · exact Or.inr (Or.inl ⟨why, parse_eq_error herror⟩)
  rcases hallocate : allocate n with f | e
  · rw [hallocate] at hrun
    refine Or.inr (Or.inr ⟨n, f, ?_, hallocate, parse_eq_error hrun⟩)
    rw [List.length_cons, List.length_append]
    omega
  obtain ⟨he, hempty⟩ := halloc hallocate
  rw [hallocate] at hrun
  have hparse : (decodeSet tag width value allocate).parse
      (UInt8.ofNat tag :: (wordBytes n ++ rest)) = (readElements value n e).parse rest :=
    parse_congr hrun
  rw [hparse]
  rcases parse_cases (laws.recognizes_readElements hvalue n he) rest with
    ⟨d, ⟨as, rfl, rfl, hd, hperm⟩, hok⟩ | hmalformed
  · rw [hempty, List.append_nil] at hperm
    have hnodup : (as.map key).Nodup := (hperm.map key).nodup_iff.1 (laws.nodup hd)
    exact Or.inl ⟨d, as, hok, ⟨rfl, hle, hnodup⟩, hd, hperm⟩
  · exact Or.inr (Or.inl hmalformed)

/-- A listing is accepted, if there is room for its elements. -/
theorem exists_parse_eq_ok (laws : StrictSetLaws C sound key)
    (hread : ∀ a, Reads value (write a) a) {tag width : ℕ}
    (hwidth : ∀ a, (write a).length = width) {allocate : ℕ → Except Failure C}
    {bytes : List UInt8} {as : List α} (h : ListsSet tag write key bytes as) {e : C}
    (halloc : allocate as.length = .ok e) (he : sound e) (hempty : toList e = []) :
    ∃ d, (decodeSet tag width value allocate).parse bytes = .ok d := by
  obtain ⟨d, hd, -⟩ := laws.exists_reads_readElements (fun a => ⟨a, rfl, hread a⟩) as he h.nodup
    fun a _ => by rw [hempty]; exact List.not_mem_nil
  have helements := hd []
  rw [List.append_nil] at helements
  have hroom : as.length * width ≤ (as.flatMap write).length :=
    (length_flatMap_of_forall hwidth as).ge
  refine ⟨d, parse_eq_ok ?_⟩
  rw [h.bytes_eq, decodeSet, ← List.singleton_append, run_bind_of_eq_ok (reads_tag tag _),
    run_bind_of_eq_ok (run_entryCount h.length_le hroom), halloc]
  exact helements

/-- A decoder of sets accepts the listings of sets, and nothing else, if room for as many elements
as the input has bytes for is granted. -/
theorem decides [Encoded C] (laws : StrictSetLaws C sound key)
    (hvalue : Recognizes value fun bytes a => bytes = write a)
    (hread : ∀ a, Reads value (write a) a) {tag width : ℕ}
    (hwidth : ∀ a, (write a).length = width) {allocate : ℕ → Except Failure C}
    (halloc : ∀ {n e}, allocate n = .ok e → sound e ∧ toList e = []) {bytes : List UInt8}
    (hroom : ∀ n, n * width ≤ bytes.length → ∃ e, allocate n = .ok e) {write' : α → List UInt8}
    (hencode : ∀ c : C, toBytes c = encodeSet tag write' c) :
    Decides ((decodeSet tag width value allocate).parse bytes) (ListsSet tag write key bytes)
      (HoldsSet tag write' key) := by
  apply Decides.of_cases fun as as' => ListsSet.unique hread
  · rcases laws.decodeSet_cases hvalue tag width halloc bytes with
      ⟨d, as, hok, hlists, hd, hperm⟩ | hmalformed | ⟨n, f, hle, hrefused, -⟩
    · have hsize : size d.val = as.length := by
        rw [← laws.length_toList hd, hperm.length_eq]
      refine Or.inl ⟨d, as, hok, hlists, hperm, hsize, fun a => ?_, toList d.val, hperm, ?_⟩
      · exact (laws.contains_iff hd).trans (hperm.map key).mem_iff
      · rw [hencode, encodeSet, hsize]
    · exact Or.inr hmalformed
    · obtain ⟨e, he⟩ := hroom n hle
      rw [he] at hrefused
      cases hrefused
  · intro as hlists
    have hle : as.length * width ≤ bytes.length := by
      rw [hlists.bytes_eq, List.length_cons, List.length_append, length_flatMap_of_forall hwidth]
      omega
    obtain ⟨e, he⟩ := hroom as.length hle
    obtain ⟨hsound, hempty⟩ := halloc he
    exact laws.exists_parse_eq_ok hread hwidth hlists he hsound hempty

end StrictSetLaws

/-! ### Bags -/

/-- What a decoder needs of a type of bags to tell what it has to reject. -/
structure StrictBagLaws (C : Type) {α κ : Type} [Bag C α] [DecidableEq κ] (sound : C → Prop)
    (key : α → κ) : Prop extends BagLaws C sound key where
  /-- To set the count of what occurs is answered with a count that is not zero. -/
  setOccurrences_of_ne : ∀ {c a n}, sound c → occurrencesOf c a ≠ 0 → size c + n ≤ maxWord →
    ∃ m c', m ≠ 0 ∧ (Bag.setOccurrences c a n).val = (.ok m, c')
  /-- To set the count of what does not occur makes it one more entry. -/
  distinct_setOccurrences : ∀ {c a n}, sound c → occurrencesOf c a = 0 → n ≠ 0 →
    size c + n ≤ maxWord →
      (distinct (Bag.setOccurrences c a n).val.2).Perm ((a, n) :: distinct c)

namespace StrictBagLaws

variable [Bag C α] [DecidableEq κ] {sound : C → Prop} {key : α → κ} {value : ByteReader α}
  {write : α → List UInt8}

/-- The entries read are those that the bag has more than before.  The total that the reader keeps
is the size of the bag, so setting a count does not overflow. -/
theorem recognizes_readEntries (laws : StrictBagLaws C sound key)
    (hvalue : Recognizes value fun bytes a => bytes = write a) (n : ℕ) {c : C} (hc : sound c) :
    Recognizes (readEntries value n (size c) c) fun bytes d =>
      Gained sound distinct (entryBytes write) n (distinct c) bytes d.val := by
  induction n generalizing c with
  | zero =>
    refine (recognizes_pure (pure c)).mono ?_
    rintro bytes d ⟨rfl, rfl⟩
    exact gained_zero hc
  | succ n ih =>
    refine (hvalue.bind fun a _ _ => recognizes_count.bind (H := fun m bytes (d : Traced C) =>
      Gained sound distinct (entryBytes write) n ((a, m) :: distinct c) bytes d.val) ?_).mono ?_
    · rintro m _ ⟨-, hm, -⟩
      by_cases hle : size c + m ≤ maxWord
      · have hcount : addCount? (size c) m = some (size c + m) := if_pos hle
        simp only [hcount]
        apply recognizes_after
          (G := Gained sound distinct (entryBytes write) n ((a, m) :: distinct c))
        by_cases hzero : occurrencesOf c a = 0
        · obtain ⟨c', hset, hc', hsize, -⟩ := laws.setOccurrences hc hzero hm hle
          have hlist := laws.distinct_setOccurrences hc hzero hm hle
          rw [hset] at hlist ⊢
          simp only [← hsize]
          exact (ih hc').mono fun h => h.congr hlist
        · obtain ⟨m', c', hm', hset⟩ := laws.setOccurrences_of_ne hc hzero hle
          -- the count before is not the zero that the reader looks for
          obtain ⟨m'', rfl⟩ := Nat.exists_eq_succ_of_ne_zero hm'
          rw [hset]
          exact recognizes_fail .duplicate
      · have hcount : addCount? (size c) m = none := if_neg hle
        simp only [hcount]
        exact recognizes_fail .countOverflow
    · rintro bytes d ⟨a, _, _, rfl, rfl, m, _, rest, rfl, ⟨rfl, -, -⟩, hgained⟩
      rw [← List.append_assoc]
      exact hgained.cons

/-- What a decoder of bags answers with: a bag that is listed, or that the input is malformed, or
that there was no room for as many entries as the input has bytes for. -/
theorem decodeBag_cases (laws : StrictBagLaws C sound key)
    (hvalue : Recognizes value fun bytes a => bytes = write a) (tag width : ℕ)
    {allocate : ℕ → Except Failure C}
    (halloc : ∀ {n e}, allocate n = .ok e → sound e ∧ distinct e = []) (bytes : List UInt8) :
    (∃ d es, (decodeBag tag width value allocate).parse bytes = .ok d ∧
        ListsBag tag write key bytes es ∧ sound d.val ∧ (distinct d.val).Perm es) ∨
      (∃ why, (decodeBag tag width value allocate).parse bytes
        = .error (.error (.malformedInput why))) ∨
      ∃ n f, n * width ≤ bytes.length ∧ allocate n = .error f ∧
        (decodeBag tag width value allocate).parse bytes = .error f := by
  rcases header_cases (tag + bagMark) (width + 8)
      (fun n => MonadExcept.ofExcept (allocate n) >>= readEntries value n 0) bytes with
    ⟨why, herror⟩ | ⟨n, rest, rfl, hle, hroom, hrun⟩
  · exact Or.inr (Or.inl ⟨why, parse_eq_error herror⟩)
  rcases hallocate : allocate n with f | e
  · rw [hallocate] at hrun
    refine Or.inr (Or.inr ⟨n, f, ?_, hallocate, parse_eq_error hrun⟩)
    rw [Nat.mul_add] at hroom
    rw [List.length_cons, List.length_append]
    omega
  obtain ⟨he, hempty⟩ := halloc hallocate
  have hzero := laws.size_eq_zero he hempty
  rw [hallocate] at hrun
  have hparse : (decodeBag tag width value allocate).parse
      (UInt8.ofNat (tag + bagMark) :: (wordBytes n ++ rest)) = (readEntries value n 0 e).parse rest :=
    parse_congr hrun
  have hentries := laws.recognizes_readEntries hvalue n he
  rw [hzero] at hentries
  rw [hparse]
  rcases parse_cases hentries rest with ⟨d, ⟨es, rfl, rfl, hd, hperm⟩, hok⟩ | hmalformed
  · rw [hempty, List.append_nil] at hperm
    refine Or.inl ⟨d, es, hok, ⟨rfl, hle, fun e he => ?_, ?_, ?_⟩, hd, hperm⟩
    · exact (laws.occurrencesOf_eq hd (hperm.mem_iff.2 he)).1
    · rw [← (hperm.map Prod.snd).sum_eq, ← laws.size_eq hd]
      exact laws.size_le hd
    · exact (hperm.map fun e => key e.1).nodup_iff.1 (laws.nodup hd)
  · exact Or.inr (Or.inl hmalformed)

/-- A listing is accepted, if there is room for its entries. -/
theorem exists_parse_eq_ok (laws : StrictBagLaws C sound key)
    (hread : ∀ a, Reads value (write a) a) {tag width : ℕ}
    (hwidth : ∀ a, (write a).length = width) {allocate : ℕ → Except Failure C}
    {bytes : List UInt8} {es : List (α × ℕ)} (h : ListsBag tag write key bytes es) {e : C}
    (halloc : allocate es.length = .ok e) (he : sound e) (hempty : distinct e = []) :
    ∃ d, (decodeBag tag width value allocate).parse bytes = .ok d := by
  have hzero := laws.size_eq_zero he hempty
  have hnone : ∀ a, occurrencesOf e a = 0 := fun a =>
    laws.occurrencesOf_eq_zero he (by rw [hempty]; exact List.not_mem_nil)
  obtain ⟨d, hd, -⟩ := laws.exists_reads_readEntries (fun a => ⟨a, rfl, hread a⟩) es he h.nodup
    (fun e he => ⟨h.count_ne e he, hnone e.1⟩) (by rw [hzero, Nat.zero_add]; exact h.sum_le)
  have hentries := hd []
  rw [List.append_nil, hzero] at hentries
  have hroom : es.length * (width + 8) ≤ (es.flatMap (entryBytes write)).length :=
    (length_flatMap_of_forall (length_entryBytes hwidth) es).ge
  refine ⟨d, parse_eq_ok ?_⟩
  rw [h.bytes_eq, decodeBag, ← List.singleton_append, run_bind_of_eq_ok (reads_tag _ _),
    run_bind_of_eq_ok (run_entryCount h.length_le hroom), halloc]
  exact hentries

/-- A decoder of bags accepts the listings of bags, and nothing else, if room for as many entries as
the input has bytes for is granted. -/
theorem decides [Encoded C] (laws : StrictBagLaws C sound key)
    (hvalue : Recognizes value fun bytes a => bytes = write a)
    (hread : ∀ a, Reads value (write a) a) {tag width : ℕ}
    (hwidth : ∀ a, (write a).length = width) {allocate : ℕ → Except Failure C}
    (halloc : ∀ {n e}, allocate n = .ok e → sound e ∧ distinct e = []) {bytes : List UInt8}
    (hroom : ∀ n, n * width ≤ bytes.length → ∃ e, allocate n = .ok e) {write' : α → List UInt8}
    (hencode : ∀ c : C, toBytes c = encodeBag tag write' c) :
    Decides ((decodeBag tag width value allocate).parse bytes) (ListsBag tag write key bytes)
      (HoldsBag tag write' key) := by
  apply Decides.of_cases fun es es' => ListsBag.unique hread
  · rcases laws.decodeBag_cases hvalue tag width halloc bytes with
      ⟨d, es, hok, hlists, hd, hperm⟩ | hmalformed | ⟨n, f, hle, hrefused, -⟩
    · refine Or.inl ⟨d, es, hok, hlists, hperm, ?_, fun e he a hkey => ?_, fun a ha => ?_,
        distinct d.val, hperm, ?_⟩
      · rw [laws.size_eq hd, (hperm.map Prod.snd).sum_eq]
      · rw [laws.occurrencesOf_congr hd hkey]
        exact (laws.occurrencesOf_eq hd (hperm.mem_iff.2 he)).2
      · exact laws.occurrencesOf_eq_zero hd (mt (hperm.map _).mem_iff.1 ha)
      · rw [hencode, ← hperm.length_eq]
        rfl
    · exact Or.inr hmalformed
    · obtain ⟨e, he⟩ := hroom n hle
      rw [he] at hrefused
      cases hrefused
  · intro es hlists
    have hle : es.length * width ≤ bytes.length := by
      rw [hlists.bytes_eq, List.length_cons, List.length_append,
        length_flatMap_of_forall (length_entryBytes hwidth), Nat.mul_add]
      omega
    obtain ⟨e, he⟩ := hroom es.length hle
    obtain ⟨hsound, hempty⟩ := halloc he
    exact laws.exists_parse_eq_ok hread hwidth hlists he hsound hempty

end StrictBagLaws

/-! ### The containers that there are -/

variable {k : Kind}

/-- The laws of sets hold of fewer sets, if additions lead from one of them to another. -/
theorem SetLaws.restrict [Collection C α] {sound inv : C → Prop} {key : α → κ}
    (laws : SetLaws C sound key) (hinv : ∀ {c}, inv c → sound c)
    (hadd : ∀ {c} a, inv c → inv (Collection.add c a).val.2) : SetLaws C inv key where
  length_toList := fun hc => laws.length_toList (hinv hc)
  nodup := fun hc => laws.nodup (hinv hc)
  contains_iff := fun hc => laws.contains_iff (hinv hc)
  add := by
    intro c a hc habsent
    obtain ⟨c', hval, -, hrest⟩ := laws.add (hinv hc) habsent
    have hc' := hadd a hc
    rw [hval] at hc'
    exact ⟨c', hval, hc', hrest⟩

/-- The laws of bags hold of fewer bags, if setting a count leads from one of them to another. -/
theorem BagLaws.restrict [Bag C α] [DecidableEq κ] {sound inv : C → Prop} {key : α → κ}
    (laws : BagLaws C sound key) (hinv : ∀ {c}, inv c → sound c)
    (hset : ∀ {c} a n, inv c → inv (Bag.setOccurrences c a n).val.2) : BagLaws C inv key where
  nodup := fun hc => laws.nodup (hinv hc)
  occurrencesOf_eq := fun hc => laws.occurrencesOf_eq (hinv hc)
  occurrencesOf_eq_zero := fun hc => laws.occurrencesOf_eq_zero (hinv hc)
  occurrencesOf_congr := fun hc => laws.occurrencesOf_congr (hinv hc)
  size_eq := fun hc => laws.size_eq (hinv hc)
  size_le := fun hc => laws.size_le (hinv hc)
  setOccurrences := by
    intro c a n hc hzero hn hle
    obtain ⟨c', hval, -, hrest⟩ := laws.setOccurrences (hinv hc) hzero hn hle
    have hc' := hset a n hc
    rw [hval] at hc'
    exact ⟨c', hval, hc', hrest⟩

theorem strictSetLaws_scalarSet (k : Kind) :
    StrictSetLaws (ScalarSet k) ScalarSet.Reachable Scalar.key where
  toSetLaws := (setLaws_scalarSet k).restrict ScalarSet.Reachable.sound ScalarSet.Reachable.add
  add_of_mem := by
    intro s v hs hmem
    refine ⟨s, ?_⟩
    show (Except.ok (s.add v).val.1, (s.add v).val.2) = _
    rw [ScalarSet.add_of_mem hs.sound (s.mem_map_key_toList_iff.1 hmem)]
    rfl
  toList_add := by
    intro s v hs habsent
    obtain ⟨s', hadd, -, hcontents⟩ :=
      ScalarSet.exists_add_of_notMem hs.sound (mt s.mem_map_key_toList_iff.2 habsent)
    show (s.add v).val.2.toList.Perm (v :: s.toList)
    rw [hadd, ← Multiset.coe_eq_coe, ScalarSet.coe_toList, hcontents, Multiset.map_cons,
      ← Multiset.cons_coe, ScalarSet.coe_toList]

theorem strictSetLaws_boolSet : StrictSetLaws BoolSet (fun _ => True) (id : Bool → Bool) where
  toSetLaws := setLaws_boolSet
  add_of_mem := by
    intro s v _ hmem
    refine ⟨s, ?_⟩
    revert hmem
    cases s <;> cases v <;> decide
  toList_add := by
    intro s v _ habsent
    revert habsent
    cases s <;> cases v <;> decide

theorem strictBagLaws_scalarBag (k : Kind) :
    StrictBagLaws (ScalarBag k) ScalarBag.Reachable Scalar.key where
  toBagLaws := (bagLaws_scalarBag k).restrict ScalarBag.Reachable.sound
    ScalarBag.Reachable.setOccurrences
  setOccurrences_of_ne := by
    intro b v n hb hne hle
    obtain ⟨w, m, R, hs⟩ := hb.sound.exists_splits v
    have hm : b.occurrencesOf v = m := hs.occurrencesOf_eq hb.sound
    have hfits := hs.countSum_add_le hb.sound hle
    obtain ⟨b', w', hval, -⟩ := hs.exists_setOccurrences hb.sound hfits
    refine ⟨m, b', ?_, hval⟩
    rw [← hm]
    exact hne
  distinct_setOccurrences := by
    intro b v n hb hzero hn hle
    obtain ⟨w, m, R, hs⟩ := hb.sound.exists_splits v
    have hm : m = 0 := (hs.occurrencesOf_eq hb.sound).symm.trans hzero
    subst hm
    have hfits := hs.countSum_add_le hb.sound hle
    obtain ⟨b', w', hval, -, hs', hw'⟩ := hs.exists_setOccurrences hb.sound hfits
    show (b.setOccurrences v n).val.2.distinct.Perm ((v, n) :: b.distinct)
    -- the value stands for itself, as it did not occur before
    rw [hval, ← Multiset.coe_eq_coe, ← Multiset.cons_coe, ScalarBag.coe_distinct,
      ScalarBag.coe_distinct, hs'.contents_eq, hs.contents_eq, hw' hn, hs.eq_of_zero rfl,
      ScalarBag.single_of_ne_zero v hn, ScalarBag.single_zero, Multiset.zero_add,
      Multiset.singleton_add]

theorem strictBagLaws_boolBag :
    StrictBagLaws BoolBag (fun b => b.size ≤ maxWord) (id : Bool → Bool) where
  toBagLaws := bagLaws_boolBag
  setOccurrences_of_ne := by
    intro b v n hb hne hle
    exact ⟨b.occurrencesOf v, b.withCount v n, hne, BoolBag.setOccurrences_of_le v hle⟩
  distinct_setOccurrences := by
    intro b v n hb hzero hn hle
    show (b.setOccurrences v n).2.distinct.Perm ((v, n) :: b.distinct)
    rw [BoolBag.setOccurrences_of_le v hle]
    have hzero' : b.occurrencesOf v = 0 := hzero
    cases v with
    | false =>
      have hfalses : b.falses = 0 := hzero'
      simp [BoolBag.withCount, BoolBag.distinct, hfalses, hn]
    | true =>
      have htrues : b.trues = 0 := hzero'
      by_cases hfalses : b.falses = 0
      · simp [BoolBag.withCount, BoolBag.distinct, htrues, hfalses, hn]
      · simpa [BoolBag.withCount, BoolBag.distinct, htrues, hfalses, hn]
          using List.Perm.swap (true, n) (false, b.falses) []

/-! ### Decoders -/

theorem ScalarSet.reachable_of_tryWithCapacity {n : ℕ} {s : ScalarSet k}
    (h : tryWithCapacity n = .ok s) : s.Reachable ∧ s.toList = [] :=
  ⟨.withCapacity h, toList_of_tryWithCapacity h⟩

theorem ScalarBag.reachable_of_tryWithCapacity {n : ℕ} {b : ScalarBag k}
    (h : tryWithCapacity n = .ok b) : b.Reachable ∧ b.distinct = [] :=
  ⟨.withCapacity h, distinct_of_tryWithCapacity h⟩

/-- Decoded sets are reachable: they are filled by additions. -/
theorem ScalarSet.reachable_of_ofBytes {bytes : List UInt8} {d : Traced (ScalarSet k)}
    (h : ofBytes bytes = .ok d) : d.val.Reachable := by
  rcases (strictSetLaws_scalarSet k).decodeSet_cases (recognizes_scalar k) k.tag k.width
      reachable_of_tryWithCapacity bytes with
    ⟨d', as, hok, -, hd', -⟩ | ⟨why, herror⟩ | ⟨n, f, -, -, herror⟩
  · cases hok.symm.trans h
    exact hd'
  · cases herror.symm.trans h
  · cases herror.symm.trans h

/-- Decoded bags are reachable. -/
theorem ScalarBag.reachable_of_ofBytes {bytes : List UInt8} {d : Traced (ScalarBag k)}
    (h : ofBytes bytes = .ok d) : d.val.Reachable := by
  rcases (strictBagLaws_scalarBag k).decodeBag_cases (recognizes_scalar k) k.tag k.width
      reachable_of_tryWithCapacity bytes with
    ⟨d', es, hok, -, hd', -⟩ | ⟨why, herror⟩ | ⟨n, f, -, -, herror⟩
  · cases hok.symm.trans h
    exact hd'
  · cases herror.symm.trans h
  · cases herror.symm.trans h

/-- An input does not have bytes for more values than there is room for. -/
theorem lt_roomLimit_of_mul_width_le {n m : ℕ} (h : n * k.width ≤ m) (hm : m < 2 ^ 56) :
    n < Table.roomLimit := by
  have hlimit : Table.roomLimit = 2 ^ 58 := rfl
  have hle : n ≤ n * k.width := Nat.le_mul_of_pos_right n k.width_pos
  omega

/-- **Each decoder accepts the listings of its kind of container, and nothing else.**  On a listing
it answers with a container that holds what is listed, and whose encoding has the same header and,
in the order of the slots, the same entries with every NaN spelled in one way.  On any other input
it answers that the input is malformed: no other error, and no abort.  The bound is on inputs that
ask for more room than there is. -/
theorem decides_listings (k : Kind) {bytes : List UInt8} (h : bytes.length < 2 ^ 56) :
    Decides (C := ScalarSet k) (ofBytes bytes)
        (ListsSet k.tag Scalar.rawBytes Scalar.key bytes)
        (HoldsSet k.tag Scalar.toBytes Scalar.key) ∧
      Decides (C := ScalarBag k) (ofBytes bytes)
        (ListsBag k.tag Scalar.rawBytes Scalar.key bytes)
        (HoldsBag k.tag Scalar.toBytes Scalar.key) ∧
      Decides (C := BoolSet) (ofBytes bytes) (ListsSet boolTag boolBytes id bytes)
        (HoldsSet boolTag boolBytes id) ∧
      Decides (C := BoolBag) (ofBytes bytes) (ListsBag boolTag boolBytes id bytes)
        (HoldsBag boolTag boolBytes id) := by
  refine ⟨?_, ?_, ?_, ?_⟩
  · refine (strictSetLaws_scalarSet k).decides (recognizes_scalar k) reads_scalar
      Scalar.length_rawBytes ScalarSet.reachable_of_tryWithCapacity (fun n hn => ?_) fun _ => rfl
    exact ScalarSet.exists_tryWithCapacity_eq (lt_roomLimit_of_mul_width_le hn h)
  · refine (strictBagLaws_scalarBag k).decides (recognizes_scalar k) reads_scalar
      Scalar.length_rawBytes ScalarBag.reachable_of_tryWithCapacity (fun n hn => ?_) fun _ => rfl
    exact ScalarBag.exists_tryWithCapacity_eq (lt_roomLimit_of_mul_width_le hn h)
  · refine strictSetLaws_boolSet.decides recognizes_bool reads_bool (fun _ => rfl) ?_
      (fun _ _ => ⟨_, rfl⟩) fun _ => rfl
    rintro n e ⟨rfl⟩
    exact ⟨trivial, rfl⟩
  · refine strictBagLaws_boolBag.decides recognizes_bool reads_bool (fun _ => rfl) ?_
      (fun _ _ => ⟨_, rfl⟩) fun _ => rfl
    rintro n e ⟨rfl⟩
    exact ⟨Nat.zero_le _, rfl⟩

/-- For example a bag of a NaN with a sign and a payload of its own, twice, and of a zero. -/
theorem decides_listings_nan :
    let nan : Scalar .f32 := ⟨0xffc00001, by decide⟩
    let zero : Scalar .f32 := ⟨0, by decide⟩
    let bytes : List UInt8 := [0x89, 2, 0, 0, 0, 0, 0, 0, 0,
      0x01, 0x00, 0xc0, 0xff, 2, 0, 0, 0, 0, 0, 0, 0, 0, 0, 0, 0, 1, 0, 0, 0, 0, 0, 0, 0]
    bytes.length < 2 ^ 56 ∧ ListsBag Kind.f32.tag Scalar.rawBytes Scalar.key bytes
        [(nan, 2), (zero, 1)] ∧
      ∃ d : Traced (ScalarBag .f32), ofBytes bytes = .ok d ∧
        HoldsBag Kind.f32.tag Scalar.toBytes Scalar.key d.val [(nan, 2), (zero, 1)] := by
  intro nan zero bytes
  have hlength : bytes.length < 2 ^ 56 := by decide
  have hlists : ListsBag Kind.f32.tag Scalar.rawBytes Scalar.key bytes [(nan, 2), (zero, 1)] := by
    refine ⟨by decide, by decide, by decide, by decide, by decide⟩
  have hdecides := (decides_listings .f32 hlength).2.1
  obtain ⟨d, hd⟩ := hdecides.isOk_iff.2 ⟨_, hlists⟩
  exact ⟨hlength, hlists, d, hd, hdecides.holds_of_ok d _ hd hlists⟩

end Slotted

import Slotted.Proofs.Table.Update

/-!
# Freeing the slots of rejected values

Going through a table slot by slot, asking a predicate and freeing as it says, comes to the same as
asking for all values first, in slot order, and freeing the rejected ones after that: a slot that is
freed is not looked at again.  So what the predicate does, and when, is one matter, and what happens
to the table is another.

## Main definitions

* `rejectedM` — the elements of a list that a predicate rejects; the predicate may have effects.
* `Table.free` — frees the slots of a list of entries.

## Main results

* `Table.filterFromM_eq` — a filter is `rejectedM`, followed by `free`.
* `Table.Sound.free` — freeing some of the entries keeps a table sound and takes them away.
-/

namespace Slotted

variable {k : Kind} {P σ α β : Type} {m : Type → Type} [Monad m]

/-! ### Asking a predicate -/

/-- The elements that `keep` rejects; it is asked once for each element, in their order. -/
def rejectedM (keep : α → m Bool) : List α → m (List α)
  | [] => pure []
  | a :: as => do
    if ← keep a then rejectedM keep as
    else return a :: (← rejectedM keep as)

theorem rejectedM_map [LawfulMonad m] (keep : β → m Bool) (f : α → β) (as : List α) :
    rejectedM keep (as.map f) = List.map f <$> rejectedM (fun a => keep (f a)) as := by
  induction as with
  | nil => exact (map_pure (f := m) (List.map f) []).symm
  | cons a as ih =>
    rw [List.map_cons, rejectedM, rejectedM, map_bind]
    refine bind_congr fun b => ?_
    cases b with
    | true => exact ih
    | false =>
      simp only [Bool.false_eq_true, if_false, ih, map_bind, bind_map_left, map_pure, List.map_cons]

theorem run_rejectedM_map (keep : β → StateM σ Bool) (f : α → β) (as : List α) (st : σ) :
    (rejectedM keep (as.map f)).run st =
      (((rejectedM (fun a => keep (f a)) as).run st).1.map f,
        ((rejectedM (fun a => keep (f a)) as).run st).2) := by
  rw [rejectedM_map]
  rfl

theorem sublist_rejectedM (keep : α → StateM σ Bool) (as : List α) (st : σ) :
    ((rejectedM keep as).run st).1.Sublist as := by
  induction as generalizing st with
  | nil => exact List.Sublist.refl []
  | cons a as ih =>
    rw [rejectedM, StateT.run_bind]
    rcases (keep a).run st with ⟨b, st'⟩
    cases b with
    | true => exact (ih st').cons a
    | false => exact (ih st').cons_cons a

namespace Table

/-! ### Freeing slots -/

/-- Frees the slots of a list of entries; `freed` folds their payloads into an account. -/
def free (freed : σ → P → σ) (t : Table k P) (account : σ) (es : List (Entry k P)) :
    Table k P × σ :=
  es.foldl (fun (t, account) e => (t.vacate e.slot, freed account e.payload)) (t, account)

@[simp] theorem free_nil (freed : σ → P → σ) (t : Table k P) (account : σ) :
    free freed t account [] = (t, account) := rfl

@[simp] theorem free_cons (freed : σ → P → σ) (t : Table k P) (account : σ) (e : Entry k P)
    (es : List (Entry k P)) :
    free freed t account (e :: es) = free freed (t.vacate e.slot) (freed account e.payload) es :=
  rfl

theorem entryAt?_eq_some_iff {t : Table k P} {i : ℕ} {e : Entry k P} :
    t.entryAt? i = some e ↔ e.slot = i ∧ t.slots[i]? = some (.live e.value e.payload) := by
  rw [entryAt?, Option.map_eq_some_iff]
  constructor
  · rintro ⟨⟨v, p⟩, hc, rfl⟩
    exact ⟨rfl, entry?_eq_some_iff.1 hc⟩
  · rintro ⟨rfl, hs⟩
    exact ⟨(e.value, e.payload), entry?_eq_some_iff.2 hs, rfl⟩

theorem entryAt?_vacate_ne {t : Table k P} {i j : ℕ} (hij : i ≠ j) :
    (t.vacate i).entryAt? j = t.entryAt? j := by
  rw [entryAt?, entryAt?, entry?, entry?, getElem?_vacate_ne hij]

theorem scan_succ (t : Table k P) (i fuel : ℕ) :
    t.scan i (i + (fuel + 1)) = (t.entryAt? i).toList ++ t.scan (i + 1) (i + 1 + fuel) := by
  rw [scan_eq, scan_eq, Nat.add_sub_cancel_left, Nat.add_sub_cancel_left, List.range'_succ,
    List.filterMap_cons]
  cases t.entryAt? i <;> rfl

theorem scan_of_lt (t : Table k P) {i stop : ℕ} (h : i < stop) :
    t.scan i stop = (t.entryAt? i).toList ++ t.scan (i + 1) stop := by
  obtain ⟨fuel, rfl⟩ := Nat.exists_eq_add_of_lt h
  rw [Nat.add_assoc, scan_succ, Nat.add_right_comm i 1 fuel, Nat.add_assoc]

theorem scan_vacate (t : Table k P) {i start : ℕ} (hi : i < start) (stop : ℕ) :
    (t.vacate i).scan start stop = t.scan start stop := by
  rw [scan_eq, scan_eq]
  refine List.filterMap_congr fun j hj => entryAt?_vacate_ne ?_
  have hle := (List.mem_range'_1.1 hj).1
  omega

/-- A filter comes to the same as asking for all values first. -/
theorem filterFromM_eq [LawfulMonad m] (freed : σ → P → σ) (keep : Scalar k → P → m Bool)
    (fuel i : ℕ) (t : Table k P) (account : σ) :
    filterFromM freed keep fuel i t account
      = free freed t account <$>
          rejectedM (fun e => keep e.value e.payload) (t.scan i (i + fuel)) := by
  induction fuel generalizing i t account with
  | zero =>
    rw [scan_eq, Nat.add_zero, Nat.sub_self]
    exact (map_pure (f := m) (free freed t account) []).symm
  | succ fuel ih =>
    rw [scan_succ, filterFromM]
    rcases he : t.entry? i with _ | ⟨v, p⟩
    · have hat : t.entryAt? i = none := by rw [entryAt?, he]; rfl
      rw [hat]
      exact ih (i + 1) t account
    · have hat : t.entryAt? i = some ⟨i, v, p⟩ := by rw [entryAt?, he]; rfl
      rw [hat]
      simp only [Option.toList_some, List.singleton_append, rejectedM, map_bind]
      refine bind_congr fun b => ?_
      cases b with
      | true => exact ih (i + 1) t account
      | false =>
        -- the slot just freed lies behind the rest of the way
        have hrest := ih (i + 1) (t.vacate i) (freed account p)
        rw [scan_vacate t (Nat.lt_succ_self i)] at hrest
        simp only [Bool.false_eq_true, if_false, map_bind, map_pure, free_cons]
        rw [hrest, map_eq_pure_bind]

theorem filterM_eq [LawfulMonad m] (t : Table k P) (freed : σ → P → σ)
    (keep : Scalar k → P → m Bool) (account : σ) :
    t.filterM freed keep account
      = free freed t account <$> rejectedM (fun e => keep e.value e.payload) t.entries := by
  rw [filterM, filterFromM_eq, Nat.zero_add]
  rfl

/-! ### Freeing some of the entries -/

theorem getElem?_of_mem_scan {t : Table k P} {start stop : ℕ} {e : Entry k P}
    (h : e ∈ t.scan start stop) : t.slots[e.slot]? = some (.live e.value e.payload) := by
  rw [scan_eq, List.mem_filterMap] at h
  obtain ⟨i, -, hi⟩ := h
  obtain ⟨rfl, hs⟩ := entryAt?_eq_some_iff.1 hi
  exact hs

/-- The entries of a range have different slots. -/
theorem pairwise_slot_scan (t : Table k P) (start stop : ℕ) :
    (t.scan start stop).Pairwise fun e e' => e.slot ≠ e'.slot := by
  rw [scan_eq, List.pairwise_filterMap]
  refine (List.nodup_range' 1).imp fun hne e he e' he' => ?_
  rw [(entryAt?_eq_some_iff.1 he).1, (entryAt?_eq_some_iff.1 he').1]
  exact hne

/-- Freeing entries of different slots keeps a table sound and takes what they hold away from the
contents. -/
theorem Sound.free {t : Table k P} (ht : t.Sound) (freed : σ → P → σ) (account : σ)
    {es : List (Entry k P)} (hslots : es.Pairwise fun e e' => e.slot ≠ e'.slot)
    (hlive : ∀ e ∈ es, t.slots[e.slot]? = some (.live e.value e.payload)) :
    (Table.free freed t account es).1.Sound ∧
      t.contents = (es.map fun e => (e.value, e.payload) : List _)
        + (Table.free freed t account es).1.contents ∧
      (Table.free freed t account es).2 = (es.map (·.payload)).foldl freed account := by
  induction es generalizing t account with
  | nil => exact ⟨ht, (Multiset.zero_add _).symm, rfl⟩
  | cons e es ih =>
    obtain ⟨hfirst, hrest⟩ := List.pairwise_cons.1 hslots
    have he := hlive e List.mem_cons_self
    -- the slots of the other entries are as they were
    obtain ⟨hsound, hcontents, haccount⟩ := ih (ht.vacate he) (freed account e.payload) hrest
      fun e' he' => by
        rw [getElem?_vacate_ne (hfirst e' he')]
        exact hlive e' (List.mem_cons_of_mem e he')
    rw [free_cons]
    refine ⟨hsound, ?_, haccount⟩
    rw [contents_vacate he, hcontents, List.map_cons, ← Multiset.cons_coe, Multiset.cons_add]

end Table

end Slotted

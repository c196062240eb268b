import Mathlib.Order.Defs.Unbundled
import Mathlib.Data.List.Basic

/-!
# Maps kept in key order

A `SortedMap` lists its entries in the order of a comparison on the keys, as an ordered map is
iterated; its first entry is the one `begin?` names. Every key cuts the entries in two
(`entries_split`): what comes before it and what comes after it, with at most one entry of its own
between them, which is all that `set` and `erase` touch. Two maps with the same lookups are equal
(`ext_find?`), so the comparison also gives a canonical form to a map nothing iterates.
-/

/-- A finite map whose entries are in the order `lt` of their keys. -/
structure SortedMap (κ ν : Type*) (lt : κ → κ → Prop) where
  entries : List (κ × ν)
  sorted : entries.Pairwise fun a b => lt a.1 b.1

namespace SortedMap

variable {κ ν : Type*} {lt : κ → κ → Prop}

@[ext]
theorem ext {m m' : SortedMap κ ν lt} (h : m.entries = m'.entries) : m = m' := by
  cases m; cases m'; cases h; rfl

instance [DecidableEq κ] [DecidableEq ν] : DecidableEq (SortedMap κ ν lt) := fun _ _ =>
  decidable_of_iff _ ⟨ext, fun h => h ▸ rfl⟩

def empty : SortedMap κ ν lt := ⟨[], .nil⟩

def isEmpty (m : SortedMap κ ν lt) : Bool := m.entries.isEmpty

def size (m : SortedMap κ ν lt) : ℕ := m.entries.length

/-- The first entry in key order. -/
def begin? (m : SortedMap κ ν lt) : Option (κ × ν) := m.entries.head?

theorem pairwise_filter (m : SortedMap κ ν lt) (p : κ × ν → Bool) :
    (m.entries.filter p).Pairwise fun a b => lt a.1 b.1 :=
  m.sorted.sublist List.filter_sublist

theorem entries_of_begin? {m : SortedMap κ ν lt} {k : κ} {v : ν} (h : m.begin? = some (k, v)) :
    ∃ l, m.entries = (k, v) :: l := by
  unfold begin? at h
  rcases hm : m.entries with _ | ⟨e, l⟩ <;> rw [hm] at h
  · simp at h
  · exact ⟨l, by simpa using h⟩

/-- The map with its keys and its values changed, where the new keys stand in the same order. -/
def map {κ' ν' : Type*} {lt' : κ' → κ' → Prop} (f : κ → κ') (g : ν → ν')
    (hf : ∀ a b, lt a b → lt' (f a) (f b)) (m : SortedMap κ ν lt) : SortedMap κ' ν' lt' :=
  ⟨m.entries.map fun e => (f e.1, g e.2),
    List.pairwise_map.mpr (m.sorted.imp fun h => hf _ _ h)⟩

variable [DecidableEq κ]

/-- The value at the first entry with key `k`. -/
def lookup (k : κ) : List (κ × ν) → Option ν
  | [] => none
  | (k', v) :: l => if k = k' then some v else lookup k l

def find? (m : SortedMap κ ν lt) (k : κ) : Option ν := lookup k m.entries

def contains (m : SortedMap κ ν lt) (k : κ) : Bool := (m.find? k).isSome

def erase (m : SortedMap κ ν lt) (k : κ) : SortedMap κ ν lt :=
  ⟨m.entries.filter fun e => e.1 ≠ k, m.pairwise_filter _⟩

variable [DecidableRel lt]

/-- The entries with `(k, v)` put at its place, instead of any entry with key `k`. -/
def place (lt : κ → κ → Prop) [DecidableRel lt] (k : κ) (v : ν) : List (κ × ν) → List (κ × ν)
  | [] => [(k, v)]
  | e :: l =>
    if lt k e.1 then (k, v) :: e :: l
    else if k = e.1 then (k, v) :: l
    else e :: place lt k v l

theorem mem_place {k : κ} {v : ν} : ∀ {l : List (κ × ν)} {e : κ × ν},
    e ∈ place lt k v l → e = (k, v) ∨ e ∈ l
  | [], e, h => by simpa [place] using h
  | e' :: l, e, h => by
    simp only [place] at h
    split_ifs at h
    · simpa using h
    · rcases List.mem_cons.mp h with h | h
      · exact .inl h
      · exact .inr (List.mem_cons_of_mem _ h)
    · rcases List.mem_cons.mp h with h | h
      · exact .inr (h ▸ List.mem_cons_self)
      · exact (mem_place h).imp id (List.mem_cons_of_mem _)

variable [IsStrictTotalOrder κ lt]

theorem pairwise_place (k : κ) (v : ν) : ∀ {l : List (κ × ν)},
    l.Pairwise (fun a b => lt a.1 b.1) → (place lt k v l).Pairwise fun a b => lt a.1 b.1
  | [], _ => by simp [place]
  | e :: l, h => by
    obtain ⟨he, hl⟩ := List.pairwise_cons.mp h
    simp only [place]
    split_ifs with h1 h2
    · refine List.pairwise_cons.mpr ⟨fun x hx => ?_, h⟩
      rcases List.mem_cons.mp hx with rfl | hx
      · exact h1
      · exact trans_of lt h1 (he x hx)
    · exact List.pairwise_cons.mpr ⟨fun x hx => h2 ▸ he x hx, hl⟩
    · refine List.pairwise_cons.mpr ⟨fun x hx => ?_, pairwise_place k v hl⟩
      rcases mem_place hx with rfl | hx
      · rcases trichotomous_of lt e.1 k with h3 | h3 | h3
        · exact h3
        · exact absurd h3.symm h2
        · exact absurd h3 h1
      · exact he x hx

def set (m : SortedMap κ ν lt) (k : κ) (v : ν) : SortedMap κ ν lt :=
  ⟨place lt k v m.entries, pairwise_place k v m.sorted⟩

/-! ## Lookups -/

omit [DecidableRel lt] [IsStrictTotalOrder κ lt] in
theorem lookup_append {k : κ} : ∀ {l : List (κ × ν)}, (∀ e ∈ l, e.1 ≠ k) → ∀ l',
    lookup k (l ++ l') = lookup k l'
  | [], _, _ => rfl
  | (k', v) :: l, h, l' => by
    have hk : k ≠ k' := fun e => h (k', v) List.mem_cons_self e.symm
    simp only [List.cons_append, lookup, if_neg hk]
    exact lookup_append (fun e he => h e (List.mem_cons_of_mem _ he)) l'

omit [DecidableRel lt] [IsStrictTotalOrder κ lt] in
theorem lookup_eq_none {k : κ} {l : List (κ × ν)} (h : ∀ e ∈ l, e.1 ≠ k) : lookup k l = none := by
  simpa [lookup] using lookup_append h []

omit [DecidableRel lt] [DecidableEq κ] in
theorem ne_of_lt {a b : κ} (h : lt a b) : a ≠ b := by
  rintro rfl
  exact irrefl_of lt a h

/-- The entry of `k`, if there is one, as a list. -/
def own (k : κ) (o : Option ν) : List (κ × ν) := o.toList.map fun v => (k, v)

/-- A key cuts the entries in two. Setting it puts its entry at the cut; erasing it closes it. -/
theorem entries_split (m : SortedMap κ ν lt) (k : κ) : ∃ l₁ l₂ : List (κ × ν),
    (∀ e ∈ l₁, lt e.1 k) ∧ (∀ e ∈ l₂, lt k e.1) ∧
      m.entries = l₁ ++ own k (m.find? k) ++ l₂ ∧
      (∀ v, (m.set k v).entries = l₁ ++ (k, v) :: l₂) ∧
      (m.erase k).entries = l₁ ++ l₂ := by
  obtain ⟨l, hs⟩ := m
  simp only [find?, set, erase]
  induction l with
  | nil => exact ⟨[], [], by simp [own, lookup, place]⟩
  | cons e l ih =>
    obtain ⟨he, hl⟩ := List.pairwise_cons.mp hs
    rcases trichotomous_of lt e.1 k with h | h | h
    · obtain ⟨l₁, l₂, h1, h2, h3, h4, h5⟩ := ih hl
      have hn : ¬ lt k e.1 := fun h' => irrefl_of lt k (trans_of lt h' h)
      have hne : k ≠ e.1 := (ne_of_lt h).symm
      refine ⟨e :: l₁, l₂, ?_, h2, ?_, ?_, ?_⟩
      · intro x hx
        rcases List.mem_cons.mp hx with rfl | hx
        · exact h
        · exact h1 x hx
      · simp only [lookup, if_neg hne, List.cons_append]
        exact congrArg (e :: ·) h3
      · intro v
        simp only [place, if_neg hn, if_neg hne, h4 v, List.cons_append]
      · simp only [List.filter_cons, h5, ne_of_lt h, ne_eq, not_false_eq_true, decide_true,
          if_true, List.cons_append]
    · subst h
      refine ⟨[], l, by simp, he, by simp [lookup, own], ?_, ?_⟩
      · intro v
        simp [place, irrefl_of lt e.1]
      · have hf : l.filter (fun x => decide (x.1 ≠ e.1)) = l :=
          List.filter_eq_self.mpr fun x hx => by simpa using (ne_of_lt (he x hx)).symm
        rw [List.filter_cons, if_neg (by simp), List.nil_append]
        exact hf
    · have hall : ∀ x ∈ e :: l, lt k x.1 := by
        intro x hx
        rcases List.mem_cons.mp hx with rfl | hx
        · exact h
        · exact trans_of lt h (he x hx)
      have hnone : lookup k (e :: l) = none :=
        lookup_eq_none fun x hx => (ne_of_lt (hall x hx)).symm
      refine ⟨[], e :: l, by simp, hall, by simp [hnone, own], ?_, ?_⟩
      · intro v
        simp [place, h]
      · exact List.filter_eq_self.mpr fun x hx => by simpa using (ne_of_lt (hall x hx)).symm

omit [DecidableRel lt] [IsStrictTotalOrder κ lt] in
theorem lookup_cut {k k' : κ} (hk : k' ≠ k) (l₁ l₂ : List (κ × ν)) (o : Option ν) :
    lookup k' (l₁ ++ own k o ++ l₂) = lookup k' (l₁ ++ l₂) := by
  cases o with
  | none => simp [own]
  | some v =>
    induction l₁ with
    | nil => simp [own, lookup, hk]
    | cons e l₁ ih =>
      simp only [List.cons_append, lookup]
      split_ifs
      · rfl
      · exact ih

@[simp]
theorem find?_set (m : SortedMap κ ν lt) (k k' : κ) (v : ν) :
    (m.set k v).find? k' = if k' = k then some v else m.find? k' := by
  obtain ⟨l₁, l₂, h₁, h₂, hm, hset, -⟩ := m.entries_split k
  split_ifs with hk
  · subst hk
    simp only [find?, hset]
    rw [lookup_append fun e he => ne_of_lt (h₁ e he)]
    simp [lookup]
  · have hsome : (m.set k v).entries = l₁ ++ own k (some v) ++ l₂ := by simp [hset, own]
    rw [find?, hsome, lookup_cut hk, find?, hm, lookup_cut hk]

@[simp]
theorem find?_erase (m : SortedMap κ ν lt) (k k' : κ) :
    (m.erase k).find? k' = if k' = k then none else m.find? k' := by
  obtain ⟨l₁, l₂, h₁, h₂, hm, -, herase⟩ := m.entries_split k
  split_ifs with hk
  · subst hk
    simp only [find?, herase]
    rw [lookup_append fun e he => ne_of_lt (h₁ e he),
      lookup_eq_none fun e he => (ne_of_lt (h₂ e he)).symm]
  · rw [find?, herase, find?, hm, lookup_cut hk]

omit [DecidableRel lt] [IsStrictTotalOrder κ lt] in
@[simp]
theorem find?_empty (k : κ) : (empty : SortedMap κ ν lt).find? k = none := rfl

omit [DecidableRel lt] [IsStrictTotalOrder κ lt] in
theorem find?_map_id {ν' : Type*} (g : ν → ν') (m : SortedMap κ ν lt) (k : κ) :
    (m.map id g fun _ _ h => h).find? k = (m.find? k).map g := by
  have h : ∀ l : List (κ × ν),
      lookup k (l.map fun e => (id e.1, g e.2)) = (lookup k l).map g := by
    intro l
    induction l with
    | nil => rfl
    | cons e l ih =>
      simp only [List.map_cons, lookup, id_eq] at ih ⊢
      split_ifs
      · rfl
      · exact ih
  exact h m.entries

theorem mem_entries_iff {m : SortedMap κ ν lt} {k : κ} {v : ν} :
    (k, v) ∈ m.entries ↔ m.find? k = some v := by
  obtain ⟨l₁, l₂, h₁, h₂, hm, -, -⟩ := m.entries_split k
  rw [hm]
  simp only [List.mem_append, own, List.mem_map, Option.mem_toList, Prod.mk.injEq, true_and,
    exists_eq_right]
  constructor
  · rintro ((h | h) | h)
    · exact absurd (h₁ _ h) (irrefl_of lt k)
    · exact h
    · exact absurd (h₂ _ h) (irrefl_of lt k)
  · exact fun h => .inl (.inr h)

/-- Sorted lists with the same members are equal, so maps are told apart by their lookups. -/
theorem ext_find? {m m' : SortedMap κ ν lt} (h : ∀ k, m.find? k = m'.find? k) : m = m' := by
  have hmem : ∀ e, e ∈ m.entries ↔ e ∈ m'.entries := by
    rintro ⟨k, v⟩
    rw [mem_entries_iff, mem_entries_iff, h]
  have hnodup : ∀ m : SortedMap κ ν lt, m.entries.Nodup := by
    intro m
    refine m.sorted.imp ?_
    rintro a _ hab rfl
    exact irrefl_of lt a.1 hab
  refine ext (((List.perm_ext_iff_of_nodup (hnodup m) (hnodup m')).mpr hmem).eq_of_pairwise
    ?_ m.sorted m'.sorted)
  intro a b _ _ hab hba
  exact absurd (trans_of lt hab hba) (irrefl_of lt a.1)

omit [DecidableEq κ] [DecidableRel lt] in
theorem nodup_keys (m : SortedMap κ ν lt) : (m.entries.map Prod.fst).Nodup := by
  rw [List.Nodup, List.pairwise_map]
  refine m.sorted.imp ?_
  intro a b h
  exact @ne_of_lt κ lt _ _ _ h

/-! ## The first entry -/

theorem entries_set_of_cons {m : SortedMap κ ν lt} {k : κ} {v : ν} {l : List (κ × ν)}
    (h : m.entries = (k, v) :: l) (w : ν) : (m.set k w).entries = (k, w) :: l := by
  simp [set, h, place, irrefl_of lt k]

omit [DecidableRel lt] in
theorem entries_erase_of_cons {m : SortedMap κ ν lt} {k : κ} {v : ν} {l : List (κ × ν)}
    (h : m.entries = (k, v) :: l) : (m.erase k).entries = l := by
  have hs := m.sorted
  rw [h, List.pairwise_cons] at hs
  have hf : l.filter (fun e => decide (e.1 ≠ k)) = l :=
    List.filter_eq_self.mpr fun x hx => by simpa using (ne_of_lt (hs.1 x hx)).symm
  have he : (m.erase k).entries = m.entries.filter fun e => decide (e.1 ≠ k) := rfl
  rw [he, h, List.filter_cons, if_neg (by simp)]
  exact hf

end SortedMap
